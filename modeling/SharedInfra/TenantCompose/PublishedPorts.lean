import SharedInfra.TenantCompose.Interpolation

/-!
# The address of a published port

The judge compares the text of a host with four literals; Compose reads an address
(`composeAddress`), and an address has many spellings.  The unspecified IPv4 address has one
(`ipv4Value_eq_zero`), so what the rule lets through by mistake is an IPv6 spelling of it, or an
entry that Compose does not read at all (`boundPort_iff`).
-/

namespace SharedInfra.TenantCompose

open Python Sequences

section Reading

inductive HostAddress where
  | v4 (value : Nat)
  | v6 (value : Nat)
deriving DecidableEq

/-- Every interface: the address of zeros, as IPv4, as IPv6, or as IPv4 in IPv6. -/
def HostAddress.Unspecified : HostAddress → Prop
  | .v4 value => value = 0
  | .v6 value => value = 0 ∨ value = 0xffff00000000

/-- `127.0.0.1`. -/
def loopback : HostAddress := .v4 0x7f000001

/-- The address that a text writes. -/
def literalAddress (host : Str) : Option HostAddress :=
  match ipv4Value host with
  | some value => some (.v4 value)
  | none => (ipv6Value host).map .v6

/-- The address in `[HOST:[PORT:]]CONTAINER[/proto]`, as Compose reads it. -/
def shortAddress (entry : Str) : Option HostAddress :=
  let text := entry.takeWhile (· != '/')
  if text.head? = some '[' then
    match text.dropWhile (· != ']') with
    | _ :: ':' :: rest =>
      match splitOnChar ':' rest with
      | [container] | [_, container] =>
        if container = [] then none
        else (ipv6Value ((text.takeWhile (· != ']')).drop 1)).map .v6
      | _ => none
    | _ => none
  else match splitOnChar ':' text with
    | [host, container] | [host, _, container] =>
      if container = [] then none else (ipv4Value host).map .v4
    | _ => none

/-- The address that Compose binds for an entry. -/
def composeAddress (entry : Doc) : Option HostAddress :=
  match entry with
  | .mapping fields =>
    match Doc.get fields "host_ip".toList with
    | .scalar (.text host) => literalAddress host
    | _ => none
  | .scalar (.text entry) => shortAddress entry
  | _ => none

variable {host : Str} {entry : Doc} {a : HostAddress} {n : Nat}

def Writes (host : Str) (a : HostAddress) : Prop :=
  (∃ n, ipv4Value host = some n ∧ a = .v4 n) ∨ ∃ n, ipv6Value host = some n ∧ a = .v6 n

theorem writes_of_literal (h : literalAddress host = some a) : Writes host a := by
  rw [literalAddress] at h
  cases h4 : ipv4Value host with
  | some n =>
    rw [h4] at h
    exact Or.inl ⟨n, h4, (Option.some.inj h).symm⟩
  | none =>
    rw [h4] at h
    obtain ⟨n, hn, rfl⟩ := Option.map_eq_some_iff.mp h
    exact Or.inr ⟨n, hn, rfl⟩

theorem writes_short {entry : Str} (hpublished : publishedAddress (.scalar (.text entry)) = some host)
    (h : shortAddress entry = some a) : Writes host a := by
  rw [publishedAddress] at hpublished
  simp only [shortAddress] at h
  by_cases hbracket : (entry.takeWhile (· != '/')).head? = some '['
  · rw [if_pos hbracket] at hpublished h
    generalize (entry.takeWhile (· != '/')) = text at hpublished h
    have hhost : host = (text.takeWhile (· != ']')).drop 1 := by
      split at hpublished
      · cases hpublished
      · split_ifs at hpublished
        exact (Option.some.inj hpublished).symm
    have hvalue : (ipv6Value ((text.takeWhile (· != ']')).drop 1)).map HostAddress.v6 = some a := by
      split at h
      · split at h
        · split_ifs at h
          exact h
        · split_ifs at h
          exact h
        · cases h
      · cases h
    rw [← hhost] at hvalue
    obtain ⟨n, hn, rfl⟩ := Option.map_eq_some_iff.mp hvalue
    exact Or.inr ⟨n, hn, rfl⟩
  · rw [if_neg hbracket] at hpublished h
    split at hpublished
    next host' port container hsplit =>
      obtain rfl := Option.some.inj hpublished
      rw [hsplit] at h
      simp only at h
      split_ifs at h
      obtain ⟨n, hn, rfl⟩ := Option.map_eq_some_iff.mp h
      exact Or.inl ⟨n, hn, rfl⟩
    · cases hpublished

theorem writes_of_published (hpublished : publishedAddress entry = some host)
    (h : composeAddress entry = some a) : Writes host a := by
  cases entry with
  | list items => cases hpublished
  | scalar s =>
    cases s with
    | text entry => exact writes_short hpublished h
    | null => cases hpublished
    | bool b => cases hpublished
    | number q => cases hpublished
    | other t => cases hpublished
  | mapping fields =>
    rw [publishedAddress] at hpublished
    rw [composeAddress] at h
    cases hget : Doc.get fields "host_ip".toList with
    | list items =>
      rw [hget] at h
      cases h
    | mapping inner =>
      rw [hget] at h
      cases h
    | scalar s =>
      rw [hget] at h hpublished
      cases s with
      | text address =>
        obtain rfl := Option.some.inj hpublished
        exact writes_of_literal h
      | null => cases h
      | bool b => cases h
      | number q => cases h
      | other t => cases h

end Reading

section Spellings

variable {host octet : Str}

theorem one_le_foldl (digits : Str) {n : Nat} (hn : 1 ≤ n) :
    1 ≤ digits.foldl (fun n c => n * 10 + (c.toNat - 48)) n := by
  induction digits generalizing n with
  | nil => exact hn
  | cons c digits ih =>
    rw [List.foldl_cons]
    exact ih (by omega)

theorem eq_zero_of_parseOctet (h : parseOctet octet = some 0) : octet = ['0'] := by
  rw [parseOctet] at h
  split_ifs at h with hbad
  have hvalue : decimalValue octet = 0 := Option.some.inj h
  simp only [Bool.or_eq_true, not_or, Bool.not_eq_true', Bool.not_eq_true,
    Bool.and_eq_true, not_and, Bool.not_eq_false] at hbad
  obtain ⟨⟨⟨hdigits, -⟩, hlead⟩, -⟩ := hbad
  by_contra hne
  cases octet with
  | nil => cases hdigits
  | cons c digits =>
    have hc : c ≠ '0' := by
      rintro rfl
      exact absurd rfl (Bool.eq_false_iff.mp (hlead (decide_eq_true hne)))
    have hdigit : c.isDigit = true := List.all_eq_true.mp
      (Bool.and_eq_true_iff.mp hdigits).2 c List.mem_cons_self
    have hcode : 1 ≤ c.toNat - 48 := by
      have h48 : 48 ≤ c.toNat := (toNat_of_isDigit hdigit).1
      have hne48 : c.toNat ≠ 48 := fun heq => hc (char_eq_of_toNat heq)
      omega
    have hpos : 1 ≤ decimalValue (c :: digits) := by
      rw [decimalValue, List.foldl_cons, Nat.zero_mul, Nat.zero_add]
      exact one_le_foldl digits hcode
    omega

theorem ipv4Value_eq_zero (h : ipv4Value host = some 0) : host = "0.0.0.0".toList := by
  simp only [ipv4Value] at h
  split_ifs at h with hlength
  obtain ⟨bytes, hbytes, hzero⟩ := Option.map_eq_some_iff.mp h
  obtain ⟨a, b, c, d, hsplit⟩ := List.length_eq_four.mp (not_not.mp hlength)
  rw [hsplit] at hbytes
  simp only [List.mapM_cons, List.mapM_nil, Option.bind_eq_bind, Option.bind_eq_some_iff,
    Option.pure_def, Option.some.injEq] at hbytes
  obtain ⟨m, hm, _, ⟨n, hn, _, ⟨p, hp, _, ⟨q, hq, _, rfl, rfl⟩, rfl⟩, rfl⟩, rfl⟩ := hbytes
  simp only [List.foldl_cons, List.foldl_nil] at hzero
  obtain rfl : m = 0 := by omega
  obtain rfl : n = 0 := by omega
  obtain rfl : p = 0 := by omega
  obtain rfl : q = 0 := by omega
  rw [eq_zero_of_parseOctet hm, eq_zero_of_parseOctet hn, eq_zero_of_parseOctet hp,
    eq_zero_of_parseOctet hq] at hsplit
  rw [← joinWith_splitOnChar '.' host, hsplit]
  simp only [toList_literal]
  rfl

end Spellings

section Accepted

variable {sha256 : Bytes → Str} {load : Str → Option Doc} {str_ : Scalar → Str} {params : Params}
  {v : Verdict} {document entry : Doc} {name host : Str} {profile : Profile}

def PortOf (document entry : Doc) : Prop :=
  ∃ fields services key service ports, document = .mapping fields ∧
    Doc.get fields "services".toList = .mapping services ∧ (key, Doc.mapping service) ∈ services ∧
    Doc.get service "ports".toList = .list ports ∧ entry ∈ ports

def LetsThrough (profile : Profile) (host : Str) : Prop :=
  host ∉ wildcardAddresses ∧ (profile = .spool → host = spoolPublishAddress)

theorem portRefusals_eq_nil : portRefusals name profile entry = [] ↔
    ∃ host, publishedAddress entry = some host ∧ LetsThrough profile host := by
  rw [portRefusals]
  cases publishedAddress entry with
  | none =>
    constructor
    · intro h
      cases h
    · rintro ⟨host, hhost, -⟩
      cases hhost
  | some host =>
    simp only [Option.some.injEq, exists_eq_left', LetsThrough]
    split_ifs with hwild hspool
    · exact ⟨fun h => (by cases h), fun h => absurd hwild h.1⟩
    · exact ⟨fun h => (by cases h), fun h => absurd (h.2 hspool.1) hspool.2⟩
    · exact ⟨fun _ => ⟨hwild, fun hprofile => not_not.mp fun hne => hspool ⟨hprofile, hne⟩⟩,
        fun _ => rfl⟩

theorem getD_of_get {fields : List (Scalar × Doc)} {key : Str} {ports : List Doc}
    (h : Doc.get fields key = .list ports) (d : Doc) : (Doc.get? fields key).getD d = .list ports := by
  rw [Doc.get] at h
  cases hget : Doc.get? fields key with
  | none =>
    rw [hget] at h
    cases h
  | some value =>
    rw [hget] at h
    exact h

theorem letsThrough_of_accepted (hcompose : composeRefusals str_ params document = [])
    (hport : PortOf document entry) :
    ∃ host, publishedAddress entry = some host ∧ LetsThrough params.profile host := by
  obtain ⟨fields, services, key, service, ports, rfl, hservices, hservice, hports, hentry⟩ := hport
  rw [composeRefusals] at hcompose
  simp only [hservices] at hcompose
  have hall : services.flatMap (fun service =>
      serviceRefusals (keyText str_ service.1) service.2 params.profile) = [] := by
    cases services with
    | nil => cases hservice
    | cons s services =>
      have h1 := (List.append_eq_nil_iff.mp hcompose).1
      have h2 := (List.append_eq_nil_iff.mp h1).1
      have h3 := (List.append_eq_nil_iff.mp h2).1
      exact (List.append_eq_nil_iff.mp h3).2
  have hone := List.flatMap_eq_nil_iff.mp hall _ hservice
  rw [serviceRefusals, getD_of_get hports] at hone
  have hlast := (List.append_eq_nil_iff.mp hone).2
  exact portRefusals_eq_nil.mp (List.flatMap_eq_nil_iff.mp hlast entry hentry)

end Accepted

end SharedInfra.TenantCompose
