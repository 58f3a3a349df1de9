import SharedInfra.Python.Lines

/-!
# `ipaddress`

Which texts Python's `ipaddress.ip_address` and `ipaddress.ip_network` accept.
An address is read to its integer; a network is an address, an optional prefix
length (or, for IPv4, a netmask or hostmask) and no host bits set.
-/

namespace SharedInfra.Python

/-- `str.isascii() and str.isdigit()`. -/
def isAsciiDigits (s : Str) : Bool := !s.isEmpty && s.all Char.isDigit

/-- `int(s)` for a text of ASCII digits. -/
def decimalValue (s : Str) : Nat := s.foldl (fun n c => n * 10 + (c.toNat - 48)) 0

/-- `IPv4Address._parse_octet`. -/
def parseOctet (s : Str) : Option Nat :=
  if !isAsciiDigits s || s.length > 3 || (s ≠ ['0'] && s.head? == some '0') ||
      decimalValue s > 255 then none
  else some (decimalValue s)

/-- `IPv4Address._ip_int_from_string`. -/
def ipv4Value (s : Str) : Option Nat :=
  let octets := splitOnChar '.' s
  if octets.length ≠ 4 then none
  else (octets.mapM parseOctet).map (fun bytes => bytes.foldl (fun n b => n * 256 + b) 0)

/-- The value of one hexadecimal digit. -/
def hexDigit (c : Char) : Option Nat :=
  if c.isDigit then some (c.toNat - 48)
  else if 'a' ≤ c ∧ c ≤ 'f' then some (c.toNat - 87)
  else if 'A' ≤ c ∧ c ≤ 'F' then some (c.toNat - 55)
  else none

/-- `IPv6Address._parse_hextet`. -/
def parseHextet (s : Str) : Option Nat :=
  if s.isEmpty || s.length > 4 then none
  else (s.mapM hexDigit).map (fun digits => digits.foldl (fun n d => n * 16 + d) 0)

/-- The colon-separated parts, with a trailing IPv4 address read as two hextets. -/
def ipv6Parts (s : Str) : Option (List (Option Nat × Bool)) :=
  let parts := splitOnChar ':' s
  let read (p : Str) : Option Nat × Bool := (parseHextet p, p.isEmpty)
  match parts.getLast? with
  | none => none
  | some last =>
    if parts.length < 3 then none
    else if last.contains '.' then
      (ipv4Value last).map fun v =>
        parts.dropLast.map read ++ [(some (v / 65536), false), (some (v % 65536), false)]
    else some (parts.map read)

/-- The integer eight hextets make. -/
def hextetsValue (hextets : List Nat) : Nat :=
  hextets.foldl (fun n h => n * 65536 + h) 0

/-- The value of parts with one `::`, which stands before the part `skip`. -/
def ipv6SkipValue (parts : List (Option Nat × Bool)) (skip : Nat)
    (firstEmpty lastEmpty : Bool) : Option Nat :=
  let hi := parts.take skip
  let lo := parts.drop (skip + 1)
  if (firstEmpty && hi.length != 1) || (lastEmpty && lo.length != 1) then none
  else
    let hi := if firstEmpty then [] else hi
    let lo := if lastEmpty then [] else lo
    if hi.length + lo.length > 7 then none
    else (hi.mapM Prod.fst).bind fun his => (lo.mapM Prod.fst).map fun los =>
      hextetsValue (his ++ List.replicate (8 - (hi.length + lo.length)) 0 ++ los)

/-- `IPv6Address._ip_int_from_string`. -/
def ipv6Value (s : Str) : Option Nat :=
  (ipv6Parts s).bind fun parts =>
    let firstEmpty := (parts.head?.map (·.2)).getD false
    let lastEmpty := (parts.getLast?.map (·.2)).getD false
    let inner := parts.zipIdx.filter fun p => p.1.2 && 1 ≤ p.2 && p.2 + 1 < parts.length
    if parts.length > 9 then none
    else match inner with
      | [] =>
        if parts.length != 8 || firstEmpty || lastEmpty then none
        else (parts.mapM Prod.fst).map hextetsValue
      | [skip] => ipv6SkipValue parts skip.2 firstEmpty lastEmpty
      | _ => none

/-- `IPv6Address`: the text up to a scope id, which must be one non-empty `%` part. -/
def ipv6AddressValue (s : Str) : Option Nat :=
  match splitOnChar '%' s with
  | [addr] => ipv6Value addr
  | [addr, scope] => if scope.isEmpty then none else ipv6Value addr
  | _ => none

/-- Whether `ipaddress.ip_address` accepts the text. -/
def isIpAddress (s : Str) : Bool :=
  !s.contains '/' && ((ipv4Value s).isSome || (ipv6AddressValue s).isSome)

/-- The prefix length whose netmask is `mask`, if it is a run of ones. -/
def prefixOfMask (mask : Nat) : Option Nat :=
  (List.range 33).find? fun p => mask == 2 ^ 32 - 2 ^ (32 - p)

/-- The prefix length a text after the slash names, for `bits`-bit addresses. -/
def prefixLength (bits : Nat) (s : Str) : Option Nat :=
  if isAsciiDigits s && decimalValue s ≤ bits then some (decimalValue s)
  else if bits ≠ 32 then none
  else (ipv4Value s).bind fun mask =>
    (prefixOfMask mask).orElse fun _ => prefixOfMask (2 ^ 32 - 1 - mask)

def isNetworkOf (bits : Nat) (value : Option Nat) (length : Option Nat) : Bool :=
  match value, length with
  | some v, some p => v % 2 ^ (bits - p) == 0
  | _, _ => false

/-- Whether `ipaddress.ip_network` accepts the text (strict: no host bits set). -/
def isIpNetwork (s : Str) : Bool :=
  match splitOnChar '/' s with
  | [addr] => (ipv4Value addr).isSome || (ipv6AddressValue addr).isSome
  | [addr, mask] =>
    isNetworkOf 32 (ipv4Value addr) (prefixLength 32 mask) ||
      isNetworkOf 128 (ipv6AddressValue addr) (prefixLength 128 mask)
  | _ => false

example : isIpNetwork "10.20.1.0/24" = true ∧ isIpNetwork "10.20.1.1/24" = false ∧
    isIpAddress "fe80::1%eth0" = true ∧ isIpAddress "10.20.1.010" = false := by
  decide

/-!
# The text of an address

`str(ipaddress.ip_address(s))`: the four octets of an IPv4 address, or the eight
hextets of an IPv6 address with its longest run of zeros left out, and a scope id
exactly as it was written.  Everything but the scope id is made of hexadecimal
digits, dots and colons (`ipText_eq`).
-/

/-- `IPv4Address._string_from_ip_int`. -/
def ipv4Text (value : Nat) : Str :=
  joinWith "." ([value / 2 ^ 24, value / 2 ^ 16 % 256, value / 2 ^ 8 % 256, value % 256].map decimal)

def hextets (value : Nat) : List Str :=
  (List.range 8).map fun i => Nat.toDigits 16 (value / 2 ^ (16 * (7 - i)) % 2 ^ 16)

/-- The first longest run of zeros found so far, the run that is being read, and its place. -/
structure ZeroRun where
  bestStart : Nat
  bestLength : Nat
  length : Nat
  index : Nat

def ZeroRun.read (run : ZeroRun) (hextet : Str) : ZeroRun :=
  if hextet = ['0'] then
    let length := run.length + 1
    if run.bestLength < length then ⟨run.index + 1 - length, length, length, run.index + 1⟩
    else ⟨run.bestStart, run.bestLength, length, run.index + 1⟩
  else ⟨run.bestStart, run.bestLength, 0, run.index + 1⟩

def compressHextets (parts : List Str) : List Str :=
  let run := parts.foldl ZeroRun.read ⟨0, 0, 0, 0⟩
  if 1 < run.bestLength then
    let after := parts.drop (run.bestStart + run.bestLength)
    (if run.bestStart = 0 then [[]] else []) ++ parts.take run.bestStart ++ [[]] ++ after ++
      if after = [] then [[]] else []
  else parts

/-- `IPv6Address._string_from_ip_int`. -/
def ipv6Text (value : Nat) : Str := joinWith ":" (compressHextets (hextets value))

/-- `str(ipaddress.ip_address(s))`. -/
def ipText (s : Str) : Option Str :=
  if s.contains '/' then none
  else
    match ipv4Value s with
    | some value => some (ipv4Text value)
    | none =>
      match splitOnChar '%' s with
      | [address] => (ipv6Value address).map ipv6Text
      | [address, scope] =>
        if scope = [] then none
        else (ipv6Value address).map fun value => ipv6Text value ++ '%' :: scope
      | _ => none

example : ipText "fe80:0::01%eth0" = some "fe80::1%eth0".toList ∧
    ipText "::" = some "::".toList ∧ ipText "1:0:0:2::" = some "1:0:0:2::".toList ∧
    ipText "192.0.2.1" = some "192.0.2.1".toList ∧ ipText "1:2:3:4:5:6:7:0" =
      some "1:2:3:4:5:6:7:0".toList := by
  decide

/-- The letters of an address without a scope id. -/
def isAddressChar (c : Char) : Bool := "0123456789abcdef.:".toList.contains c

theorem isAddressChar_of_isDigit {c : Char} (h : c.isDigit = true) : isAddressChar c = true := by
  have hbounds := toNat_of_isDigit h
  have hall : ∀ n, n < 58 → 48 ≤ n → isAddressChar (Char.ofNat n) = true := by decide
  have hc := hall c.toNat (by omega) hbounds.1
  rwa [Char.ofNat_toNat] at hc

theorem isAddressChar_of_hex {n : Nat} {c : Char} (h : c ∈ Nat.toDigits 16 n) :
    isAddressChar c = true := by
  induction n using Nat.strong_induction_on with
  | _ n ih =>
    have hdigit : ∀ d, d < 16 → isAddressChar d.digitChar = true := by decide
    by_cases hlt : n < 16
    · rw [Nat.toDigits_of_lt_base hlt] at h
      rw [List.mem_singleton.mp h]
      exact hdigit n hlt
    · rw [Nat.toDigits_of_base_le (by decide) (Nat.le_of_not_lt hlt), List.mem_append] at h
      rcases h with h | h
      · exact ih (n / 16) (Nat.div_lt_self (by omega) (by decide)) h
      · rw [List.mem_singleton.mp h]
        exact hdigit _ (Nat.mod_lt _ (by decide))

theorem mem_joinWith {sep : Str} {parts : List Str} {c : Char} (h : c ∈ joinWith sep parts) :
    c ∈ sep ∨ ∃ part ∈ parts, c ∈ part := by
  induction parts with
  | nil => cases h
  | cons part parts ih =>
    cases parts with
    | nil => exact .inr ⟨part, List.mem_singleton_self _, h⟩
    | cons next parts =>
      rw [joinWith_cons_cons, List.mem_append, List.mem_append] at h
      rcases h with (h | h) | h
      · exact .inr ⟨part, List.mem_cons_self .., h⟩
      · exact .inl h
      · rcases ih h with h | ⟨other, hother, h⟩
        · exact .inl h
        · exact .inr ⟨other, List.mem_cons_of_mem _ hother, h⟩

theorem ipv4Text_chars {value : Nat} {c : Char} (h : c ∈ ipv4Text value) :
    isAddressChar c = true := by
  rcases mem_joinWith h with h | ⟨part, hpart, h⟩
  · rw [List.mem_singleton.mp h]
    decide
  · obtain ⟨n, -, rfl⟩ := List.mem_map.mp hpart
    exact isAddressChar_of_isDigit (Nat.isDigit_of_mem_toDigits (by decide) (by decide) h)

theorem mem_compressHextets {parts : List Str} {part : Str} (h : part ∈ compressHextets parts) :
    part = [] ∨ part ∈ parts := by
  rw [compressHextets] at h
  dsimp only at h
  have hempty : ∀ {p : Prop} [Decidable p], part ∈ (if p then [[]] else []) → part = [] := by
    intro p _ hmem
    split_ifs at hmem
    · exact List.mem_singleton.mp hmem
    · cases hmem
  split at h
  · simp only [List.mem_append] at h
    rcases h with (((h | h) | h) | h) | h
    · exact .inl (hempty h)
    · exact .inr (List.mem_of_mem_take h)
    · exact .inl (List.mem_singleton.mp h)
    · exact .inr (List.mem_of_mem_drop h)
    · exact .inl (hempty h)
  · exact .inr h

theorem ipv6Text_chars {value : Nat} {c : Char} (h : c ∈ ipv6Text value) :
    isAddressChar c = true := by
  rcases mem_joinWith h with h | ⟨part, hpart, h⟩
  · rw [List.mem_singleton.mp h]
    decide
  · rcases mem_compressHextets hpart with rfl | hpart
    · cases h
    · obtain ⟨i, -, rfl⟩ := List.mem_map.mp hpart
      exact isAddressChar_of_hex h

theorem ipText_eq {s text : Str} (h : ipText s = some text) :
    ∃ address scope, text = address ++ scope ∧ (∀ c ∈ address, isAddressChar c = true) ∧
      ∀ c ∈ scope, c ∈ s := by
  rw [ipText] at h
  split_ifs at h
  split at h
  · cases h
    exact ⟨_, [], (List.append_nil _).symm, fun _ => ipv4Text_chars, nofun⟩
  · split at h
    · obtain ⟨value, -, rfl⟩ := Option.map_eq_some_iff.mp h
      exact ⟨_, [], (List.append_nil _).symm, fun _ => ipv6Text_chars, nofun⟩
    · rename_i address scope hsplit
      split_ifs at h
      obtain ⟨value, -, rfl⟩ := Option.map_eq_some_iff.mp h
      have hs := joinWith_splitOnChar '%' s
      rw [hsplit] at hs
      refine ⟨_, _, rfl, fun _ => ipv6Text_chars, fun c hc => ?_⟩
      rw [← hs]
      simp only [joinWith, List.mem_append, List.mem_cons] at hc ⊢
      tauto
    · cases h

end SharedInfra.Python
