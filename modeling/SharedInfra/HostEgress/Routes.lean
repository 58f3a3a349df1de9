import SharedInfra.Python.IpRoundTrip
import SharedInfra.Python.Replace

/-!
# Addresses and routes as `ip` prints them

The patterns of `branchleft_host_egress.sh` over the text of addresses and of routing tables: the
patterns of the private addresses take the private, loopback and link-local ranges
(`isPrivateV4_iff`), and those of `grep` take the lines with a gateway that are neither a default
route nor the metadata route (`isCandidate_of_gateway`), and `awk` reads their gateway and device
(`words_v4`).
-/

namespace SharedInfra.HostEgress

open Python

section Patterns

/-- One character of a pattern: any from one letter to another. -/
abbrev Letters := Char × Char

def Letters.holds (r : Letters) (c : Char) : Bool := decide (r.1 ≤ c ∧ c ≤ r.2)

def one (c : Char) : Letters := (c, c)

/-- `.` of a regular expression. -/
def any : Letters := (Char.ofNat 0, Char.ofNat 0x10ffff)

def letters (s : Str) : List Letters := s.map one

def fits : List Letters → Str → Bool
  | [], _ => true
  | r :: p, c :: s => r.holds c && fits p s
  | _ :: _, [] => false

/-- A text is what a pattern says, to its end. -/
def fitsAll : List Letters → Str → Bool
  | [], [] => true
  | r :: p, c :: s => r.holds c && fitsAll p s
  | _, _ => false

variable {p q : List Letters} {sep : Letters} {d rest : Str} {e : Char}

theorem fits_piece (hp : ∀ r ∈ p, r.holds e = false)
    (hd : d.length ≤ p.length ∨ ∀ c ∈ d, sep.holds c = false) :
    fits (p ++ sep :: q) (d ++ e :: rest) = (fitsAll p d && (sep.holds e && fits q rest)) := by
  induction p generalizing d with
  | nil =>
    cases d with
    | nil => rfl
    | cons c d =>
      have hsep : sep.holds c = false := by
        rcases hd with hlength | hd
        · simp at hlength
        · exact hd c List.mem_cons_self
      simp [fits, fitsAll, hsep]
  | cons r p ih =>
    obtain ⟨hr, hp⟩ := List.forall_mem_cons.mp hp
    cases d with
    | nil => simp [fits, fitsAll, hr]
    | cons c d =>
      have hd' : d.length ≤ p.length ∨ ∀ c ∈ d, sep.holds c = false := by
        rcases hd with hlength | hd
        · exact Or.inl (Nat.le_of_succ_le_succ hlength)
        · exact Or.inr fun c hc => hd c (List.mem_cons_of_mem _ hc)
      rw [List.cons_append, List.cons_append, fits, fitsAll, ih hp hd', Bool.and_assoc]

end Patterns

section Addresses

/-- The patterns of `is_private_v4`, each with `*` at its end. -/
def privatePatterns : List (List Letters) :=
  [letters "10.", letters "192.168.", letters "127.", letters "169.254.",
    letters "172.1" ++ [('6', '9'), one '.'], letters "172.2" ++ [('0', '9'), one '.'],
    letters "172.3" ++ [('0', '1'), one '.']]

def isPrivateV4 (address : Str) : Bool := privatePatterns.any fun pattern => fits pattern address

/-- An address of a private, loopback or link-local range. -/
def IsLocal (value : Nat) : Prop :=
  value / 2 ^ 24 = 10 ∨ value / 2 ^ 20 = 172 * 16 + 1 ∨ value / 2 ^ 16 = 192 * 256 + 168 ∨
    value / 2 ^ 24 = 127 ∨ value / 2 ^ 16 = 169 * 256 + 254

instance (value : Nat) : Decidable (IsLocal value) := by
  unfold IsLocal
  infer_instance

variable {a b : Nat} {rest : Str} {value : Nat}

theorem not_digit {e : Char} (he : e.isDigit = false) (a : Nat) :
    ∀ c ∈ decimal a, (one e).holds c = false := by
  intro c hc
  rw [Letters.holds, decide_eq_false_iff_not]
  rintro ⟨hlow, hhigh⟩
  have hsame : e = c := Char.le_antisymm hlow hhigh
  have hdigit : c.isDigit = true := Nat.isDigit_of_mem_toDigits (by decide) (by decide) hc
  rw [← hsame, he] at hdigit
  exact Bool.false_ne_true hdigit

theorem fits_first (p : List Letters) (hp : ∀ r ∈ p, r.holds '.' = false) :
    fits (p ++ [one '.']) (decimal a ++ '.' :: rest) = fitsAll p (decimal a) := by
  rw [fits_piece hp (Or.inr (not_digit rfl a))]
  exact Bool.and_true _

theorem fits_second (p q : List Letters) (hp : ∀ r ∈ p, r.holds '.' = false)
    (hq : ∀ r ∈ q, r.holds '.' = false) :
    fits (p ++ one '.' :: (q ++ [one '.'])) (decimal a ++ '.' :: (decimal b ++ '.' :: rest)) =
      (fitsAll p (decimal a) && fitsAll q (decimal b)) := by
  rw [fits_piece hp (Or.inr (not_digit rfl a)), fits_first q hq]
  rfl

theorem isPrivateV4_octets (ha : a < 256) (hb : b < 256) :
    isPrivateV4 (decimal a ++ '.' :: (decimal b ++ '.' :: rest)) = true ↔
      a = 10 ∨ a = 192 ∧ b = 168 ∨ a = 127 ∨ a = 169 ∧ b = 254 ∨ a = 172 ∧ b / 16 = 1 := by
  have hone : ∀ a < 256, (fitsAll (letters "10") (decimal a) = true ↔ a = 10) ∧
      (fitsAll (letters "127") (decimal a) = true ↔ a = 127) ∧
      (fitsAll (letters "192") (decimal a) = true ↔ a = 192) ∧
      (fitsAll (letters "169") (decimal a) = true ↔ a = 169) ∧
      (fitsAll (letters "172") (decimal a) = true ↔ a = 172) ∧
      (fitsAll (letters "168") (decimal a) = true ↔ a = 168) ∧
      (fitsAll (letters "254") (decimal a) = true ↔ a = 254) ∧
      (fitsAll [one '1', ('6', '9')] (decimal a) = true ∨
        fitsAll [one '2', ('0', '9')] (decimal a) = true ∨
        fitsAll [one '3', ('0', '1')] (decimal a) = true ↔ a / 16 = 1) := by
    decide +kernel
  have hten : fits (letters "10.") (decimal a ++ '.' :: (decimal b ++ '.' :: rest)) =
      fitsAll (letters "10") (decimal a) := fits_first (letters "10") (by decide)
  have hloop : fits (letters "127.") (decimal a ++ '.' :: (decimal b ++ '.' :: rest)) =
      fitsAll (letters "127") (decimal a) := fits_first (letters "127") (by decide)
  have hhome : fits (letters "192.168.") (decimal a ++ '.' :: (decimal b ++ '.' :: rest)) =
      (fitsAll (letters "192") (decimal a) && fitsAll (letters "168") (decimal b)) :=
    fits_second (letters "192") (letters "168") (by decide) (by decide)
  have hlink : fits (letters "169.254.") (decimal a ++ '.' :: (decimal b ++ '.' :: rest)) =
      (fitsAll (letters "169") (decimal a) && fitsAll (letters "254") (decimal b)) :=
    fits_second (letters "169") (letters "254") (by decide) (by decide)
  have hmiddle : ∀ c r, (∀ l ∈ [one c, r], l.holds '.' = false) →
      fits (letters "172." ++ [one c, r, one '.'])
        (decimal a ++ '.' :: (decimal b ++ '.' :: rest)) =
      (fitsAll (letters "172") (decimal a) && fitsAll [one c, r] (decimal b)) :=
    fun c r hdot => fits_second (letters "172") [one c, r] (by decide) hdot
  obtain ⟨h10, h127, h192, h169, h172, -⟩ := hone a ha
  obtain ⟨-, -, -, -, -, h168, h254, h16⟩ := hone b hb
  have hpatterns : isPrivateV4 (decimal a ++ '.' :: (decimal b ++ '.' :: rest)) =
      (fitsAll (letters "10") (decimal a) ||
        ((fitsAll (letters "192") (decimal a) && fitsAll (letters "168") (decimal b)) ||
        (fitsAll (letters "127") (decimal a) ||
        ((fitsAll (letters "169") (decimal a) && fitsAll (letters "254") (decimal b)) ||
        ((fitsAll (letters "172") (decimal a) && fitsAll [one '1', ('6', '9')] (decimal b)) ||
        ((fitsAll (letters "172") (decimal a) && fitsAll [one '2', ('0', '9')] (decimal b)) ||
        (fitsAll (letters "172") (decimal a) &&
          fitsAll [one '3', ('0', '1')] (decimal b)))))))) := by
    rw [← hten, ← hloop, ← hhome, ← hlink, ← hmiddle '1' ('6', '9') (by decide),
      ← hmiddle '2' ('0', '9') (by decide), ← hmiddle '3' ('0', '1') (by decide)]
    simp only [isPrivateV4, privatePatterns, List.any_cons, List.any_nil, Bool.or_false]
    rfl
  rw [hpatterns]
  simp only [Bool.or_eq_true, Bool.and_eq_true, h10, h127, h192, h169, h172, h168, h254, ← h16,
    and_or_left]

theorem isPrivateV4_iff (h : value < 2 ^ 32) :
    isPrivateV4 (ipv4Text value) = true ↔ IsLocal value := by
  have htext : ipv4Text value = decimal (value / 2 ^ 24) ++ '.' ::
      (decimal (value / 2 ^ 16 % 256) ++ '.' :: (decimal (value / 2 ^ 8 % 256) ++ '.' ::
        decimal (value % 256))) := by
    simp only [ipv4Text, List.map_cons, List.map_nil, joinWith]
    simp
  rw [htext, isPrivateV4_octets (by omega) (by omega), IsLocal]
  omega

end Addresses

inductive Gateway where
  | v4 (value : Nat)
  | v6 (text : Str)
deriving DecidableEq

/-- A way out: a gateway, which a route to a network of the host itself has not, and a device. -/
structure Hop where
  gateway : Option Gateway
  dev : Option Str
deriving DecidableEq

inductive Dest where
  | default
  | host (value : Nat)
  | net (value length : Nat)
deriving DecidableEq

inductive Kind where
  | unicast
  | blackhole
  | unreachable
  | prohibit
  | throw
deriving DecidableEq

/-- A route of the main table: what is printed before its gateway and behind its device, and its
next hops where it has several. -/
structure Route where
  kind : Kind
  dest : Dest
  lead : List Str
  hop : Hop
  more : List Str
  nexthops : List (Hop × List Str)
  metric : Nat
deriving DecidableEq

def Gateway.words : Gateway → List Str
  | .v4 value => ["via".toList, ipv4Text value]
  | .v6 text => ["via".toList, "inet6".toList, text]

def Hop.words (hop : Hop) : List Str :=
  hop.gateway.elim [] Gateway.words ++ hop.dev.elim [] fun dev => ["dev".toList, dev]

def Dest.word : Dest → Str
  | .default => "default".toList
  | .host value => ipv4Text value
  | .net value length => ipv4Text value ++ '/' :: decimal length

/-- The words in front of the gateway; routes of the usual kind are printed without it. -/
def Route.front (r : Route) : List Str :=
  match r.kind with
  | .unicast => r.dest.word :: r.lead
  | .blackhole => "blackhole".toList :: r.dest.word :: r.lead
  | .unreachable => "unreachable".toList :: r.dest.word :: r.lead
  | .prohibit => "prohibit".toList :: r.dest.word :: r.lead
  | .throw => "throw".toList :: r.dest.word :: r.lead

/-- `ip` prints a blank behind each word. -/
def lineOf (words : List Str) : Str := words.flatMap (· ++ [' '])

def Route.line (r : Route) : Str := lineOf (r.front ++ (r.hop.words ++ r.more))

def nexthopLine (n : Hop × List Str) : Str :=
  '\t' :: lineOf ("nexthop".toList :: (n.1.words ++ n.2))

/-- The lines of a route with the ways out they name. -/
def Route.printed (r : Route) : List (Route × Hop × Str) :=
  (r, r.hop, r.line) :: r.nexthops.map fun n => (r, n.1, nexthopLine n)

/-- The lines of a table, and whose they are. -/
def printed (routes : List Route) : List (Route × Hop × Str) := routes.flatMap Route.printed

/-- `ip -4 route show`. -/
def routeLines (routes : List Route) : List Str := (printed routes).map fun x => x.2.2

/-- `METADATA_ADDRESS`. -/
def metadata : Dest := .host (169 * 2 ^ 24 + 254 * 2 ^ 16 + 169 * 2 ^ 8 + 254)

def Route.isSubnet (r : Route) : Bool := decide (r.dest ≠ .default ∧ r.dest ≠ metadata)

/-- The ways out with a gateway, without those of default and metadata routes. -/
def gateways (routes : List Route) : List Hop :=
  ((printed routes).filter fun x => x.1.isSubnet && x.2.1.gateway.isSome).map fun x => x.2.1

/-- Of the default routes the first one of the least metric is in effect. -/
def InEffect (routes : List Route) (r : Route) : Prop :=
  ∃ before after, routes.filter (fun r => decide (r.dest = .default)) = before ++ r :: after ∧
    (∀ other ∈ before, r.metric < other.metric) ∧ ∀ other ∈ after, r.metric ≤ other.metric

/-- A word of a line. -/
def IsField (word : Str) : Prop := word ≠ [] ∧ ∀ c ∈ word, c ≠ ' ' ∧ c ≠ '\t' ∧ c ≠ '\n'

/-- What stands behind the device begins with a word of its own, and never with an address. -/
def Behind (more : List Str) : Prop :=
  (∀ word ∈ more, IsField word ∧ word ≠ "via".toList ∧ word ≠ "dev".toList) ∧
    ∀ word ∈ more.head?, ipv4Value word = none

def Hop.Printed (hop : Hop) : Prop :=
  (∀ dev ∈ hop.dev, IsField dev) ∧
    ∀ gateway ∈ hop.gateway, match gateway with
      | .v4 value => value < 2 ^ 32
      | .v6 text => IsField text ∧ text ≠ "dev".toList

/-- A route as `ip` prints it. -/
structure Route.Printed (r : Route) : Prop where
  dest : match r.dest with
    | .default => True
    | .host value => value < 2 ^ 32
    | .net value length => value < 2 ^ 32 ∧ 0 < length ∧ length < 32
  lead : ∀ word ∈ r.lead, IsField word ∧ word ≠ "via".toList ∧ word ≠ "dev".toList
  hop : r.hop.Printed
  more : Behind r.more
  nexthops : ∀ n ∈ r.nexthops, n.1.Printed ∧ Behind n.2
  special : r.kind ≠ .unicast → r.hop.gateway = none
  several : r.nexthops ≠ [] → r.hop = ⟨none, none⟩

/-- A table as `ip` prints it: default routes stand in the order of their metrics. -/
structure PrintedTable (routes : List Route) : Prop where
  each : ∀ r ∈ routes, r.Printed
  ordered : (routes.filter fun r => decide (r.dest = .default)).Pairwise fun r r' =>
    r.metric ≤ r'.metric

/-- `grep ' via '`. -/
def hasVia (line : Str) : Bool := decide (" via ".toList <:+: line)

/-- `"^${METADATA_ADDRESS} "`; its dots take any character. -/
def metadataPattern : List Letters :=
  "169.254.169.254 ".toList.map fun c => if c = '.' then any else one c

/-- The lines that are left in `candidate_routes`. -/
def isCandidate (line : Str) : Bool :=
  hasVia line && !startsWith line "default " && !fits metadataPattern line

/-- The fields of a line, as `awk` splits it. -/
def fields (line : Str) : List Str :=
  (splitOnChar ' ' (line.map fun c => if c = '\t' then ' ' else c)).filter fun f => decide (f ≠ [])

/-- The field behind the first one of a name; nothing at all where there is none. -/
def fieldAfter (name : Str) : List Str → Str
  | [] => []
  | field :: rest => if field = name then rest.headD [] else fieldAfter name rest

section Lines

theorem first_unique {α : Type} {a : α} {xs ys xs' ys' : List α}
    (h : xs ++ a :: ys = xs' ++ a :: ys') (hx : a ∉ xs) (hx' : a ∉ xs') : xs = xs' ∧ ys = ys' := by
  rcases List.append_eq_append_iff.mp h with ⟨rest, rfl, hrest⟩ | ⟨rest, rfl, hrest⟩
  · cases rest with
    | nil => exact ⟨(List.append_nil _).symm, (List.cons.inj hrest).2⟩
    | cons b rest =>
      rw [(List.cons.inj hrest).1] at hx'
      exact absurd (List.mem_append_right _ List.mem_cons_self) hx'
  · cases rest with
    | nil => exact ⟨List.append_nil _, (List.cons.inj hrest).2.symm⟩
    | cons b rest =>
      rw [(List.cons.inj hrest).1] at hx
      exact absurd (List.mem_append_right _ List.mem_cons_self) hx

variable {word : Str} {words before after : List Str}

@[simp] theorem lineOf_nil : lineOf [] = [] := rfl

theorem lineOf_cons : lineOf (word :: words) = word ++ ' ' :: lineOf words := by
  rw [lineOf, List.flatMap_cons, List.append_assoc]
  rfl

theorem lineOf_append : lineOf (before ++ after) = lineOf before ++ lineOf after :=
  List.flatMap_append

theorem between_blanks (h : word ∈ words) (first : Str) :
    ' ' :: (word ++ [' ']) <:+: lineOf (first :: words) := by
  obtain ⟨before, after, rfl⟩ := List.append_of_mem h
  have hblank : ∃ u, lineOf (first :: before) = u ++ [' '] := by
    obtain ⟨init, last, hlast⟩ := List.eq_nil_or_concat (first :: before) |>.resolve_left
      (List.cons_ne_nil _ _)
    refine ⟨lineOf init ++ last, ?_⟩
    rw [hlast, List.concat_eq_append, lineOf_append, lineOf_cons, List.append_assoc]
    rfl
  obtain ⟨u, hu⟩ := hblank
  refine ⟨u, lineOf after, ?_⟩
  have hline : lineOf (first :: (before ++ word :: after)) =
      lineOf (first :: before) ++ lineOf (word :: after) := by
    rw [← List.cons_append]
    exact lineOf_append
  rw [hline, hu, lineOf_cons]
  simp

theorem hasVia_lineOf (h : "via".toList ∈ words) (first : Str) :
    hasVia (lineOf (first :: words)) = true :=
  decide_eq_true (between_blanks h first)

theorem splitOnChar_lineOf (h : ∀ word ∈ words, IsField word) :
    splitOnChar ' ' (lineOf words) = words ++ [[]] := by
  induction words with
  | nil => rfl
  | cons word words ih =>
    obtain ⟨⟨-, hword⟩, hwords⟩ := List.forall_mem_cons.mp h
    have hblank : ' ' ∉ word := fun hmem => (hword _ hmem).1 rfl
    rw [lineOf_cons, splitOnChar_append, splitOnChar_of_not_mem hblank, ih hwords]
    rfl

theorem not_tab_of_lineOf (h : ∀ word ∈ words, IsField word) : ∀ c ∈ lineOf words, c ≠ '\t' := by
  intro c hc
  obtain ⟨word, hword, hc⟩ := List.mem_flatMap.mp hc
  obtain hc | hc := List.mem_append.mp hc
  · exact ((h word hword).2 c hc).2.1
  · rw [List.mem_singleton.mp hc]
    decide

theorem fields_lineOf (h : ∀ word ∈ words, IsField word) : fields (lineOf words) = words := by
  have hmap : (lineOf words).map (fun c => if c = '\t' then ' ' else c) = lineOf words := by
    calc (lineOf words).map (fun c => if c = '\t' then ' ' else c)
        = (lineOf words).map id :=
          List.map_congr_left fun c hc => if_neg (not_tab_of_lineOf h c hc)
      _ = lineOf words := List.map_id _
  have hkept : words.filter (fun f => decide (f ≠ [])) = words :=
    List.filter_eq_self.mpr fun word hword => decide_eq_true (h word hword).1
  rw [fields, hmap, splitOnChar_lineOf h, List.filter_append, hkept]
  exact List.append_nil _

theorem fields_tab (line : Str) : fields ('\t' :: line) = fields line := by
  rw [fields, List.map_cons, if_pos rfl, splitOnChar, if_pos rfl]
  rfl

theorem fieldAfter_append {name : Str} (h : name ∉ before) :
    fieldAfter name (before ++ after) = fieldAfter name after := by
  induction before with
  | nil => rfl
  | cons field before ih =>
    obtain ⟨hne, hbefore⟩ := List.ne_and_not_mem_of_not_mem_cons h
    rw [List.cons_append, fieldAfter, if_neg (Ne.symm hne), ih hbefore]

theorem fieldAfter_of_not_mem {name : Str} (h : name ∉ words) : fieldAfter name words = [] := by
  have happend : fieldAfter name (words ++ []) = fieldAfter name [] := fieldAfter_append h
  rw [List.append_nil] at happend
  exact happend

end Lines

section Candidates

variable {routes : List Route} {r : Route} {hop : Hop} {lead more : List Str} {value : Nat}
  {rest : Str}

theorem decimal_short (h : value < 256) : (decimal value).length ≤ 3 := by
  have hall : ∀ value < 256, (decimal value).length ≤ 3 := by decide +kernel
  exact hall value h

theorem fits_octet {number : Str} {q : List Letters} (h : value < 256)
    (hnumber : ∀ r ∈ letters number, r.holds '.' = false) (hlength : number.length = 3) :
    fits (letters number ++ any :: q) (decimal value ++ '.' :: rest) =
      (fitsAll (letters number) (decimal value) && fits q rest) := by
  have hshort : (decimal value).length ≤ (letters number).length := by
    rw [letters, List.length_map, hlength]
    exact decimal_short h
  rw [fits_piece hnumber (Or.inl hshort)]
  rfl

theorem fits_metadata {last : Char} (h : value < 2 ^ 32) (hlast : last = ' ' ∨ last = '/')
    (hfits : fits metadataPattern (ipv4Text value ++ last :: rest) = true) :
    last = ' ' ∧ metadata = .host value := by
  have htext : ipv4Text value ++ last :: rest = decimal (value / 2 ^ 24) ++ '.' ::
      (decimal (value / 2 ^ 16 % 256) ++ '.' :: (decimal (value / 2 ^ 8 % 256) ++ '.' ::
        (decimal (value % 256) ++ last :: rest))) := by
    simp only [ipv4Text, List.map_cons, List.map_nil, joinWith]
    simp
  have hpattern : metadataPattern = letters "169".toList ++ any :: (letters "254".toList ++ any ::
      (letters "169".toList ++ any :: (letters "254".toList ++ one ' ' :: []))) := by
    decide
  have hread : ∀ a < 256, (fitsAll (letters "169".toList) (decimal a) = true → a = 169) ∧
      (fitsAll (letters "254".toList) (decimal a) = true → a = 254) := by
    decide +kernel
  have hend : ∀ r ∈ letters "254".toList, r.holds last = false := by
    rcases hlast with rfl | rfl <;> decide
  rw [htext, hpattern, fits_octet (by omega) (by decide) rfl, fits_octet (by omega) (by decide) rfl,
    fits_octet (by omega) (by decide) rfl, fits_piece hend (Or.inr (not_digit rfl _))] at hfits
  simp only [Bool.and_eq_true] at hfits
  obtain ⟨hfirst, hsecond, hthird, hfourth, hblank, -⟩ := hfits
  have hone := (hread _ (by omega)).1 hfirst
  have htwo := (hread _ (by omega)).2 hsecond
  have hthree := (hread _ (by omega)).1 hthird
  have hfour := (hread _ (by omega)).2 hfourth
  refine ⟨?_, ?_⟩
  · rcases hlast with rfl | rfl
    · rfl
    · exact absurd hblank (by decide)
  · rw [metadata, Dest.host.injEq]
    omega

theorem isField_ipv4Text (value : Nat) : IsField (ipv4Text value) := by
  refine ⟨?_, fun c hc => ?_⟩
  · rw [ipv4Text, List.map_cons, List.map_cons, joinWith_cons_cons]
    simp
  · have hchar := ipv4Text_chars hc
    refine ⟨?_, ?_, ?_⟩ <;>
      · rintro rfl
        exact absurd hchar (by decide)

theorem Dest.isField_word (d : Dest) : IsField d.word := by
  cases d with
  | default => exact ⟨by decide, by simp [Dest.word]⟩
  | host value => exact isField_ipv4Text value
  | net value length =>
    refine ⟨by simp [Dest.word], fun c hc => ?_⟩
    obtain hc | hc := List.mem_append.mp hc
    · exact (isField_ipv4Text value).2 c hc
    · obtain rfl | hc := List.mem_cons.mp hc
      · decide
      · have hdigit : c.isDigit = true := Nat.isDigit_of_mem_toDigits (by decide) (by decide) hc
        refine ⟨?_, ?_, ?_⟩ <;>
          · rintro rfl
            exact absurd hdigit (by decide)

theorem Dest.word_ne (d : Dest) {c : Char} {name : Str} (hdigit : c.isDigit = false)
    (hname : c :: name ≠ "default".toList) : d.word ≠ c :: name := by
  have haddress : ∀ value rest, ipv4Text value ++ rest ≠ c :: name := by
    intro value rest h
    obtain ⟨digit, digits, hdigits⟩ := List.exists_cons_of_ne_nil
      (Nat.toDigits_ne_nil (n := value / 2 ^ 24) (b := 10))
    have hmem : digit ∈ decimal (value / 2 ^ 24) := by
      rw [decimal, hdigits]
      exact List.mem_cons_self
    have hfirst : digit.isDigit = true :=
      Nat.isDigit_of_mem_toDigits (by decide) (by decide) hmem
    have htext : ipv4Text value ++ rest = digit :: (digits ++ '.' ::
        (joinWith ['.'] [decimal (value / 2 ^ 16 % 256), decimal (value / 2 ^ 8 % 256),
          decimal (value % 256)] ++ rest)) := by
      simp only [ipv4Text, List.map_cons, List.map_nil, joinWith]
      rw [decimal, hdigits]
      simp
    rw [htext] at h
    obtain ⟨rfl, -⟩ := List.cons.inj h
    rw [hfirst] at hdigit
    exact Bool.false_ne_true hdigit.symm
  cases d with
  | default => exact hname.symm
  | host value =>
    have h := haddress value []
    rw [List.append_nil] at h
    exact h
  | net value length => exact haddress value _

theorem isCandidate_line (hr : r.Printed) (hsubnet : r.isSubnet = true)
    (hgateway : r.hop.gateway.isSome = true) : isCandidate r.line = true := by
  obtain ⟨gateway, hgateway⟩ := Option.isSome_iff_exists.mp hgateway
  have hkind : r.kind = .unicast := by
    by_contra hkind
    rw [hr.special hkind] at hgateway
    cases hgateway
  obtain ⟨hdefault, hmetadata⟩ := of_decide_eq_true hsubnet
  have hfront : r.front = r.dest.word :: r.lead := by
    rw [Route.front, hkind]
  have hline : r.line = lineOf (r.dest.word :: (r.lead ++ (r.hop.words ++ r.more))) := by
    rw [Route.line, hfront]
    rfl
  have hvia : "via".toList ∈ r.lead ++ (r.hop.words ++ r.more) := by
    refine List.mem_append_right _ (List.mem_append_left _ (List.mem_append_left _ ?_))
    rw [hgateway]
    cases gateway <;> exact List.mem_cons_self
  have hnotDefault : startsWith r.line "default ".toList = false := by
    refine Bool.eq_false_iff.mpr fun hstart => ?_
    obtain ⟨rest, hrest⟩ := startsWith_iff.mp hstart
    have hpieces := congrArg (splitOnChar ' ') hrest
    have hblank : ' ' ∉ r.dest.word := fun hmem => (r.dest.isField_word.2 _ hmem).1 rfl
    have hword : "default ".toList ++ rest = "default".toList ++ ' ' :: rest := by simp
    rw [hword, splitOnChar_append, hline, lineOf_cons, splitOnChar_append,
      splitOnChar_of_not_mem hblank, splitOnChar_of_not_mem (by decide)] at hpieces
    obtain ⟨hdest, -⟩ := List.cons.inj hpieces
    cases hd : r.dest with
    | default => exact hdefault hd
    | host value =>
      rw [hd] at hdest
      have hdot : '.' ∈ ipv4Text value := by
        simp [ipv4Text, joinWith]
      have hin : '.' ∈ "default".toList := hdest ▸ hdot
      exact absurd hin (by decide)
    | net value length =>
      rw [hd] at hdest
      have hslash : '/' ∈ ipv4Text value ++ '/' :: decimal length := by
        simp
      have hin : '/' ∈ "default".toList := hdest ▸ hslash
      exact absurd hin (by decide)
  have hnotMetadata : fits metadataPattern r.line = false := by
    refine Bool.eq_false_iff.mpr fun hfits => ?_
    have hdest := hr.dest
    rw [hline, lineOf_cons] at hfits
    cases hd : r.dest with
    | default => exact hdefault hd
    | host value =>
      rw [hd] at hdest hfits
      exact hmetadata (hd.trans (fits_metadata hdest (Or.inl rfl) hfits).2.symm)
    | net value length =>
      rw [hd] at hdest hfits
      rw [Dest.word, List.append_assoc] at hfits
      exact absurd (fits_metadata hdest.1 (Or.inr rfl) hfits).1 (by decide)
  rw [isCandidate, hnotDefault, hnotMetadata, hline, hasVia_lineOf hvia]
  rfl

theorem isCandidate_nexthop {n : Hop × List Str} (hgateway : n.1.gateway.isSome = true) :
    isCandidate (nexthopLine n) = true := by
  obtain ⟨gateway, hgateway⟩ := Option.isSome_iff_exists.mp hgateway
  have hvia : "via".toList ∈ n.1.words ++ n.2 := by
    refine List.mem_append_left _ (List.mem_append_left _ ?_)
    rw [hgateway]
    cases gateway <;> exact List.mem_cons_self
  have hshown : hasVia (nexthopLine n) = true := by
    refine decide_eq_true (List.IsInfix.trans (between_blanks hvia "nexthop".toList) ?_)
    exact (List.suffix_cons '\t' _).isInfix
  rw [isCandidate, hshown]
  rfl

theorem isCandidate_of_gateway {x : Route × Hop × Str} (hprinted : ∀ r ∈ routes, r.Printed)
    (hx : x ∈ printed routes) (hsubnet : x.1.isSubnet = true)
    (hgateway : x.2.1.gateway.isSome = true) : isCandidate x.2.2 = true := by
  obtain ⟨r, hr, hx⟩ := List.mem_flatMap.mp hx
  obtain rfl | hx := List.mem_cons.mp hx
  · exact isCandidate_line (hprinted r hr) hsubnet hgateway
  · obtain ⟨n, -, rfl⟩ := List.mem_map.mp hx
    exact isCandidate_nexthop hgateway

end Candidates

section WaysOut

variable {routes : List Route} {r : Route} {hop : Hop} {more : List Str} {value : Nat}
  {x : Route × Hop × Str}

theorem Hop.isField_words (h : hop.Printed) : ∀ word ∈ hop.words, IsField word := by
  obtain ⟨hdev, hgateway⟩ := h
  intro word hword
  obtain hword | hword := List.mem_append.mp hword
  · cases hg : hop.gateway with
    | none =>
      rw [hg] at hword
      cases hword
    | some gateway =>
      have hprinted := hgateway gateway hg
      rw [hg] at hword
      cases gateway with
      | v4 value =>
        obtain rfl | hword := List.mem_cons.mp hword
        · exact ⟨by decide, by simp⟩
        · rw [List.mem_singleton.mp hword]
          exact isField_ipv4Text value
      | v6 text =>
        obtain rfl | hword := List.mem_cons.mp hword
        · exact ⟨by decide, by simp⟩
        · obtain rfl | hword := List.mem_cons.mp hword
          · exact ⟨by decide, by simp⟩
          · rw [List.mem_singleton.mp hword]
            exact hprinted.1
  · cases hd : hop.dev with
    | none =>
      rw [hd] at hword
      cases hword
    | some dev =>
      rw [hd] at hword
      obtain rfl | hword := List.mem_cons.mp hword
      · exact ⟨by decide, by simp⟩
      · rw [List.mem_singleton.mp hword]
        exact hdev dev hd

theorem Route.isField_front (hr : r.Printed) :
    ∀ word ∈ r.front, IsField word ∧ word ≠ "via".toList ∧ word ≠ "dev".toList := by
  have hdest : IsField r.dest.word ∧ r.dest.word ≠ "via".toList ∧ r.dest.word ≠ "dev".toList :=
    ⟨r.dest.isField_word, r.dest.word_ne rfl (by decide), r.dest.word_ne rfl (by decide)⟩
  have hwords : ∀ word ∈ r.dest.word :: r.lead,
      IsField word ∧ word ≠ "via".toList ∧ word ≠ "dev".toList :=
    List.forall_mem_cons.mpr ⟨hdest, hr.lead⟩
  rw [Route.front]
  cases r.kind
  · exact hwords
  all_goals exact List.forall_mem_cons.mpr ⟨⟨⟨by decide, by simp⟩, by decide, by decide⟩, hwords⟩

theorem Route.isField_words (hr : r.Printed) :
    ∀ word ∈ r.front ++ (r.hop.words ++ r.more), IsField word := by
  refine List.forall_mem_append.mpr ⟨fun word h => (Route.isField_front hr word h).1, ?_⟩
  exact List.forall_mem_append.mpr ⟨Hop.isField_words hr.hop, fun word h => (hr.more.1 word h).1⟩

theorem fields_printed (hprinted : ∀ r ∈ routes, r.Printed) (hx : x ∈ printed routes) :
    ∃ front more, fields x.2.2 = front ++ (x.2.1.words ++ more) ∧
      (∀ word ∈ front ++ (x.2.1.words ++ more), IsField word) ∧ "via".toList ∉ front ∧
      "dev".toList ∉ front ∧ Behind more ∧ x.2.1.Printed := by
  obtain ⟨r, hr, hx⟩ := List.mem_flatMap.mp hx
  have hshape := hprinted r hr
  obtain rfl | hx := List.mem_cons.mp hx
  · have hfront := Route.isField_front hshape
    have hwords := Route.isField_words hshape
    exact ⟨r.front, r.more, fields_lineOf hwords, hwords, fun h => (hfront _ h).2.1 rfl,
      fun h => (hfront _ h).2.2 rfl, hshape.more, hshape.hop⟩
  · obtain ⟨n, hn, rfl⟩ := List.mem_map.mp hx
    obtain ⟨hhop, hmore⟩ := hshape.nexthops n hn
    have hwords : ∀ word ∈ ["nexthop".toList] ++ (n.1.words ++ n.2), IsField word := by
      refine List.forall_mem_append.mpr ⟨fun word h => ?_, List.forall_mem_append.mpr
        ⟨Hop.isField_words hhop, fun word h => (hmore.1 word h).1⟩⟩
      rw [List.mem_singleton.mp h]
      exact ⟨by decide, by simp⟩
    exact ⟨["nexthop".toList], n.2, (fields_tab _).trans (fields_lineOf hwords), hwords,
      by decide, by decide, hmore, hhop⟩

/-- The word behind `via`. -/
def gatewayWord (line : Str) : Str := fieldAfter "via".toList (fields line)

/-- The word behind `dev`. -/
def deviceWord (line : Str) : Str := fieldAfter "dev".toList (fields line)

theorem fieldAfter_mem {name : Str} {words : List Str} (h : fieldAfter name words ≠ []) :
    fieldAfter name words ∈ words := by
  induction words with
  | nil => exact absurd rfl h
  | cons field rest ih =>
    rw [fieldAfter] at h ⊢
    split_ifs with hfield
    · rw [if_pos hfield] at h
      cases rest with
      | nil => exact absurd rfl h
      | cons next rest => exact List.mem_cons_of_mem _ List.mem_cons_self
    · rw [if_neg hfield] at h
      exact List.mem_cons_of_mem _ (ih h)

theorem isField_after {name : Str} (hprinted : ∀ r ∈ routes, r.Printed) (hx : x ∈ printed routes)
    (h : fieldAfter name (fields x.2.2) ≠ []) : IsField (fieldAfter name (fields x.2.2)) := by
  obtain ⟨front, more, hfields, hwords, -⟩ := fields_printed hprinted hx
  have hmem := fieldAfter_mem h
  rw [hfields] at hmem ⊢
  exact hwords _ hmem

theorem words_v4 (hprinted : ∀ r ∈ routes, r.Printed) (hx : x ∈ printed routes)
    (hgateway : x.2.1.gateway = some (.v4 value)) :
    gatewayWord x.2.2 = ipv4Text value ∧ deviceWord x.2.2 = x.2.1.dev.getD [] := by
  obtain ⟨front, more, hfields, -, hvia, hdev, hmore, -⟩ := fields_printed hprinted hx
  rw [gatewayWord, deviceWord, hfields, fieldAfter_append hvia, fieldAfter_append hdev, Hop.words,
    hgateway]
  refine ⟨rfl, ?_⟩
  have haddress : ipv4Text value ≠ "dev".toList := (Dest.host value).word_ne rfl (by decide)
  show fieldAfter "dev".toList ("via".toList :: ipv4Text value :: (_ ++ more)) = _
  rw [fieldAfter, if_neg (by decide), fieldAfter, if_neg haddress]
  cases x.2.1.dev with
  | none => exact fieldAfter_of_not_mem fun h => (hmore.1 _ h).2.2 rfl
  | some dev => rfl

theorem gateway_of_word (hprinted : ∀ r ∈ routes, r.Printed) (hx : x ∈ printed routes)
    (hvalue : ipv4Value (gatewayWord x.2.2) = some value) :
    x.2.1.gateway = some (.v4 value) := by
  obtain ⟨front, more, hfields, -, hvia, -, hmore, -, hgateway⟩ := fields_printed hprinted hx
  have hnothing : ipv4Value [] = none := by decide
  have hempty : ipv4Value [] ≠ some value := fun h =>
    absurd (hnothing.symm.trans h) (Option.some_ne_none _).symm
  rw [gatewayWord, hfields, fieldAfter_append hvia, Hop.words] at hvalue
  cases hg : x.2.1.gateway with
  | none =>
    have hbehind : fieldAfter "via".toList more = [] :=
      fieldAfter_of_not_mem fun h => (hmore.1 _ h).2.1 rfl
    rw [hg] at hvalue
    cases hd : x.2.1.dev with
    | none =>
      rw [hd] at hvalue
      change ipv4Value (fieldAfter "via".toList more) = some value at hvalue
      rw [hbehind] at hvalue
      exact absurd hvalue hempty
    | some dev =>
      rw [hd] at hvalue
      change ipv4Value (fieldAfter "via".toList ("dev".toList :: dev :: more)) = _ at hvalue
      rw [fieldAfter, if_neg (by decide), fieldAfter] at hvalue
      -- a device that is called `via`
      split_ifs at hvalue
      · cases hhead : more with
        | nil =>
          rw [hhead] at hvalue
          exact absurd hvalue hempty
        | cons word others =>
          have hnone := hmore.2 word (by rw [hhead]; rfl)
          rw [hhead, List.headD_cons, hnone] at hvalue
          cases hvalue
      · rw [hbehind] at hvalue
        exact absurd hvalue hempty
  | some gateway =>
    rw [hg] at hvalue
    have hshape := hgateway gateway hg
    cases gateway with
    | v4 other =>
      have hread : ipv4Value (ipv4Text other) = some value := hvalue
      rw [ipv4Value_ipv4Text hshape] at hread
      rw [Option.some.inj hread]
    | v6 text =>
      have hnone : ipv4Value "inet6".toList = none := by decide
      exact absurd (hnone.symm.trans hvalue) (Option.some_ne_none _).symm

end WaysOut

end SharedInfra.HostEgress
