import SharedInfra.Python.Base64
import SharedInfra.Dns.ZoneCheck
import SharedInfra.Python.IpRoundTrip
import SharedInfra.Python.Words

/-!
# DNS messages

The wire format of a name (`NameAt`), of a run of questions (`QuestionsAt`) and of a run
of resource records (`RecordsAt`), as relations between an offset, what stands there and
the offset behind it.  A name may follow compression pointers; how many of them a reader
accepts is a parameter.  What stands at an offset is determined by the message.
-/

namespace SharedInfra
namespace Dns

open Python

def wordOf (m : Bytes) (offset : Nat) : Nat :=
  (m.getD offset 0).toNat * 256 + (m.getD (offset + 1) 0).toNat

/-- A name: where it starts, how many pointers it follows, its labels and what is behind it. -/
inductive NameAt (m : Bytes) : Nat → Nat → List Bytes → Nat → Prop where
  | root {offset : Nat} (hbyte : m[offset]? = some 0) : NameAt m offset 0 [] (offset + 1)
  | label {offset jumps next : Nat} {length : UInt8} {labels : List Bytes}
      (hbyte : m[offset]? = some length) (hpos : length.toNat ≠ 0) (hshort : length.toNat < 64)
      (hfits : offset + 1 + length.toNat ≤ m.length)
      (hrest : NameAt m (offset + 1 + length.toNat) jumps labels next) :
      NameAt m offset jumps ((m.drop (offset + 1)).take length.toNat :: labels) next
  | pointer {offset jumps next : Nat} {high low : UInt8} {labels : List Bytes}
      (hhigh : m[offset]? = some high) (hpointer : 192 ≤ high.toNat)
      (hlow : m[offset + 1]? = some low)
      (htarget : NameAt m ((high.toNat - 192) * 256 + low.toNat) jumps labels next) :
      NameAt m offset (jumps + 1) labels (offset + 2)

structure ResourceRecord where
  type : Nat
  «class» : Nat
  data : Bytes

section Names

variable {m : Bytes} {offset jumps jumps' next next' : Nat} {labels labels' : List Bytes}

theorem NameAt.unique (h : NameAt m offset jumps labels next)
    (h' : NameAt m offset jumps' labels' next') :
    jumps = jumps' ∧ labels = labels' ∧ next = next' := by
  induction h generalizing jumps' labels' next' with
  | root hbyte =>
    cases h' with
    | root => exact ⟨rfl, rfl, rfl⟩
    | label hbyte' hpos =>
      cases hbyte.symm.trans hbyte'
      exact absurd rfl hpos
    | pointer hhigh hpointer =>
      cases hbyte.symm.trans hhigh
      exact absurd hpointer (by decide)
  | label hbyte hpos hshort hfits hrest ih =>
    cases h' with
    | root hbyte' =>
      cases hbyte.symm.trans hbyte'
      exact absurd rfl hpos
    | label hbyte' _ _ _ hrest' =>
      cases hbyte.symm.trans hbyte'
      obtain ⟨rfl, rfl, rfl⟩ := ih hrest'
      exact ⟨rfl, rfl, rfl⟩
    | pointer hhigh hpointer =>
      cases hbyte.symm.trans hhigh
      omega
  | pointer hhigh hpointer hlow htarget ih =>
    cases h' with
    | root hbyte' =>
      cases hhigh.symm.trans hbyte'
      exact absurd hpointer (by decide)
    | label hbyte' _ hshort =>
      cases hhigh.symm.trans hbyte'
      omega
    | pointer hhigh' _ hlow' htarget' =>
      cases hhigh.symm.trans hhigh'
      cases hlow.symm.trans hlow'
      obtain ⟨rfl, rfl, -⟩ := ih htarget'
      exact ⟨rfl, rfl, rfl⟩

theorem not_nameAt_end (h : m.length ≤ offset) : ¬ NameAt m offset jumps labels next := by
  have hnone : m[offset]? = none := List.getElem?_eq_none h
  rintro (hbyte | hbyte | hbyte) <;> cases hnone.symm.trans hbyte

variable {b : UInt8}

theorem nameAt_root_iff (h : m[offset]? = some b) (hzero : b.toNat = 0) :
    NameAt m offset jumps labels next ↔ jumps = 0 ∧ labels = [] ∧ next = offset + 1 := by
  have hb : b = 0 := UInt8.toNat_inj.mp hzero
  subst hb
  constructor
  · intro hname
    obtain ⟨rfl, rfl, rfl⟩ := hname.unique (.root h)
    exact ⟨rfl, rfl, rfl⟩
  · rintro ⟨rfl, rfl, rfl⟩
    exact .root h

theorem nameAt_label_iff (h : m[offset]? = some b) (hpos : b.toNat ≠ 0) (hshort : b.toNat < 64) :
    NameAt m offset jumps labels next ↔ offset + 1 + b.toNat ≤ m.length ∧
      ∃ rest, labels = (m.drop (offset + 1)).take b.toNat :: rest ∧
        NameAt m (offset + 1 + b.toNat) jumps rest next := by
  constructor
  · intro hname
    cases hname with
    | root hbyte =>
      cases h.symm.trans hbyte
      exact absurd rfl hpos
    | label hbyte _ _ hfits hrest =>
      cases h.symm.trans hbyte
      exact ⟨hfits, _, rfl, hrest⟩
    | pointer hhigh hpointer =>
      cases h.symm.trans hhigh
      omega
  · rintro ⟨hfits, rest, rfl, hrest⟩
    exact .label h hpos hshort hfits hrest

theorem not_nameAt_reserved (h : m[offset]? = some b) (hlow : 64 ≤ b.toNat)
    (hhigh : b.toNat < 192) : ¬ NameAt m offset jumps labels next := by
  intro hname
  cases hname with
  | root hbyte =>
    cases h.symm.trans hbyte
    exact absurd hlow (by decide)
  | label hbyte _ hshort =>
    cases h.symm.trans hbyte
    omega
  | pointer hbyte hpointer =>
    cases h.symm.trans hbyte
    omega

theorem nameAt_pointer_iff (h : m[offset]? = some b) (hpointer : 192 ≤ b.toNat) :
    NameAt m offset jumps labels next ↔ ∃ low jumps' next', m[offset + 1]? = some low ∧
      jumps = jumps' + 1 ∧ next = offset + 2 ∧
        NameAt m ((b.toNat - 192) * 256 + low.toNat) jumps' labels next' := by
  constructor
  · intro hname
    cases hname with
    | root hbyte =>
      cases h.symm.trans hbyte
      exact absurd hpointer (by decide)
    | label hbyte _ hshort =>
      cases h.symm.trans hbyte
      omega
    | pointer hhigh _ hlow htarget =>
      cases h.symm.trans hhigh
      exact ⟨_, _, _, hlow, rfl, rfl, htarget⟩
  · rintro ⟨low, jumps', next', hlow, rfl, rfl, htarget⟩
    exact .pointer h hpointer hlow htarget

theorem NameAt.ne_nil_of_mem (h : NameAt m offset jumps labels next) :
    ∀ label ∈ labels, label ≠ [] := by
  induction h with
  | root => nofun
  | @label offset jumps next length labels hbyte hpos hshort hfits hrest ih =>
    refine List.forall_mem_cons.mpr ⟨fun hnil => ?_, ih⟩
    have hlength := congrArg List.length hnil
    rw [List.length_take, List.length_drop, List.length_nil] at hlength
    omega
  | pointer _ _ _ _ ih => exact ih

end Names

section Sections

variable (m : Bytes) (allowed : Nat → Prop)

/-- Names with four bytes behind each of them, which need not be part of the message. -/
inductive QuestionsAt : Nat → Nat → List (List Bytes) → Nat → Prop where
  | nil {offset : Nat} : QuestionsAt offset 0 [] offset
  | cons {offset jumps count next behind : Nat} {labels : List Bytes} {names : List (List Bytes)}
      (hname : NameAt m offset jumps labels behind) (hjumps : allowed jumps)
      (hrest : QuestionsAt (behind + 4) count names next) :
      QuestionsAt offset (count + 1) (labels :: names) next

/-- Resource records that lie within the message. -/
inductive RecordsAt : Nat → Nat → List ResourceRecord → Nat → Prop where
  | nil {offset : Nat} : RecordsAt offset 0 [] offset
  | cons {offset jumps count next behind : Nat} {labels : List Bytes}
      {records : List ResourceRecord} (hname : NameAt m offset jumps labels behind)
      (hjumps : allowed jumps) (hheader : behind + 10 ≤ m.length)
      (hdata : behind + 10 + wordOf m (behind + 8) ≤ m.length)
      (hrest : RecordsAt (behind + 10 + wordOf m (behind + 8)) count records next) :
      RecordsAt offset (count + 1)
        (⟨wordOf m behind, wordOf m (behind + 2),
          (m.drop (behind + 10)).take (wordOf m (behind + 8))⟩ :: records) next

variable {m} {allowed allowed' : Nat → Prop} {offset count next next' : Nat}
  {records records' : List ResourceRecord}

theorem RecordsAt.unique (h : RecordsAt m allowed offset count records next)
    (h' : RecordsAt m allowed' offset count records' next') :
    records = records' ∧ next = next' := by
  induction h generalizing records' next' with
  | nil =>
    cases h'
    exact ⟨rfl, rfl⟩
  | cons hname _ _ _ _ ih =>
    cases h' with
    | cons hname' _ _ _ hrest' =>
      obtain ⟨-, -, rfl⟩ := hname.unique hname'
      obtain ⟨rfl, rfl⟩ := ih hrest'
      exact ⟨rfl, rfl⟩

end Sections

end Dns
end SharedInfra

/-!
# What the value of a record stands for

The record data of a value in presentation form, for the types that are probed: names
without case and with their final dot, hexadecimal fields without case and breaks, addresses
and numbers by value, and character-strings as they are written.  A service binding is also
read in the generic form that an older dig prints.
-/

namespace SharedInfra
namespace Dns
namespace ZoneCheck

open Python

/-- The fields of a value: a blank ends one outside quotes, unless a backslash stands before
the blank. -/
def splitTokens (quoted escaped : Bool) : Str → List Str
  | [] => []
  | c :: rest =>
    if isSpace c && !quoted && !escaped then splitTokens false false rest
    else
      let quoted := if c == '"' && !escaped then !quoted else quoted
      let escaped := c == '\\' && !escaped
      match rest with
      | [] => [[c]]
      | d :: _ =>
        if isSpace d && !quoted && !escaped then [c] :: splitTokens quoted escaped rest
        else consLine c (splitTokens quoted escaped rest)

def tokensOf (text : Str) : List Str := splitTokens false false (strip text)

example : tokensOf " 0 issue \"ca.example;  a=1\" ".toList =
    ["0".toList, "issue".toList, "\"ca.example;  a=1\"".toList] := by
  decide

inductive RecordData where
  | address (value : Nat)
  | strings (texts : List Str)
  | named (numbers : List Nat) (target : Str)
  | property (flags : Nat) (tag value : Str)
  | association (numbers : List Nat) (digits : Str)
  | service (wire : List Nat)
deriving DecidableEq

/-- Letters of ASCII and no blank. -/
def isPlain (s : Str) : Bool := s.all fun c => decide (c.toNat < 128) && !isSpace c

def isHex (s : Str) : Bool := s.all fun c => (hexDigit c).isSome

/-- A name without case, with its final dot. -/
def nameData (name : Str) : Str :=
  (if endsWith name ['.'] then name else name ++ ['.']).map Char.toLower

/-- An address, which has neither a prefix length nor a scope. -/
def addressData (value : Str → Option Nat) (text : Str) : Option RecordData :=
  if text.contains '/' || text.contains '%' then none else (value text).map .address

/-- So many numbers and a name. -/
def namedData (count : Nat) (tokens : List Str) : Option RecordData :=
  match tokens.drop count with
  | [target] =>
    if (tokens.take count).all isAsciiDigits && isPlain target then
      some (.named ((tokens.take count).map decimalValue) (nameData target))
    else none
  | _ => none

/-- The flags, the tag and the value of a `CAA` record. -/
def propertyData (tokens : List Str) : Option RecordData :=
  match tokens with
  | [flags, tag, value] =>
    if isAsciiDigits flags && isPlain tag then
      some (.property (decimalValue flags) (tag.map Char.toLower) value)
    else none
  | _ => none

/-- Three numbers and the hexadecimal digits of a `TLSA` record. -/
def associationData (tokens : List Str) : Option RecordData :=
  if (tokens.take 3).all isAsciiDigits && !(tokens.drop 3).isEmpty && (tokens.drop 3).all isHex then
    some (.association ((tokens.take 3).map decimalValue)
      ((tokens.drop 3).flatten.map Char.toLower))
  else none

/-- The octets that pairs of hexadecimal digits stand for. -/
def octetsOf : Str → List Nat
  | high :: low :: rest =>
    ((hexDigit high).getD 0 * 16 + (hexDigit low).getD 0) :: octetsOf rest
  | _ => []

def nameOctets (name : Str) : List Nat :=
  ((splitOnChar '.' (nameData name)).filter (· ≠ [])).flatMap
    (fun label => label.length :: label.map Char.toNat) ++ [0]

/-- The octets of a name and what follows it, with the letters of the name lowered; `left` is
what is left of a label. -/
def lowerOctets : Nat → List Nat → List Nat
  | _, [] => []
  | 0, n :: rest => if n = 0 then n :: rest else n :: lowerOctets n rest
  | left + 1, n :: rest => (Char.ofNat n).toLower.toNat :: lowerOctets left rest

/-- A service binding: its priority, its target and its parameters, or all octets of them in
hexadecimal digits.  Which octets the parameters stand for is not of this repository. -/
def serviceData (paramOctets : List Str → List Nat) (tokens : List Str) : Option RecordData :=
  match tokens with
  | first :: second :: rest =>
    if first = ['\\', '#'] then
      if isAsciiDigits second && rest.all isHex &&
          decide (rest.flatten.length = 2 * decimalValue second) then
        let octets := octetsOf rest.flatten
        some (.service (octets.take 2 ++ lowerOctets 0 (octets.drop 2)))
      else none
    else if isAsciiDigits first && decide (decimalValue first < 65536) && isPlain second then
      some (.service (decimalValue first / 256 :: decimalValue first % 256 ::
        (nameOctets second ++ paramOctets rest)))
    else none
  | _ => none

/-- How many numbers stand before the name of a value. -/
def leadingNumbers (rtype : Str) : Nat :=
  if rtype = "MX".toList then 1 else if rtype = "SRV".toList then 3 else 0

/-- The data that a value of a type stands for. -/
def recordData (paramOctets : List Str → List Nat) (rtype text : Str) : Option RecordData :=
  if rtype = "TXT".toList then
    if tokensOf text = [] then none else some (.strings (tokensOf text))
  else if rtype = "AAAA".toList then addressData ipv6Value (strip text)
  else if rtype = "A".toList then addressData ipv4Value (strip text)
  else if rtype = "CAA".toList then propertyData (tokensOf text)
  else if rtype = "TLSA".toList then associationData (tokensOf text)
  else if rtype = "HTTPS".toList ∨ rtype = "SVCB".toList then
    serviceData paramOctets (tokensOf text)
  else namedData (leadingNumbers rtype) (tokensOf text)

theorem splitTokens_head {quoted escaped : Bool} {c : Char} {rest : Str}
    (h : (isSpace c && !quoted && !escaped) = false) :
    ∃ token tokens, splitTokens quoted escaped (c :: rest) = (c :: token) :: tokens := by
  rw [splitTokens, h, if_neg Bool.false_ne_true]
  cases rest with
  | nil => exact ⟨[], [], rfl⟩
  | cons d rest =>
    generalize (if c == '"' && !escaped then !quoted else quoted) = quoted'
    generalize (c == '\\' && !escaped) = escaped'
    dsimp only
    split_ifs
    · exact ⟨[], _, rfl⟩
    · cases splitTokens quoted' escaped' (d :: rest) with
      | nil => exact ⟨[], [], rfl⟩
      | cons token tokens => exact ⟨token, tokens, rfl⟩

theorem ne_nil_of_mem_splitTokens {quoted escaped : Bool} {s token : Str}
    (h : token ∈ splitTokens quoted escaped s) : token ≠ [] := by
  induction s generalizing quoted escaped token with
  | nil => cases h
  | cons c rest ih =>
    rw [splitTokens] at h
    by_cases hskip : (isSpace c && !quoted && !escaped) = true
    · rw [if_pos hskip] at h
      exact ih h
    · rw [if_neg hskip] at h
      cases rest with
      | nil =>
        rw [List.mem_singleton.mp h]
        exact List.cons_ne_nil _ _
      | cons d rest =>
        generalize (if c == '"' && !escaped then !quoted else quoted) = quoted' at h
        generalize (c == '\\' && !escaped) = escaped' at h
        dsimp only at h
        split_ifs at h
        · obtain rfl | h := List.mem_cons.mp h
          · exact List.cons_ne_nil _ _
          · exact ih h
        · cases htokens : splitTokens quoted' escaped' (d :: rest) with
          | nil =>
            rw [htokens] at h
            rw [List.mem_singleton.mp h]
            exact List.cons_ne_nil _ _
          | cons first tokens =>
            rw [htokens] at h
            obtain rfl | h := List.mem_cons.mp h
            · exact List.cons_ne_nil _ _
            · exact ih (htokens ▸ List.mem_cons_of_mem _ h)

theorem splitWords_eq_flatMap (quoted escaped : Bool) (s : Str) :
    splitWords s = (splitTokens quoted escaped s).flatMap splitWords := by
  induction s generalizing quoted escaped with
  | nil => rfl
  | cons c rest ih =>
    by_cases hskip : (isSpace c && !quoted && !escaped) = true
    · have hc : isSpace c = true := by
        rw [Bool.and_assoc, Bool.and_eq_true] at hskip
        exact hskip.1
      rw [splitTokens, if_pos hskip, splitWords_cons_space hc]
      exact ih false false
    · rw [splitTokens, if_neg hskip]
      cases rest with
      | nil => exact (List.append_nil _).symm
      | cons d rest =>
        generalize (if c == '"' && !escaped then !quoted else quoted) = quoted'
        generalize (c == '\\' && !escaped) = escaped'
        dsimp only
        by_cases hend : (isSpace d && !quoted' && !escaped') = true
        · have hd : isSpace d = true := by
            rw [Bool.and_assoc, Bool.and_eq_true] at hend
            exact hend.1
          rw [if_pos hend, List.flatMap_cons, ← ih quoted' escaped']
          by_cases hc : isSpace c = true
          · rw [splitWords_cons_space hc, splitWords_cons_space hc]
            rfl
          · have hfalse : isSpace c = false := Bool.eq_false_iff.mpr hc
            rw [splitWords_cons_cons hfalse, if_pos hd, splitWords_singleton hfalse]
            rfl
        · rw [if_neg hend]
          obtain ⟨token, tokens, htokens⟩ : ∃ token tokens,
              splitTokens quoted' escaped' (d :: rest) = (d :: token) :: tokens :=
            splitTokens_head (Bool.eq_false_iff.mpr hend)
          have hwords := ih quoted' escaped'
          rw [htokens, List.flatMap_cons] at hwords
          rw [htokens, consLine, List.flatMap_cons]
          exact splitWords_cons_append hwords

theorem ne_nil_of_mem_tokensOf {text token : Str} (h : token ∈ tokensOf text) : token ≠ [] :=
  ne_nil_of_mem_splitTokens h

theorem splitWords_strip_eq (text : Str) :
    splitWords (strip text) = (tokensOf text).flatMap splitWords :=
  splitWords_eq_flatMap false false (strip text)

end ZoneCheck
end Dns
end SharedInfra
