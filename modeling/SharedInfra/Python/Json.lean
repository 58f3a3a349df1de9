import SharedInfra.Python.Text

/-!
# JSON values

What `json.load` makes of a document.  An object keeps its members in the order
of the text; of members with one name the last counts, as it does in the `dict`
Python builds (`member`).
-/

namespace SharedInfra.Python

inductive Json where
  | null
  | bool (value : Bool)
  | number (literal : Str)
  | string (text : Str)
  | array (items : List Json)
  | object (members : List (Str × Json))

namespace Json

/-- `members.get(name)` of the `dict` built from the members. -/
def member (members : List (Str × Json)) (name : Str) : Option Json :=
  (members.reverse.find? (·.1 == name)).map (·.2)

end Json

/-!
# The text of a JSON string

How `json.dumps` writes a text, every character beyond printable ASCII as an escape of 16-bit
units.  Two texts with one spelling are one (`jsonString_cancel`).
-/

/-- Four lower-case hexadecimal digits. -/
def hex4 (n : Nat) : Str :=
  [n / 4096 % 16, n / 256 % 16, n / 16 % 16, n % 16].map Nat.digitChar

/-- `\uXXXX`. -/
def unitEscape (n : Nat) : Str := '\\' :: 'u' :: hex4 n

def shortEscape (c : Char) : Option Char :=
  if c = '"' then some '"' else if c = '\\' then some '\\' else if c = '\n' then some 'n'
  else if c = '\r' then some 'r' else if c = '\t' then some 't'
  else if c.toNat = 8 then some 'b' else if c.toNat = 12 then some 'f' else none

/-- One character of a JSON string. -/
def jsonEscape (c : Char) : Str :=
  match shortEscape c with
  | some letter => ['\\', letter]
  | none =>
    if 32 ≤ c.toNat ∧ c.toNat ≤ 126 then [c]
    else if c.toNat < 0x10000 then unitEscape c.toNat
    else unitEscape (0xd800 + (c.toNat - 0x10000) / 0x400) ++
      unitEscape (0xdc00 + (c.toNat - 0x10000) % 0x400)

/-- `json.dumps` of a text. -/
def jsonString (s : Str) : Str := '"' :: s.flatMap jsonEscape ++ ['"']

section Unique

variable {c d : Char} {s t x y : Str}

theorem digitChar_inj {m n : Nat} (hm : m < 16) (hn : n < 16) (h : m.digitChar = n.digitChar) :
    m = n := by
  have hall : ∀ m < 16, ∀ n < 16, m.digitChar = n.digitChar → m = n := by decide
  exact hall m hm n hn h

theorem unitEscape_cancel {m n : Nat} (hm : m < 65536) (hn : n < 65536)
    (h : unitEscape m ++ x = unitEscape n ++ y) : m = n ∧ x = y := by
  simp only [unitEscape, hex4, List.map_cons, List.map_nil, List.cons_append, List.nil_append,
    List.cons.injEq, true_and] at h
  obtain ⟨h1, h2, h3, h4, rfl⟩ := h
  have h1 := digitChar_inj (Nat.mod_lt _ (by decide)) (Nat.mod_lt _ (by decide)) h1
  have h2 := digitChar_inj (Nat.mod_lt _ (by decide)) (Nat.mod_lt _ (by decide)) h2
  have h3 := digitChar_inj (Nat.mod_lt _ (by decide)) (Nat.mod_lt _ (by decide)) h3
  have h4 := digitChar_inj (Nat.mod_lt _ (by decide)) (Nat.mod_lt _ (by decide)) h4
  exact ⟨by omega, rfl⟩

/-- The number of the character that a letter stands for. -/
def escapeCode (letter : Char) : Nat :=
  if letter = '"' then 34 else if letter = '\\' then 92 else if letter = 'n' then 10
  else if letter = 'r' then 13 else if letter = 't' then 9 else if letter = 'b' then 8 else 12

theorem toNat_of_shortEscape {letter : Char} (h : shortEscape c = some letter) :
    c.toNat = escapeCode letter ∧ letter ≠ 'u' := by
  unfold shortEscape at h
  split_ifs at h with h1 h2 h3 h4 h5 h6 h7 <;> obtain rfl := Option.some.inj h
  · exact ⟨congrArg Char.toNat h1, by decide⟩
  · exact ⟨congrArg Char.toNat h2, by decide⟩
  · exact ⟨congrArg Char.toNat h3, by decide⟩
  · exact ⟨congrArg Char.toNat h4, by decide⟩
  · exact ⟨congrArg Char.toNat h5, by decide⟩
  · exact ⟨h6, by decide⟩
  · exact ⟨h7, by decide⟩

theorem ne_of_shortEscape_none (h : shortEscape c = none) : c ≠ '\\' ∧ c ≠ '"' := by
  refine ⟨?_, ?_⟩ <;> rintro rfl <;> cases h

/-- The ways a character is written: with a letter, as it is, as its unit, as two surrogates. -/
inductive Escaped (c : Char) : Str → Prop
  | short {letter : Char} (hcode : c.toNat = escapeCode letter) (hletter : letter ≠ 'u') :
      Escaped c ['\\', letter]
  | plain (hbackslash : c ≠ '\\') (hquote : c ≠ '"') : Escaped c [c]
  | unit (hlt : c.toNat < 0x10000) : Escaped c (unitEscape c.toNat)
  | pair (hle : 0x10000 ≤ c.toNat) :
      Escaped c (unitEscape (0xd800 + (c.toNat - 0x10000) / 0x400) ++
        unitEscape (0xdc00 + (c.toNat - 0x10000) % 0x400))

theorem escaped_jsonEscape (c : Char) : Escaped c (jsonEscape c) := by
  rw [jsonEscape]
  cases hshort : shortEscape c with
  | some letter =>
    obtain ⟨hcode, hletter⟩ := toNat_of_shortEscape hshort
    exact .short hcode hletter
  | none =>
    obtain ⟨hbackslash, hquote⟩ := ne_of_shortEscape_none hshort
    simp only
    split_ifs with hplain hunit
    · exact .plain hbackslash hquote
    · exact .unit hunit
    · exact .pair (Nat.le_of_not_lt hunit)

theorem char_eq_of_toNat (h : c.toNat = d.toNat) : c = d := by
  rw [← Char.ofNat_toNat c, h, Char.ofNat_toNat]

theorem not_surrogate (c : Char) : c.toNat < 0xd800 ∨ 0xe000 ≤ c.toNat := by
  rcases c.valid with h | h
  · exact Or.inl h
  · exact Or.inr (Nat.succ_le_of_lt h.1)

theorem toNat_lt (c : Char) : c.toNat < 0x110000 := by
  rcases c.valid with h | h
  · exact Nat.lt_trans h (by decide)
  · exact h.2

theorem escaped_cancel {u v : Str} (hu : Escaped c u) (hv : Escaped d v) (h : u ++ x = v ++ y) :
    c = d ∧ x = y := by
  have hc := toNat_lt c
  have hd := toNat_lt d
  cases hu with
  | short hcode hletter =>
    cases hv with
    | short hcode' hletter' =>
      simp only [List.cons_append, List.nil_append, List.cons.injEq, true_and] at h
      obtain ⟨rfl, rfl⟩ := h
      exact ⟨char_eq_of_toNat (hcode.trans hcode'.symm), rfl⟩
    | plain hbackslash _ => exact absurd (List.cons.inj h).1.symm hbackslash
    | unit _ => exact absurd (List.cons.inj (List.cons.inj h).2).1 hletter
    | pair _ => exact absurd (List.cons.inj (List.cons.inj h).2).1 hletter
  | plain hbackslash _ =>
    cases hv with
    | short _ _ => exact absurd (List.cons.inj h).1 hbackslash
    | plain _ _ => exact ⟨(List.cons.inj h).1, (List.cons.inj h).2⟩
    | unit _ => exact absurd (List.cons.inj h).1 hbackslash
    | pair _ => exact absurd (List.cons.inj h).1 hbackslash
  | unit hlt =>
    cases hv with
    | short _ hletter => exact absurd (List.cons.inj (List.cons.inj h).2).1.symm hletter
    | plain hbackslash _ => exact absurd (List.cons.inj h).1.symm hbackslash
    | unit hlt' =>
      obtain ⟨hnat, rfl⟩ := unitEscape_cancel hlt hlt' h
      exact ⟨char_eq_of_toNat hnat, rfl⟩
    | pair hle =>
      rw [List.append_assoc] at h
      obtain ⟨hnat, -⟩ := unitEscape_cancel hlt (by omega) h
      have := not_surrogate c
      omega
  | pair hle =>
    cases hv with
    | short _ hletter => exact absurd (List.cons.inj (List.cons.inj h).2).1.symm hletter
    | plain hbackslash _ => exact absurd (List.cons.inj h).1.symm hbackslash
    | unit hlt' =>
      rw [List.append_assoc] at h
      obtain ⟨hnat, -⟩ := unitEscape_cancel (by omega) hlt' h
      have := not_surrogate d
      omega
    | pair hle' =>
      rw [List.append_assoc, List.append_assoc] at h
      obtain ⟨hhigh, h⟩ := unitEscape_cancel (by omega) (by omega) h
      obtain ⟨hlow, rfl⟩ := unitEscape_cancel (by omega) (by omega) h
      exact ⟨char_eq_of_toNat (by omega), rfl⟩

theorem escaped_ne_quote {u : Str} (h : Escaped c u) : u ++ x ≠ '"' :: y := by
  intro heq
  cases h with
  | short _ _ => exact absurd (List.cons.inj heq).1 (by decide)
  | plain _ hquote => exact absurd (List.cons.inj heq).1 hquote
  | unit _ => exact absurd (List.cons.inj heq).1 (by decide)
  | pair _ => exact absurd (List.cons.inj heq).1 (by decide)

theorem jsonString_cancel (h : jsonString s ++ x = jsonString t ++ y) : s = t ∧ x = y := by
  simp only [jsonString, List.cons_append, List.cons.injEq, true_and, List.append_assoc,
    List.nil_append] at h
  induction s generalizing t with
  | nil =>
    cases t with
    | nil => exact ⟨rfl, (List.cons.inj h).2⟩
    | cons d t =>
      rw [List.flatMap_cons, List.append_assoc] at h
      exact absurd h.symm (escaped_ne_quote (escaped_jsonEscape d))
  | cons c s ih =>
    cases t with
    | nil =>
      rw [List.flatMap_cons, List.append_assoc] at h
      exact absurd h (escaped_ne_quote (escaped_jsonEscape c))
    | cons d t =>
      rw [List.flatMap_cons, List.flatMap_cons, List.append_assoc, List.append_assoc] at h
      obtain ⟨rfl, hrest⟩ := escaped_cancel (escaped_jsonEscape c) (escaped_jsonEscape d) h
      obtain ⟨rfl, rfl⟩ := ih hrest
      exact ⟨rfl, rfl⟩

end Unique

end SharedInfra.Python
