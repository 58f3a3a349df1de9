import SharedInfra.Python.Integers
import SharedInfra.Python.IpText

/-!
# Address literals in a text

The three patterns by which `check-address-plan-drift.py` finds addresses and ranges in a text, and
the search for all their matches, each behind the end of the one before.  What a pattern matches is
read off the text alone (`literalAt_eq_some_iff`), so a literal that takes the place of another one
is found where that one was (`mem_spans_replace`).
-/

namespace SharedInfra.AddressPlan

open Python

/-- `\w` of one character. -/
structure WordTable where
  isWord : Char → Bool
  isWord_ascii : ∀ c, c.toNat < 128 → isWord c = (c.isAlphanum || c == '_')
  isWord_decimal : ∀ c, isDecimal c = true → isWord c = true

section Matching

/-- The three patterns: a range, an address without a slash behind it, an address with `/32`. -/
inductive Shape where
  | cidr
  | bare
  | host
deriving DecidableEq

/-- `\d{1,3}`, where no digit may follow. -/
def octetAt (s : Str) : Option (Str × Str) :=
  let digits := s.takeWhile isDecimal
  if 1 ≤ digits.length ∧ digits.length ≤ 3 then some (digits, s.dropWhile isDecimal) else none

/-- `(?:\.\d{1,3})`, some times. -/
def dottedAt : Nat → Str → Option (Str × Str)
  | 0, s => some ([], s)
  | n + 1, '.' :: s =>
    (octetAt s).bind fun (octet, rest) =>
      (dottedAt n rest).map fun (more, rest) => ('.' :: octet ++ more, rest)
  | _ + 1, _ => none

def quadAt (s : Str) : Option (Str × Str) :=
  (octetAt s).bind fun (octet, rest) =>
    (dottedAt 3 rest).map fun (more, rest) => (octet ++ more, rest)

variable (words : WordTable)

/-- `\b` behind a digit. -/
def endsWord (rest : Str) : Bool := !rest.head?.any words.isWord

/-- What follows the four numbers. -/
def tailAt : Shape → Str → Option (Str × Str)
  | .bare, rest => if endsWord words rest ∧ rest.head? ≠ some '/' then some ([], rest) else none
  | .cidr, '/' :: rest =>
    let digits := rest.takeWhile isDecimal
    let after := rest.dropWhile isDecimal
    if 1 ≤ digits.length ∧ digits.length ≤ 2 ∧ endsWord words after then
      some ('/' :: digits, after)
    else none
  | .host, '/' :: '3' :: '2' :: rest =>
    if endsWord words rest then some ("/32".toList, rest) else none
  | _, _ => none

def literalAt (shape : Shape) (s : Str) : Option (Str × Str) :=
  (quadAt s).bind fun (quad, rest) =>
    (tailAt words shape rest).map fun (tail, rest) => (quad ++ tail, rest)

/-- The matches in a text with their places: behind a character, a number of them passed over. -/
def spans (shape : Shape) : Option Char → Nat → Nat → Str → List (Nat × Str)
  | _, _, _, [] => []
  | _, skip + 1, place, c :: rest => spans shape (some c) skip (place + 1) rest
  | before, 0, place, c :: rest =>
    let found := if before.any words.isWord then none else literalAt words shape (c :: rest)
    match found with
    | some (literal, _) =>
      (place, literal) :: spans shape (some c) (literal.length - 1) (place + 1) rest
    | none => spans shape (some c) 0 (place + 1) rest

/-- `pattern.findall(text)`. -/
def findAll (shape : Shape) (text : Str) : List Str :=
  (spans words shape none 0 0 text).map Prod.snd

end Matching

section Literals

def IsNumber (digits : Str) (most : Nat) : Prop :=
  1 ≤ digits.length ∧ digits.length ≤ most ∧ ∀ c ∈ digits, isDecimal c = true

/-- Four numbers with dots between them. -/
def IsQuad (quad : Str) : Prop :=
  ∃ a b c d, IsNumber a 3 ∧ IsNumber b 3 ∧ IsNumber c 3 ∧ IsNumber d 3 ∧
    quad = a ++ '.' :: b ++ '.' :: c ++ '.' :: d

/-- The form of what follows the four numbers. -/
def IsTail : Shape → Str → Prop
  | .bare, tail => tail = []
  | .cidr, tail => ∃ digits, IsNumber digits 2 ∧ tail = '/' :: digits
  | .host, tail => tail = "/32".toList

/-- A text that has the form of a pattern. -/
def IsLiteral (shape : Shape) (literal : Str) : Prop :=
  ∃ quad tail, IsQuad quad ∧ IsTail shape tail ∧ literal = quad ++ tail

/-- What may stand behind a literal. -/
def Follows (words : WordTable) (shape : Shape) (rest : Str) : Prop :=
  endsWord words rest = true ∧ (shape = .bare → rest.head? ≠ some '/')

variable {words : WordTable} {shape : Shape} {s rest literal new digits after : Str} {c : Char}

theorem not_isDecimal_dot : isDecimal '.' = false := by decide

theorem not_isDecimal_slash : isDecimal '/' = false := by decide

theorem takeWhile_number {most : Nat} (h : IsNumber digits most)
    (hafter : after.head?.any isDecimal = false) :
    (digits ++ after).takeWhile isDecimal = digits ∧
      (digits ++ after).dropWhile isDecimal = after := by
  have hstop : after.takeWhile isDecimal = [] ∧ after.dropWhile isDecimal = after := by
    cases after with
    | nil => exact ⟨rfl, rfl⟩
    | cons c after =>
      have hc : ¬ isDecimal c = true := Bool.eq_false_iff.mp hafter
      exact ⟨List.takeWhile_cons_of_neg hc, List.dropWhile_cons_of_neg hc⟩
  rw [List.takeWhile_append_of_pos h.2.2, List.dropWhile_append_of_pos h.2.2, hstop.1, hstop.2,
    List.append_nil]
  exact ⟨rfl, rfl⟩

theorem head_dropWhile (s : Str) : (s.dropWhile isDecimal).head?.any isDecimal = false := by
  have hnot := List.head?_dropWhile_not isDecimal s
  cases hdrop : (s.dropWhile isDecimal).head? with
  | none => rfl
  | some c =>
    rw [hdrop] at hnot
    exact hnot

theorem octetAt_eq_some_iff : octetAt s = some (digits, rest) ↔
    s = digits ++ rest ∧ IsNumber digits 3 ∧ rest.head?.any isDecimal = false := by
  rw [octetAt]
  constructor
  · intro h
    split_ifs at h with hlength
    cases h
    exact ⟨List.takeWhile_append_dropWhile.symm, ⟨hlength.1, hlength.2,
      fun c hc => List.mem_takeWhile_imp hc⟩, head_dropWhile s⟩
  · rintro ⟨rfl, hnumber, hrest⟩
    obtain ⟨htake, hdrop⟩ := takeWhile_number hnumber hrest
    rw [htake, hdrop, if_pos ⟨hnumber.1, hnumber.2.1⟩]

/-- Numbers, each behind a dot. -/
def Dotted : Nat → Str → Prop
  | 0, s => s = []
  | n + 1, s => ∃ digits more, IsNumber digits 3 ∧ Dotted n more ∧ s = '.' :: digits ++ more

theorem head_dotted {n : Nat} (h : Dotted (n + 1) s) : s.head? = some '.' := by
  obtain ⟨digits, more, -, -, rfl⟩ := h
  rfl

theorem dottedAt_eq_some_iff {n : Nat} {dotted : Str} :
    dottedAt n s = some (dotted, rest) ↔ s = dotted ++ rest ∧ Dotted n dotted ∧
      (n ≠ 0 → rest.head?.any isDecimal = false) := by
  induction n generalizing s dotted with
  | zero =>
    rw [dottedAt, Option.some_inj, Prod.mk.injEq]
    constructor
    · rintro ⟨rfl, rfl⟩
      exact ⟨rfl, rfl, fun h => absurd rfl h⟩
    · rintro ⟨rfl, rfl, -⟩
      exact ⟨rfl, rfl⟩
  | succ n ih =>
    constructor
    · intro h
      cases s with
      | nil => cases h
      | cons c s =>
        by_cases hc : c = '.'
        · subst hc
          rw [dottedAt] at h
          obtain ⟨⟨digits, rest'⟩, hoctet, h⟩ := Option.bind_eq_some_iff.mp h
          obtain ⟨⟨more, rest''⟩, hmore, h⟩ := Option.map_eq_some_iff.mp h
          cases h
          obtain ⟨rfl, hnumber, hhead⟩ := octetAt_eq_some_iff.mp hoctet
          obtain ⟨rfl, hdotted, hrest⟩ := ih.mp hmore
          refine ⟨by simp, ⟨digits, more, hnumber, hdotted, rfl⟩, fun _ => ?_⟩
          cases n with
          | zero =>
            obtain rfl : more = [] := hdotted
            exact hhead
          | succ n => exact hrest (Nat.succ_ne_zero n)
        · rw [dottedAt] at h
          · cases h
          · rintro s' hs'
            exact hc (List.cons.inj hs').1
    · rintro ⟨rfl, ⟨digits, more, hnumber, hdotted, rfl⟩, hrest⟩
      have hhead : (more ++ rest).head?.any isDecimal = false := by
        cases n with
        | zero =>
          obtain rfl : more = [] := hdotted
          exact hrest (Nat.succ_ne_zero 0)
        | succ n =>
          rw [List.head?_append, head_dotted hdotted]
          exact not_isDecimal_dot
      have hoctet : octetAt (digits ++ (more ++ rest)) = some (digits, more ++ rest) :=
        octetAt_eq_some_iff.mpr ⟨rfl, hnumber, hhead⟩
      have hmore : dottedAt n (more ++ rest) = some (more, rest) :=
        ih.mpr ⟨rfl, hdotted, fun _ => hrest (Nat.succ_ne_zero n)⟩
      have htext : '.' :: digits ++ more ++ rest = '.' :: (digits ++ (more ++ rest)) := by simp
      rw [htext, dottedAt, hoctet, Option.bind_some]
      dsimp only
      rw [hmore]
      rfl

theorem dotted_three {dotted : Str} : Dotted 3 dotted ↔ ∃ b c d, IsNumber b 3 ∧ IsNumber c 3 ∧
    IsNumber d 3 ∧ dotted = '.' :: b ++ '.' :: c ++ '.' :: d := by
  constructor
  · rintro ⟨b, _, hb, ⟨c, _, hc, ⟨d, _, hd, rfl, rfl⟩, rfl⟩, rfl⟩
    exact ⟨b, c, d, hb, hc, hd, by simp⟩
  · rintro ⟨b, c, d, hb, hc, hd, rfl⟩
    exact ⟨b, _, hb, ⟨c, _, hc, ⟨d, _, hd, rfl, rfl⟩, rfl⟩, by simp⟩

theorem quadAt_eq_some_iff {quad : Str} : quadAt s = some (quad, rest) ↔
    s = quad ++ rest ∧ IsQuad quad ∧ rest.head?.any isDecimal = false := by
  rw [quadAt]
  constructor
  · intro h
    obtain ⟨⟨a, rest'⟩, hoctet, h⟩ := Option.bind_eq_some_iff.mp h
    obtain ⟨⟨dotted, rest''⟩, hdotted, h⟩ := Option.map_eq_some_iff.mp h
    cases h
    obtain ⟨rfl, ha, -⟩ := octetAt_eq_some_iff.mp hoctet
    obtain ⟨rfl, hdotted, hrest⟩ := dottedAt_eq_some_iff.mp hdotted
    obtain ⟨b, c, d, hb, hc, hd, rfl⟩ := dotted_three.mp hdotted
    exact ⟨by simp, ⟨a, b, c, d, ha, hb, hc, hd, by simp⟩, hrest (by decide)⟩
  · rintro ⟨rfl, ⟨a, b, c, d, ha, hb, hc, hd, rfl⟩, hrest⟩
    have htext : a ++ '.' :: b ++ '.' :: c ++ '.' :: d ++ rest =
        a ++ (('.' :: b ++ '.' :: c ++ '.' :: d) ++ rest) := by simp
    have hoctet := octetAt_eq_some_iff.mpr
      ⟨rfl, ha, show (('.' :: b ++ '.' :: c ++ '.' :: d) ++ rest).head?.any isDecimal = false from
        not_isDecimal_dot⟩
    have hdotted := dottedAt_eq_some_iff.mpr
      ⟨rfl, dotted_three.mpr ⟨b, c, d, hb, hc, hd, rfl⟩, fun _ => hrest⟩
    rw [htext, hoctet, Option.bind_some]
    dsimp only
    rw [hdotted]
    simp

theorem head_of_endsWord (h : endsWord words rest = true) : rest.head?.any isDecimal = false := by
  cases rest with
  | nil => rfl
  | cons c rest =>
    rw [endsWord, Bool.not_eq_true'] at h
    refine Bool.eq_false_iff.mpr fun hc => ?_
    rw [List.head?_cons, Option.any_some, words.isWord_decimal c hc] at h
    cases h

theorem tailAt_eq_some_iff {tail : Str} : tailAt words shape s = some (tail, rest) ↔
    s = tail ++ rest ∧ IsTail shape tail ∧ Follows words shape rest := by
  cases shape with
  | bare =>
    rw [tailAt]
    constructor
    · intro h
      split_ifs at h with hends
      cases h
      exact ⟨rfl, rfl, hends.1, fun _ => hends.2⟩
    · rintro ⟨rfl, rfl, hends, hslash⟩
      rw [List.nil_append, if_pos ⟨hends, hslash rfl⟩]
  | cidr =>
    constructor
    · intro h
      cases s with
      | nil => cases h
      | cons c s =>
        by_cases hc : c = '/'
        · subst hc
          rw [tailAt] at h
          split_ifs at h with hlength
          cases h
          exact ⟨by simp, ⟨_, ⟨hlength.1, hlength.2.1, fun c hc => List.mem_takeWhile_imp hc⟩,
            rfl⟩, hlength.2.2, fun hbare => by cases hbare⟩
        · rw [tailAt] at h
          · cases h
          all_goals
            intros
            simp_all
    · rintro ⟨rfl, ⟨digits, hnumber, rfl⟩, hends, -⟩
      obtain ⟨htake, hdrop⟩ := takeWhile_number hnumber (head_of_endsWord hends)
      rw [List.cons_append, tailAt, htake, hdrop, if_pos ⟨hnumber.1, hnumber.2.1, hends⟩]
  | host =>
    constructor
    · intro h
      by_cases hs : ∃ rest, s = '/' :: '3' :: '2' :: rest
      · obtain ⟨rest, rfl⟩ := hs
        rw [tailAt] at h
        split_ifs at h with hends
        cases h
        exact ⟨rfl, rfl, hends, fun hbare => by cases hbare⟩
      · rw [tailAt] at h
        · cases h
        all_goals
          intros
          simp_all
    · rintro ⟨rfl, rfl, hends, -⟩
      show tailAt words .host ('/' :: '3' :: '2' :: rest) = _
      rw [tailAt, if_pos hends]

theorem literalAt_eq_some_iff : literalAt words shape s = some (literal, rest) ↔
    s = literal ++ rest ∧ IsLiteral shape literal ∧ Follows words shape rest := by
  rw [literalAt]
  constructor
  · intro h
    obtain ⟨⟨quad, rest'⟩, hfound, h⟩ := Option.bind_eq_some_iff.mp h
    obtain ⟨⟨tail, rest''⟩, hbehind, h⟩ := Option.map_eq_some_iff.mp h
    cases h
    obtain ⟨rfl, hquad, -⟩ := quadAt_eq_some_iff.mp hfound
    obtain ⟨rfl, htail, hfollows⟩ := tailAt_eq_some_iff.mp hbehind
    exact ⟨by simp, ⟨quad, tail, hquad, htail, rfl⟩, hfollows⟩
  · rintro ⟨rfl, ⟨quad, tail, hquad, htail, rfl⟩, hfollows⟩
    have hhead : (tail ++ rest).head?.any isDecimal = false := by
      cases shape with
      | bare =>
        obtain rfl : tail = [] := htail
        exact head_of_endsWord hfollows.1
      | cidr =>
        obtain ⟨digits, -, rfl⟩ := htail
        exact not_isDecimal_slash
      | host =>
        obtain rfl : tail = "/32".toList := htail
        exact not_isDecimal_slash
    rw [List.append_assoc, quadAt_eq_some_iff.mpr ⟨rfl, hquad, hhead⟩, Option.bind_some]
    dsimp only
    rw [tailAt_eq_some_iff.mpr ⟨rfl, htail, hfollows⟩]
    rfl

theorem char_of_isLiteral (h : IsLiteral shape literal) {c : Char} (hc : c ∈ literal) :
    isDecimal c = true ∨ c = '.' ∨ c = '/' := by
  obtain ⟨quad, tail, ⟨n₁, n₂, n₃, n₄, h₁, h₂, h₃, h₄, rfl⟩, htail, rfl⟩ := h
  have hnumber : ∀ digits most, IsNumber digits most → c ∈ digits →
      isDecimal c = true ∨ c = '.' ∨ c = '/' := fun digits most hdigits hmem =>
    Or.inl (hdigits.2.2 c hmem)
  rcases List.mem_append.mp hc with hc | hc
  · simp only [List.mem_append, List.mem_cons, List.cons_append, List.append_assoc] at hc
    rcases hc with hc | rfl | hc | rfl | hc | rfl | hc
    · exact hnumber n₁ 3 h₁ hc
    · exact Or.inr (Or.inl rfl)
    · exact hnumber n₂ 3 h₂ hc
    · exact Or.inr (Or.inl rfl)
    · exact hnumber n₃ 3 h₃ hc
    · exact Or.inr (Or.inl rfl)
    · exact hnumber n₄ 3 h₄ hc
  · cases shape with
    | bare =>
      obtain rfl : tail = [] := htail
      cases hc
    | cidr =>
      obtain ⟨digits, hdigits, rfl⟩ := htail
      rcases List.mem_cons.mp hc with rfl | hc
      · exact Or.inr (Or.inr rfl)
      · exact hnumber digits 2 hdigits hc
    | host =>
      obtain rfl : tail = "/32".toList := htail
      have hchars : c = '/' ∨ c = '3' ∨ c = '2' := by simpa using hc
      rcases hchars with rfl | rfl | rfl
      · exact Or.inr (Or.inr rfl)
      · exact Or.inl (by decide)
      · exact Or.inl (by decide)

theorem head_of_isLiteral (h : IsLiteral shape literal) :
    ∃ c rest, literal = c :: rest ∧ isDecimal c = true := by
  obtain ⟨quad, tail, ⟨n₁, n₂, n₃, n₄, h₁, -, -, -, rfl⟩, -, rfl⟩ := h
  obtain ⟨c, digits, rfl⟩ := List.exists_cons_of_ne_nil (List.length_pos_iff.mp h₁.1)
  exact ⟨c, _, rfl, h₁.2.2 c List.mem_cons_self⟩

end Literals

section Spans

variable {words : WordTable} {shape : Shape} {s pre post literal new text : Str} {c : Char}
  {before : Option Char} {skip place n : Nat}

theorem spans_match {rest : Str} (hbefore : before.any words.isWord = false)
    (h : literalAt words shape (c :: s) = some (literal, rest)) :
    spans words shape before 0 place (c :: s) =
      (place, literal) :: spans words shape (some c) (literal.length - 1) (place + 1) s := by
  rw [spans, hbefore]
  simp only [Bool.false_eq_true, if_false]
  rw [h]

theorem spans_pass (h : before.any words.isWord = true ∨ literalAt words shape (c :: s) = none) :
    spans words shape before 0 place (c :: s) = spans words shape (some c) 0 (place + 1) s := by
  rw [spans]
  rcases h with h | h
  · rw [h]
    rfl
  · rw [h]
    split_ifs <;> rfl

theorem le_of_mem_spans (h : (n, literal) ∈ spans words shape before skip place s) :
    place + skip ≤ n := by
  induction s generalizing before skip place with
  | nil => cases h
  | cons c s ih =>
    cases skip with
    | succ skip =>
      have hle := ih h
      omega
    | zero =>
      by_cases hmatch : before.any words.isWord = true ∨ literalAt words shape (c :: s) = none
      · rw [spans_pass hmatch] at h
        have hle := ih h
        omega
      · rw [not_or, Bool.not_eq_true, ← ne_eq, Option.ne_none_iff_exists'] at hmatch
        obtain ⟨hbefore, ⟨found, rest⟩, hfound⟩ := hmatch
        rw [spans_match hbefore hfound] at h
        rcases List.mem_cons.mp h with h | h
        · cases h
          exact Nat.le_refl _
        · have hle := ih h
          omega

theorem spans_cases (words : WordTable) (shape : Shape) (before : Option Char) (place : Nat) (c : Char) (s : Str) :
    ((before.any words.isWord = true ∨ literalAt words shape (c :: s) = none) ∧
        spans words shape before 0 place (c :: s) = spans words shape (some c) 0 (place + 1) s) ∨
      ∃ found rest, before.any words.isWord = false ∧
        literalAt words shape (c :: s) = some (found, rest) ∧
        spans words shape before 0 place (c :: s) =
          (place, found) :: spans words shape (some c) (found.length - 1) (place + 1) s := by
  by_cases hmatch : before.any words.isWord = true ∨ literalAt words shape (c :: s) = none
  · exact Or.inl ⟨hmatch, spans_pass hmatch⟩
  · rw [not_or, Bool.not_eq_true, ← ne_eq, Option.ne_none_iff_exists'] at hmatch
    obtain ⟨hbefore, ⟨found, rest⟩, hfound⟩ := hmatch
    exact Or.inr ⟨found, rest, hbefore, hfound, spans_match hbefore hfound⟩

theorem of_mem_spans_here (h : (place, literal) ∈ spans words shape before skip place s) :
    skip = 0 ∧ before.any words.isWord = false ∧
      ∃ rest, literalAt words shape s = some (literal, rest) := by
  have hskip := le_of_mem_spans h
  obtain rfl : skip = 0 := by omega
  cases s with
  | nil => cases h
  | cons c s =>
    rcases spans_cases words shape before place c s with
      ⟨-, hpass⟩ | ⟨found, rest, hbefore, hfound, hmatch⟩
    · rw [hpass] at h
      have hle := le_of_mem_spans h
      omega
    · rw [hmatch] at h
      rcases List.mem_cons.mp h with h | h
      · cases h
        exact ⟨rfl, hbefore, rest, hfound⟩
      · have hle := le_of_mem_spans h
        omega

theorem boundary_of_mem_spans
    (h : (place + pre.length, literal) ∈ spans words shape before skip place (pre ++ s)) :
    (pre.getLast?.or before).any words.isWord = false := by
  induction pre generalizing before skip place with
  | nil => exact (of_mem_spans_here h).2.1
  | cons c pre ih =>
    have hplace : place + (c :: pre).length = place + 1 + pre.length := by
      rw [List.length_cons]
      omega
    have hlast : ((c :: pre).getLast?.or before) = pre.getLast?.or (some c) := by
      rw [List.getLast?_cons]
      cases pre.getLast? <;> rfl
    rw [hplace] at h
    rw [hlast]
    rw [List.cons_append] at h
    cases skip with
    | succ skip => exact ih h
    | zero =>
      rcases spans_cases words shape before place c (pre ++ s) with
        ⟨-, hpass⟩ | ⟨found, rest, hbefore, hfound, hmatch⟩
      · rw [hpass] at h
        exact ih h
      · rw [hmatch] at h
        rcases List.mem_cons.mp h with h | h
        · have hfirst := (Prod.mk.inj h).1
          omega
        · exact ih h

theorem isLiteral_of_mem_spans (h : (n, literal) ∈ spans words shape before skip place s) :
    IsLiteral shape literal := by
  induction s generalizing before skip place with
  | nil => cases h
  | cons c s ih =>
    cases skip with
    | succ skip => exact ih h
    | zero =>
      rcases spans_cases words shape before place c s with
        ⟨-, hpass⟩ | ⟨found, rest, -, hfound, hmatch⟩
      · rw [hpass] at h
        exact ih h
      · rw [hmatch] at h
        rcases List.mem_cons.mp h with h | h
        · cases h
          exact (literalAt_eq_some_iff.mp hfound).2.1
        · exact ih h

theorem literalAt_before {found rest : Str} (pre new : Str) (hliteral : IsLiteral shape literal)
    (hlength : found.length ≤ pre.length)
    (h : literalAt words shape (pre ++ (literal ++ post)) = some (found, rest)) :
    ∃ rest, literalAt words shape (pre ++ (new ++ post)) = some (found, rest) := by
  obtain ⟨htext, hfound, hfollows⟩ := literalAt_eq_some_iff.mp h
  obtain ⟨mid, rfl⟩ : ∃ mid, pre = found ++ mid := by
    obtain ⟨mid, hmid⟩ := List.prefix_of_prefix_length_le ⟨rest, htext.symm⟩
      ⟨literal ++ post, rfl⟩ hlength
    exact ⟨mid, hmid.symm⟩
  rw [List.append_assoc] at htext
  obtain rfl := List.append_cancel_left htext
  refine ⟨mid ++ (new ++ post), literalAt_eq_some_iff.mpr ⟨by simp, hfound, ?_⟩⟩
  cases mid with
  | cons c mid => exact hfollows
  | nil =>
    obtain ⟨c, more, rfl, hc⟩ := head_of_isLiteral hliteral
    have hdigit := head_of_endsWord hfollows.1
    rw [List.nil_append, List.cons_append, List.head?_cons, Option.any_some, hc] at hdigit
    cases hdigit

/-- A literal that takes the place of one with neither a dot nor a slash before it is found
where that one was. -/
theorem mem_spans_replace (hnew : IsLiteral shape new)
    (hfree : ∀ c ∈ pre.getLast?, c ≠ '.' ∧ c ≠ '/')
    (h : (place + pre.length, literal) ∈
      spans words shape before skip place (pre ++ (literal ++ post))) :
    (place + pre.length, new) ∈ spans words shape before skip place (pre ++ (new ++ post)) := by
  induction pre generalizing before skip place with
  | nil =>
    obtain ⟨rfl, hbefore, rest, hfound⟩ := of_mem_spans_here h
    obtain ⟨htext, -, hfollows⟩ := literalAt_eq_some_iff.mp hfound
    rw [List.nil_append] at htext
    obtain rfl := List.append_cancel_left htext
    obtain ⟨c, more, rfl, -⟩ := head_of_isLiteral hnew
    have hmatch : literalAt words shape (c :: (more ++ post)) = some (c :: more, post) :=
      literalAt_eq_some_iff.mpr ⟨rfl, hnew, hfollows⟩
    rw [List.nil_append, List.cons_append, spans_match hbefore hmatch]
    exact List.mem_cons_self
  | cons c pre ih =>
    have hboundary := boundary_of_mem_spans h
    have hplace : place + (c :: pre).length = place + 1 + pre.length := by
      rw [List.length_cons]
      omega
    have hfree' : ∀ c ∈ pre.getLast?, c ≠ '.' ∧ c ≠ '/' := by
      intro d hd
      refine hfree d ?_
      rw [List.getLast?_cons, Option.mem_def.mp hd]
      rfl
    rw [hplace] at h ⊢
    rw [List.cons_append] at h ⊢
    cases skip with
    | succ skip => exact ih hfree' h
    | zero =>
      rcases spans_cases words shape before place c
        (pre ++ (literal ++ post)) with ⟨hnone, hpass⟩ | ⟨found, rest, hbefore, hfound, hmatch⟩
      · rw [hpass] at h
        have hliteral := isLiteral_of_mem_spans h
        have hnone' : before.any words.isWord = true ∨
            literalAt words shape (c :: (pre ++ (new ++ post))) = none := by
          rcases hnone with hnone | hnone
          · exact Or.inl hnone
          · right
            by_contra hsome
            obtain ⟨⟨found, rest⟩, hfound⟩ := Option.ne_none_iff_exists'.mp hsome
            rcases Nat.lt_or_ge (c :: pre).length found.length with hlong | hshort
            · -- the match would go on over the character before the literal
              obtain ⟨last, hlast⟩ : ∃ last, (c :: pre).getLast? = some last :=
                ⟨_, List.getLast?_eq_some_getLast (List.cons_ne_nil c pre)⟩
              obtain ⟨htext, hform, -⟩ := literalAt_eq_some_iff.mp hfound
              have hprefix : c :: pre <+: found :=
                List.prefix_of_prefix_length_le ⟨new ++ post, rfl⟩ ⟨rest, htext.symm⟩ hlong.le
              have hmem : last ∈ found :=
                hprefix.subset (List.mem_of_getLast? hlast)
              obtain ⟨hdot, hslash⟩ := hfree last hlast
              rw [hlast, Option.some_or, Option.any_some] at hboundary
              rcases char_of_isLiteral hform hmem with hdigit | hbad | hbad
              · rw [words.isWord_decimal last hdigit] at hboundary
                cases hboundary
              · exact hdot hbad
              · exact hslash hbad
            · obtain ⟨rest', hfound'⟩ := literalAt_before (c :: pre) literal
                hnew hshort hfound
              rw [List.cons_append, hnone] at hfound'
              cases hfound'
        rw [spans_pass hnone']
        exact ih hfree' h
      · rw [hmatch] at h
        rcases List.mem_cons.mp h with h | h
        · have hfirst := (Prod.mk.inj h).1
          omega
        · have hliteral := isLiteral_of_mem_spans h
          have hle := le_of_mem_spans h
          have hpos : found ≠ [] := by
            obtain ⟨d, more, rfl, -⟩ :=
              head_of_isLiteral (literalAt_eq_some_iff.mp hfound).2.1
            exact List.cons_ne_nil d more
          have hlength := List.length_pos_iff.mpr hpos
          obtain ⟨rest', hfound'⟩ := literalAt_before (c :: pre) new hliteral
            (by rw [List.length_cons]; omega) hfound
          rw [List.cons_append] at hfound'
          rw [spans_match hbefore hfound']
          exact List.mem_cons_of_mem _ (ih hfree' h)

end Spans

end SharedInfra.AddressPlan
