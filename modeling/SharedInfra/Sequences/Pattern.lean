import Mathlib

/-!
# Patterns

Regular patterns over any alphabet with classes of letters, their languages
(`lang`) and a matcher by derivatives (`fullMatch`) that decides them
(`fullMatch_iff`).  The members of the usual compound patterns are described by
one lemma each.
-/

namespace SharedInfra.Sequences

open Computability

inductive Pattern (α : Type) where
  | fail
  | done
  | one (p : α → Bool)
  | seq (a b : Pattern α)
  | alt (a b : Pattern α)
  | star (a : Pattern α)

namespace Pattern

variable {α : Type}

/-- The words a pattern matches. -/
def lang : Pattern α → Language α
  | fail => 0
  | done => 1
  | one p => {s | ∃ c, p c = true ∧ s = [c]}
  | seq a b => a.lang * b.lang
  | alt a b => a.lang + b.lang
  | star a => a.lang∗

section Members

variable {a b : Pattern α} {p : α → Bool} {s : List α}

@[simp] theorem mem_fail : s ∈ (fail : Pattern α).lang ↔ False := Iff.rfl

@[simp] theorem mem_done : s ∈ (done : Pattern α).lang ↔ s = [] := Iff.rfl

@[simp] theorem mem_one : s ∈ (one p).lang ↔ ∃ c, p c = true ∧ s = [c] := Iff.rfl

theorem mem_seq : s ∈ (seq a b).lang ↔ ∃ u ∈ a.lang, ∃ v ∈ b.lang, u ++ v = s := Language.mem_mul

theorem mem_alt : s ∈ (alt a b).lang ↔ s ∈ a.lang ∨ s ∈ b.lang := Iff.rfl

theorem mem_star : s ∈ (star a).lang ↔
    ∃ parts : List (List α), s = parts.flatten ∧ ∀ u ∈ parts, u ∈ a.lang ∧ u ≠ [] :=
  Language.mem_kstar_iff_exists_nonempty

end Members

section Matcher

def nullable : Pattern α → Bool
  | fail => false
  | done => true
  | one _ => false
  | seq a b => a.nullable && b.nullable
  | alt a b => a.nullable || b.nullable
  | star _ => true

/-- A sequence, shorter where the first part is trivial. -/
def seq' : Pattern α → Pattern α → Pattern α
  | fail, _ => fail
  | done, b => b
  | a, b => seq a b

/-- A choice, shorter where a part matches nothing. -/
def alt' : Pattern α → Pattern α → Pattern α
  | fail, b => b
  | a, fail => a
  | a, b => alt a b

/-- What is left to match after one letter. -/
def deriv (c : α) : Pattern α → Pattern α
  | fail => fail
  | done => fail
  | one p => if p c then done else fail
  | seq a b =>
    if a.nullable then alt' (seq' (a.deriv c) b) (b.deriv c) else seq' (a.deriv c) b
  | alt a b => alt' (a.deriv c) (b.deriv c)
  | star a => seq' (a.deriv c) (star a)

/-- `re.fullmatch`. -/
def fullMatch (p : Pattern α) (s : List α) : Bool := (s.foldl (fun p c => p.deriv c) p).nullable

/-- `re.search`, for a pattern that does not look at what is around the match. -/
def search (p : Pattern α) (s : List α) : Bool := s.tails.any fun t => t.inits.any p.fullMatch

variable {a b p : Pattern α} {c : α} {s : List α}

theorem lang_seq' : (seq' a b).lang = (seq a b).lang := by
  unfold seq'
  split
  · exact (zero_mul b.lang).symm
  · exact (one_mul _).symm
  · rfl

theorem lang_alt' : (alt' a b).lang = (alt a b).lang := by
  unfold alt'
  split
  · exact (zero_add _).symm
  · exact (add_zero _).symm
  · rfl

theorem nullable_iff : p.nullable = true ↔ [] ∈ p.lang := by
  induction p with
  | fail => simp [nullable]
  | done => simp [nullable]
  | one p => simp [nullable]
  | seq a b iha ihb =>
    rw [nullable, Bool.and_eq_true, iha, ihb, mem_seq]
    constructor
    · rintro ⟨ha, hb⟩
      exact ⟨[], ha, [], hb, rfl⟩
    · rintro ⟨u, hu, v, hv, huv⟩
      obtain ⟨rfl, rfl⟩ := List.append_eq_nil_iff.mp huv
      exact ⟨hu, hv⟩
  | alt a b iha ihb => rw [nullable, Bool.or_eq_true, iha, ihb, mem_alt]
  | star a _ => exact iff_of_true rfl (Language.nil_mem_kstar _)

theorem mem_deriv : s ∈ (p.deriv c).lang ↔ c :: s ∈ p.lang := by
  induction p generalizing s with
  | fail => simp [deriv]
  | done => simp [deriv]
  | one p =>
    rw [deriv]
    split_ifs with hp
    · simp [hp]
    · simp only [mem_fail, mem_one, false_iff]
      rintro ⟨d, hd, hcd⟩
      cases hcd
      exact hp hd
  | seq a b iha ihb =>
    have hfirst : s ∈ (seq' (a.deriv c) b).lang ↔
        ∃ u, c :: u ∈ a.lang ∧ ∃ v ∈ b.lang, u ++ v = s := by
      rw [lang_seq', mem_seq]
      simp only [iha]
    have hsplit : c :: s ∈ (seq a b).lang ↔
        s ∈ (seq' (a.deriv c) b).lang ∨ (a.nullable = true ∧ c :: s ∈ b.lang) := by
      rw [hfirst, mem_seq, nullable_iff]
      constructor
      · rintro ⟨u, hu, v, hv, huv⟩
        cases u with
        | nil => exact Or.inr ⟨hu, by simpa using huv ▸ hv⟩
        | cons d u =>
          simp only [List.cons_append, List.cons.injEq] at huv
          obtain ⟨rfl, rfl⟩ := huv
          exact Or.inl ⟨u, hu, v, hv, rfl⟩
      · rintro (⟨u, hu, v, hv, rfl⟩ | ⟨ha, hb⟩)
        · exact ⟨c :: u, hu, v, hv, rfl⟩
        · exact ⟨[], ha, c :: s, hb, rfl⟩
    rw [hsplit, deriv]
    split_ifs with ha
    · rw [lang_alt', mem_alt, ihb]
      simp [ha]
    · simp [ha]
  | alt a b iha ihb => rw [deriv, lang_alt', mem_alt, mem_alt, iha, ihb]
  | star a ih =>
    rw [deriv, lang_seq', mem_seq, mem_star]
    constructor
    · rintro ⟨u, hu, v, hv, rfl⟩
      obtain ⟨parts, rfl, hparts⟩ := mem_star.mp hv
      refine ⟨(c :: u) :: parts, rfl, List.forall_mem_cons.mpr ⟨⟨ih.mp hu, by simp⟩, hparts⟩⟩
    · rintro ⟨parts, hflat, hparts⟩
      cases parts with
      | nil => cases hflat
      | cons u parts =>
        obtain ⟨⟨hu, hne⟩, hrest⟩ := List.forall_mem_cons.mp hparts
        cases u with
        | nil => exact absurd rfl hne
        | cons d u =>
          simp only [List.flatten_cons, List.cons_append, List.cons.injEq] at hflat
          obtain ⟨rfl, rfl⟩ := hflat
          exact ⟨u, ih.mpr hu, parts.flatten, mem_star.mpr ⟨parts, rfl, hrest⟩, rfl⟩

theorem fullMatch_iff : p.fullMatch s = true ↔ s ∈ p.lang := by
  induction s generalizing p with
  | nil => exact nullable_iff
  | cons c s ih => exact ih.trans mem_deriv

theorem search_iff : p.search s = true ↔ ∃ u ∈ p.lang, u <:+: s := by
  simp only [search, List.any_eq_true, List.mem_tails, List.mem_inits, fullMatch_iff]
  constructor
  · rintro ⟨t, ht, u, hu, hmem⟩
    exact ⟨u, hmem, hu.isInfix.trans ht.isInfix⟩
  · rintro ⟨u, hmem, v, w, rfl⟩
    exact ⟨u ++ w, ⟨v, by simp⟩, u, List.prefix_append u w, hmem⟩

end Matcher

section Compound

/-- The one word itself. -/
def literal [DecidableEq α] : List α → Pattern α
  | [] => done
  | c :: s => seq (one (· == c)) (literal s)

def plus (a : Pattern α) : Pattern α := seq a (star a)

def opt (a : Pattern α) : Pattern α := alt done a

/-- A pattern so many times in a row. -/
def times (a : Pattern α) : Nat → Pattern α
  | 0 => done
  | n + 1 => seq a (a.times n)

variable {p : α → Bool} {s w : List α}

theorem mem_opt {a : Pattern α} : s ∈ (opt a).lang ↔ s = [] ∨ s ∈ a.lang := mem_alt

theorem mem_literal [DecidableEq α] : s ∈ (literal w).lang ↔ s = w := by
  induction w generalizing s with
  | nil => exact Iff.rfl
  | cons c w ih =>
    rw [literal, mem_seq]
    simp only [mem_one, ih, beq_iff_eq]
    constructor
    · rintro ⟨u, ⟨d, rfl, rfl⟩, v, rfl, rfl⟩
      rfl
    · rintro rfl
      exact ⟨[c], ⟨c, rfl, rfl⟩, w, rfl, rfl⟩

theorem mem_star_one : s ∈ (star (one p)).lang ↔ ∀ c ∈ s, p c = true := by
  rw [mem_star]
  constructor
  · rintro ⟨parts, rfl, hparts⟩ c hc
    obtain ⟨u, hu, hcu⟩ := List.mem_flatten.mp hc
    obtain ⟨d, hd, rfl⟩ := (hparts u hu).1
    rw [List.mem_singleton.mp hcu]
    exact hd
  · intro h
    refine ⟨s.map fun c => [c], (List.flatMap_singleton' s).symm, fun u hu => ?_⟩
    obtain ⟨c, hc, rfl⟩ := List.mem_map.mp hu
    exact ⟨⟨c, h c hc, rfl⟩, by simp⟩

theorem mem_plus_one : s ∈ (plus (one p)).lang ↔ s ≠ [] ∧ ∀ c ∈ s, p c = true := by
  rw [plus, mem_seq]
  constructor
  · rintro ⟨u, ⟨c, hc, rfl⟩, v, hv, rfl⟩
    exact ⟨by simp, List.forall_mem_cons.mpr ⟨hc, mem_star_one.mp hv⟩⟩
  · rintro ⟨hne, h⟩
    obtain ⟨c, v, rfl⟩ := List.exists_cons_of_ne_nil hne
    obtain ⟨hc, hv⟩ := List.forall_mem_cons.mp h
    exact ⟨[c], ⟨c, hc, rfl⟩, v, mem_star_one.mpr hv, rfl⟩

end Compound

def avoids (c : α) : Pattern α → Bool
  | fail => true
  | done => true
  | one p => !p c
  | seq a b => a.avoids c && b.avoids c
  | alt a b => a.avoids c && b.avoids c
  | star a => a.avoids c

theorem not_mem_of_avoids {p : Pattern α} {c : α} (h : p.avoids c = true) {s : List α}
    (hs : s ∈ p.lang) : c ∉ s := by
  induction p generalizing s with
  | fail => exact absurd hs (by simp)
  | done => simp [mem_done.mp hs]
  | one p =>
    obtain ⟨d, hd, rfl⟩ := hs
    rw [List.mem_singleton]
    rintro rfl
    simp [avoids, hd] at h
  | seq a b iha ihb =>
    obtain ⟨ha, hb⟩ := Bool.and_eq_true_iff.mp h
    obtain ⟨u, hu, v, hv, rfl⟩ := mem_seq.mp hs
    rw [List.mem_append, not_or]
    exact ⟨iha ha hu, ihb hb hv⟩
  | alt a b iha ihb =>
    obtain ⟨ha, hb⟩ := Bool.and_eq_true_iff.mp h
    rcases mem_alt.mp hs with hs | hs
    · exact iha ha hs
    · exact ihb hb hs
  | star a ih =>
    obtain ⟨parts, rfl, hparts⟩ := mem_star.mp hs
    rw [List.mem_flatten]
    rintro ⟨u, hu, hcu⟩
    exact ih h (hparts u hu).1 hcu

/-- Every class of the pattern holds good letters only. -/
def Over (good : α → Prop) : Pattern α → Prop
  | fail => True
  | done => True
  | one p => ∀ c, p c = true → good c
  | seq a b => a.Over good ∧ b.Over good
  | alt a b => a.Over good ∧ b.Over good
  | star a => a.Over good

theorem over_literal [DecidableEq α] {w : List α} {good : α → Prop} (h : ∀ c ∈ w, good c) :
    (literal w).Over good := by
  induction w with
  | nil => trivial
  | cons d w ih =>
    obtain ⟨hd, hw⟩ := List.forall_mem_cons.mp h
    exact ⟨fun c hc => (eq_of_beq hc).symm ▸ hd, ih hw⟩

theorem letters_of_over {p : Pattern α} {good : α → Prop} (h : p.Over good) {s : List α}
    (hs : s ∈ p.lang) : ∀ c ∈ s, good c := by
  induction p generalizing s with
  | fail => exact absurd hs (by simp)
  | done => simp [mem_done.mp hs]
  | one p =>
    obtain ⟨c, hc, rfl⟩ := hs
    exact List.forall_mem_singleton.mpr (h c hc)
  | seq a b iha ihb =>
    obtain ⟨u, hu, v, hv, rfl⟩ := mem_seq.mp hs
    exact List.forall_mem_append.mpr ⟨iha h.1 hu, ihb h.2 hv⟩
  | alt a b iha ihb =>
    rcases mem_alt.mp hs with hs | hs
    · exact iha h.1 hs
    · exact ihb h.2 hs
  | star a ih =>
    obtain ⟨parts, rfl, hparts⟩ := mem_star.mp hs
    intro c hc
    obtain ⟨u, hu, hcu⟩ := List.mem_flatten.mp hc
    exact ih h (hparts u hu).1 c hcu

section SelfDelimiting

/-- Where a word of the pattern ends is seen in the word itself. -/
def SelfDelimiting (p : Pattern α) : Prop :=
  ∀ u ∈ p.lang, ∀ v ∈ p.lang, ∀ x y : List α, u ++ x = v ++ y → u = v

variable {a b : Pattern α} {p : α → Bool}

theorem selfDelimiting_done : (done : Pattern α).SelfDelimiting := by
  intro u hu v hv x y _
  rw [mem_done.mp hu, mem_done.mp hv]

theorem selfDelimiting_one : (one p).SelfDelimiting := by
  rintro u ⟨c, hc, rfl⟩ v ⟨d, hd, rfl⟩ x y h
  rw [(List.cons.inj h).1]

theorem selfDelimiting_seq (ha : a.SelfDelimiting) (hb : b.SelfDelimiting) :
    (seq a b).SelfDelimiting := by
  intro u hu v hv x y h
  obtain ⟨u₁, hu₁, u₂, hu₂, rfl⟩ := mem_seq.mp hu
  obtain ⟨v₁, hv₁, v₂, hv₂, rfl⟩ := mem_seq.mp hv
  rw [List.append_assoc, List.append_assoc] at h
  obtain rfl : u₁ = v₁ := ha u₁ hu₁ v₁ hv₁ _ _ h
  rw [hb u₂ hu₂ v₂ hv₂ x y (List.append_cancel_left h)]

theorem selfDelimiting_alt (good : α → Prop) (ha : a.SelfDelimiting) (hb : b.SelfDelimiting)
    (hfirst : ∀ u ∈ a.lang, ∃ c ∈ u.head?, good c)
    (hother : ∀ u ∈ b.lang, ∃ c ∈ u.head?, ¬ good c) : (alt a b).SelfDelimiting := by
  have hmixed : ∀ u ∈ a.lang, ∀ v ∈ b.lang, ∀ x y : List α, u ++ x ≠ v ++ y := by
    intro u hu v hv x y h
    obtain ⟨c, hc, hgood⟩ := hfirst u hu
    obtain ⟨d, hd, hbad⟩ := hother v hv
    have hhead : (u ++ x).head? = (v ++ y).head? := congrArg List.head? h
    rw [List.head?_append, List.head?_append, Option.mem_def.mp hc, Option.mem_def.mp hd] at hhead
    exact hbad (Option.some.inj hhead ▸ hgood)
  intro u hu v hv x y h
  rcases mem_alt.mp hu with hu | hu <;> rcases mem_alt.mp hv with hv | hv
  · exact ha u hu v hv x y h
  · exact absurd h (hmixed u hu v hv x y)
  · exact absurd h.symm (hmixed v hv u hu y x)
  · exact hb u hu v hv x y h

end SelfDelimiting

section Fields

variable [DecidableEq α] {sep : α} {s : List α}

/-- Any number of fields, each with its separator behind it. -/
def fields (sep : α) : Pattern α := star (seq (star (one (· != sep))) (one (· == sep)))

theorem mem_field : s ∈ (seq (star (one (· != sep))) (one (· == sep))).lang ↔
    ∃ u, sep ∉ u ∧ s = u ++ [sep] := by
  simp only [mem_seq, mem_star_one, mem_one, beq_iff_eq, bne_iff_ne]
  constructor
  · rintro ⟨u, hu, _, ⟨c, rfl, rfl⟩, rfl⟩
    exact ⟨u, fun hc => hu c hc rfl, rfl⟩
  · rintro ⟨u, hu, rfl⟩
    refine ⟨u, fun c hc => ?_, [sep], ⟨sep, rfl, rfl⟩, rfl⟩
    rintro rfl
    exact hu hc

theorem mem_fields : s ∈ (fields sep).lang ↔ s = [] ∨ ∃ u, s = u ++ [sep] := by
  rw [fields, mem_star]
  constructor
  · rintro ⟨parts, rfl, hparts⟩
    rcases List.eq_nil_or_concat parts with rfl | ⟨front, last, rfl⟩
    · exact Or.inl rfl
    · obtain ⟨u, -, rfl⟩ := mem_field.mp (hparts last (by simp)).1
      exact Or.inr ⟨front.flatten ++ u, by simp⟩
  · rintro (rfl | ⟨u, rfl⟩)
    · exact ⟨[], rfl, by simp⟩
    · induction hn : u.length using Nat.strong_induction_on generalizing u with
      | _ n ih =>
        by_cases hmem : sep ∈ u
        · obtain ⟨first, rest, rfl, hfirst⟩ := List.eq_append_cons_of_mem hmem
          obtain ⟨parts, hflat, hparts⟩ :=
            ih rest.length (by rw [← hn, List.length_append, List.length_cons]; omega) rest rfl
          refine ⟨(first ++ [sep]) :: parts, by rw [List.flatten_cons, ← hflat]; simp, ?_⟩
          exact List.forall_mem_cons.mpr ⟨⟨mem_field.mpr ⟨first, hfirst, rfl⟩, by simp⟩, hparts⟩
        · refine ⟨[u ++ [sep]], by simp, ?_⟩
          exact List.forall_mem_singleton.mpr ⟨mem_field.mpr ⟨u, hmem, rfl⟩, by simp⟩

end Fields

end Pattern

end SharedInfra.Sequences
