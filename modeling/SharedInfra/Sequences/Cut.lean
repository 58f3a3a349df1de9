import Mathlib

/-!
# Cutting a word at a separator

`cutLast` cuts a word at the last occurrence of a separator of any length and
`rsplit` repeats it from the right, as Python's `str.rsplit(sep, n)` does.  The
cut is described without positions: nothing of the separator occurs in what
stands to its right (`cutLast_eq_some_iff`).
-/

namespace SharedInfra.Sequences

variable {α : Type} [DecidableEq α]

/-- The two sides of the last occurrence of `sep`. -/
def cutLast (sep s : List α) : Option (List α × List α) :=
  (s.reverse.dropInfix? sep.reverse).map fun (right, left) => (left.reverse, right.reverse)

/-- `s.rsplit(sep, n)`. -/
def rsplit (sep : List α) : Nat → List α → List (List α)
  | 0, s => [s]
  | n + 1, s =>
    match cutLast sep s with
    | none => [s]
    | some (left, right) => rsplit sep n left ++ [right]

variable {sep s a b c : List α}

theorem cutLast_eq_some_iff_length :
    cutLast sep s = some (a, b) ↔
      s = a ++ sep ++ b ∧ ∀ a' b', s = a' ++ sep ++ b' → b.length ≤ b'.length := by
  have hreverse : ∀ a b : List α,
      s.reverse = b.reverse ++ sep.reverse ++ a.reverse ↔ s = a ++ sep ++ b := by
    intro a b
    rw [← List.reverse_append, ← List.reverse_append, List.reverse_inj, List.append_assoc]
  have hcut : cutLast sep s = some (a, b) ↔
      s.reverse.dropInfix? sep.reverse = some (b.reverse, a.reverse) := by
    rw [cutLast, Option.map_eq_some_iff]
    constructor
    · rintro ⟨⟨right, left⟩, hdrop, heq⟩
      cases heq
      simpa using hdrop
    · exact fun hdrop => ⟨_, hdrop, by simp⟩
  rw [hcut, List.dropInfix?_eq_some_iff]
  constructor
  · rintro ⟨⟨i, hs, hi⟩, hleast⟩
    rw [eq_of_beq hi, hreverse] at hs
    refine ⟨hs, fun a' b' hs' => ?_⟩
    simpa using hleast _ _ _ ((hreverse a' b').mpr hs') (beq_self_eq_true _)
  · rintro ⟨hs, hleast⟩
    refine ⟨⟨_, (hreverse a b).mpr hs, beq_self_eq_true _⟩, fun p i t hs' hi => ?_⟩
    rw [eq_of_beq hi] at hs'
    have hother := (hreverse t.reverse p.reverse).mp (by simpa using hs')
    simpa using hleast _ _ hother

theorem cutLast_eq_some_iff {x : α} {t : List α} :
    cutLast (x :: t) s = some (a, b) ↔ s = a ++ (x :: t) ++ b ∧ ¬ (x :: t) <:+: t ++ b := by
  rw [cutLast_eq_some_iff_length]
  refine and_congr_right fun hs => ⟨fun hleast => ?_, fun hlater a' b' hs' => ?_⟩
  · rintro ⟨r, b', hoccurs⟩
    have hs' : s = (a ++ x :: r) ++ (x :: t) ++ b' := by
      rw [hs]
      simpa using hoccurs.symm
    have hle := hleast _ _ hs'
    have hlength := congrArg List.length hoccurs
    simp only [List.length_append, List.length_cons] at hlength
    omega
  · by_contra hlt
    have hlength := congrArg List.length (hs.symm.trans hs')
    simp only [List.length_append, List.length_cons] at hlength
    have hsplit : a ++ ((x :: t) ++ b) = a' ++ ((x :: t) ++ b') := by
      simpa using hs.symm.trans hs'
    obtain ⟨r, rfl, hr⟩ | ⟨r, rfl, -⟩ := List.append_eq_append_iff.mp hsplit
    · cases r with
      | nil => simp at hlength; omega
      | cons y r =>
        obtain ⟨-, htail⟩ := List.cons_eq_cons.mp (by simpa using hr)
        exact hlater ⟨r, b', by simpa using htail.symm⟩
    · simp only [List.length_append] at hlength
      omega

theorem exists_cutLast (h : sep <:+: s) : ∃ a b, cutLast sep s = some (a, b) := by
  classical
  obtain ⟨l, r, hs⟩ := h
  have hsome : ∃ n, ∃ a b, s = a ++ sep ++ b ∧ b.length = n := ⟨_, l, r, hs.symm, rfl⟩
  obtain ⟨a, b, hab, hlength⟩ := Nat.find_spec hsome
  refine ⟨a, b, cutLast_eq_some_iff_length.mpr ⟨hab, fun a' b' hs' => ?_⟩⟩
  rw [hlength]
  exact Nat.find_min' hsome ⟨a', b', hs', rfl⟩

theorem cutLast_eq_none_iff : cutLast sep s = none ↔ ¬ sep <:+: s := by
  constructor
  · intro hnone hoccurs
    obtain ⟨a, b, hcut⟩ := exists_cutLast hoccurs
    rw [hnone] at hcut
    cases hcut
  · intro habsent
    rw [Option.eq_none_iff_forall_not_mem]
    rintro ⟨a, b⟩ hcut
    exact habsent ⟨a, b, (cutLast_eq_some_iff_length.mp hcut).1.symm⟩

theorem getLast_rsplit_one {x : α} :
    ∃ piece, (rsplit [x] 1 s).getLast? = some piece ∧ x ∉ piece ∧
      (s = piece ∨ ∃ chain, s = chain ++ x :: piece) := by
  have hletter : ∀ {t : List α}, ([x] <:+: t) ↔ x ∈ t := by
    intro t
    simp [List.singleton_infix_iff]
  cases hcut : cutLast [x] s with
  | none =>
    have habsent := cutLast_eq_none_iff.mp hcut
    exact ⟨s, by simp [rsplit, hcut], fun hmem => habsent (hletter.mpr hmem), .inl rfl⟩
  | some sides =>
    obtain ⟨hs, hlater⟩ := cutLast_eq_some_iff.mp hcut
    exact ⟨sides.2, by simp [rsplit, hcut], fun hmem => hlater (hletter.mpr hmem),
      .inr ⟨sides.1, by simpa using hs⟩⟩

theorem rsplit_two_eq_iff :
    rsplit sep 2 s = [a, b, c] ↔
      ∃ left, cutLast sep s = some (left, c) ∧ cutLast sep left = some (a, b) := by
  cases hcut : cutLast sep s with
  | none => simp [rsplit, hcut]
  | some sides =>
    obtain ⟨left, right⟩ := sides
    cases hcut' : cutLast sep left with
    | none => simp [rsplit, hcut, hcut']
    | some sides' => simp [rsplit, hcut, hcut']; grind

theorem exists_rsplit_two_iff :
    (∃ a b c, rsplit sep 2 s = [a, b, c]) ↔ ∃ a b c, s = a ++ sep ++ b ++ sep ++ c := by
  constructor
  · rintro ⟨a, b, c, hsplit⟩
    obtain ⟨left, hcut, hcut'⟩ := rsplit_two_eq_iff.mp hsplit
    exact ⟨a, b, c, by
      rw [(cutLast_eq_some_iff_length.mp hcut).1, (cutLast_eq_some_iff_length.mp hcut').1]⟩
  · rintro ⟨a, b, c, hs⟩
    obtain ⟨left, right, hcut⟩ := exists_cutLast (⟨a ++ sep ++ b, c, hs.symm⟩ : sep <:+: s)
    obtain ⟨hs', hleast⟩ := cutLast_eq_some_iff_length.mp hcut
    have hle := hleast _ _ hs
    have hlength := congrArg List.length (hs.symm.trans hs')
    simp only [List.length_append] at hlength
    have hbegins : a ++ sep ++ b <+: left := by
      have hshort : a ++ sep ++ b <+: s := ⟨sep ++ c, by rw [hs, List.append_assoc _ sep c]⟩
      have hlong : left <+: s := ⟨sep ++ right, by rw [hs', List.append_assoc]⟩
      refine List.prefix_of_prefix_length_le hshort hlong ?_
      simp only [List.length_append]
      omega
    obtain ⟨rest, hleft⟩ := hbegins
    obtain ⟨a', b', hcut'⟩ := exists_cutLast (⟨a, b ++ rest, by simpa using hleft⟩ : sep <:+: left)
    exact ⟨a', b', right, rsplit_two_eq_iff.mpr ⟨left, hcut, hcut'⟩⟩

end SharedInfra.Sequences
