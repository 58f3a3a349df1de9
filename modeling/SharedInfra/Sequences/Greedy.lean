import Mathlib

/-!
# Greedy subsequence matching

A scan that looks for the elements of one list, in order, in another, and takes
each at its first place after the one before.  The scan finds all of them
exactly when the first list is a sublist of the second
(`length_greedyPositions_iff`), and the places it gives are increasing and hold
the elements looked for.
-/

namespace SharedInfra.Sequences

variable {α : Type} [DecidableEq α]

/-- Where the scan from place `start` finds the elements of `wanted`, in order. -/
def greedyPositions : List α → Nat → List α → List Nat
  | w :: ws, start, x :: xs =>
    if x = w then start :: greedyPositions ws (start + 1) xs
    else greedyPositions (w :: ws) (start + 1) xs
  | _, _, _ => []

theorem greedyPositions_cons (w : α) (ws : List α) (start : Nat) (x : α) (xs : List α) :
    greedyPositions (w :: ws) start (x :: xs) = if x = w then
      start :: greedyPositions ws (start + 1) xs else greedyPositions (w :: ws) (start + 1) xs := rfl

@[simp] theorem greedyPositions_nil_left (start : Nat) (xs : List α) :
    greedyPositions [] start xs = [] := by
  cases xs <;> rfl

@[simp] theorem greedyPositions_nil_right (ws : List α) (start : Nat) :
    greedyPositions ws start [] = [] := by
  cases ws <;> rfl

theorem length_greedyPositions_le (ws : List α) (start : Nat) (xs : List α) :
    (greedyPositions ws start xs).length ≤ ws.length := by
  induction xs generalizing ws start with
  | nil => simp
  | cons x xs ih =>
    cases ws with
    | nil => simp
    | cons w ws =>
      rw [greedyPositions_cons]
      split_ifs with h
      · have := ih ws (start + 1)
        simp only [List.length_cons]
        omega
      · exact ih (w :: ws) (start + 1)

theorem length_greedyPositions_iff (ws : List α) (start : Nat) (xs : List α) :
    (greedyPositions ws start xs).length = ws.length ↔ ws.Sublist xs := by
  induction xs generalizing ws start with
  | nil => cases ws <;> simp
  | cons x xs ih =>
    cases ws with
    | nil => simp
    | cons w ws =>
      rw [greedyPositions_cons]
      split_ifs with h
      · subst h
        rw [List.length_cons, List.length_cons, Nat.add_right_cancel_iff, ih]
        exact List.cons_sublist_cons.symm
      · rw [ih (w :: ws) (start + 1)]
        constructor
        · exact fun hs => List.Sublist.cons x hs
        · intro hs
          rcases List.sublist_cons_iff.mp hs with hs | ⟨r, hr, _⟩
          · exact hs
          · exact absurd (List.cons.inj hr).1.symm h

theorem greedyPositions_bounds {ws : List α} {start : Nat} {xs : List α} {p : Nat}
    (hp : p ∈ greedyPositions ws start xs) : start ≤ p ∧ p < start + xs.length := by
  induction xs generalizing ws start with
  | nil => simp at hp
  | cons x xs ih =>
    cases ws with
    | nil => simp at hp
    | cons w ws =>
      rw [greedyPositions_cons] at hp
      split_ifs at hp with h
      · rcases List.mem_cons.mp hp with rfl | hp
        · simp
        · have := ih hp
          simp only [List.length_cons]
          omega
      · have := ih hp
        simp only [List.length_cons]
        omega

theorem greedyPositions_pairwise (ws : List α) (start : Nat) (xs : List α) :
    (greedyPositions ws start xs).Pairwise (· < ·) := by
  induction xs generalizing ws start with
  | nil => simp
  | cons x xs ih =>
    cases ws with
    | nil => simp
    | cons w ws =>
      rw [greedyPositions_cons]
      split_ifs with h
      · refine List.pairwise_cons.mpr ⟨?_, ih ws (start + 1)⟩
        intro p hp
        have := (greedyPositions_bounds hp).1
        omega
      · exact ih (w :: ws) (start + 1)

theorem getElem_greedyPositions {ws : List α} {start : Nat} {xs : List α} {i p : Nat}
    (hp : (greedyPositions ws start xs)[i]? = some p) :
    ∃ w, ws[i]? = some w ∧ xs[p - start]? = some w := by
  induction xs generalizing ws start i with
  | nil => simp at hp
  | cons x xs ih =>
    cases ws with
    | nil => simp at hp
    | cons w ws =>
      rw [greedyPositions_cons] at hp
      split_ifs at hp with h
      · subst h
        cases i with
        | zero =>
          simp only [List.getElem?_cons_zero, Option.some.injEq] at hp
          subst hp
          exact ⟨x, by simp, by simp⟩
        | succ i =>
          rw [List.getElem?_cons_succ] at hp
          obtain ⟨v, hv, hx⟩ := ih hp
          have hge := (greedyPositions_bounds (List.mem_of_getElem? hp)).1
          refine ⟨v, by simpa using hv, ?_⟩
          rw [show p - start = (p - (start + 1)) + 1 by omega, List.getElem?_cons_succ]
          exact hx
      · obtain ⟨v, hv, hx⟩ := ih hp
        have hge := (greedyPositions_bounds (List.mem_of_getElem? hp)).1
        refine ⟨v, hv, ?_⟩
        rw [show p - start = (p - (start + 1)) + 1 by omega, List.getElem?_cons_succ]
        exact hx

theorem greedyPositions_append (ws : List α) (start : Nat) (xs : List α) :
    greedyPositions ws start (ws ++ xs) = List.range' start ws.length := by
  induction ws generalizing start with
  | nil => simp
  | cons w ws ih => rw [List.cons_append, greedyPositions, if_pos rfl, ih]; rfl

end SharedInfra.Sequences
