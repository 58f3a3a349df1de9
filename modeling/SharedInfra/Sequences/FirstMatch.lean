import Mathlib

/-!
# The first and the least

A list in one order, sorted by another: the least so many are the first so many
exactly when each of these comes before each of the others
(`take_sorted_iff`).
-/

namespace SharedInfra
namespace Sequences

variable {α : Type} [LinearOrder α] {xs ys : List α} {k : Nat}

theorem sorted_eq_append (hperm : ys.Perm xs) (hsorted : ys.Pairwise (· ≤ ·))
    (h : ∀ a ∈ xs.take k, ∀ b ∈ xs.drop k, a ≤ b) :
    ys = (xs.take k).mergeSort (· ≤ ·) ++ (xs.drop k).mergeSort (· ≤ ·) := by
  refine List.Perm.eq_of_pairwise' hsorted ?_ ?_
  · refine List.pairwise_append.mpr ⟨List.pairwise_mergeSort' _ _, List.pairwise_mergeSort' _ _, ?_⟩
    intro a ha b hb
    exact h a (List.mem_mergeSort.mp ha) b (List.mem_mergeSort.mp hb)
  · refine hperm.trans ?_
    conv_lhs => rw [← List.take_append_drop k xs]
    exact ((List.mergeSort_perm _ _).append (List.mergeSort_perm _ _)).symm

theorem take_sorted_iff (hnodup : xs.Nodup) (hperm : ys.Perm xs)
    (hsorted : ys.Pairwise (· ≤ ·)) :
    (∀ x, x ∈ ys.take k ↔ x ∈ xs.take k) ↔ ∀ a ∈ xs.take k, ∀ b ∈ xs.drop k, a < b := by
  have happart : ∀ {b}, b ∈ xs.drop k → b ∉ xs.take k := by
    intro b hb ha
    rw [← List.take_append_drop k xs] at hnodup
    exact (List.nodup_append.mp hnodup).2.2 b ha b hb rfl
  constructor
  · intro hsame a ha b hb
    have hays : a ∈ ys.take k := (hsame a).mpr ha
    have hbys : b ∈ ys.take k ++ ys.drop k := by
      rw [List.take_append_drop]
      exact hperm.mem_iff.mpr (List.mem_of_mem_drop hb)
    have hbdrop : b ∈ ys.drop k :=
      (List.mem_append.mp hbys).resolve_left fun hin => happart hb ((hsame b).mp hin)
    rw [← List.take_append_drop k ys] at hsorted
    have hle : a ≤ b := (List.pairwise_append.mp hsorted).2.2 a hays b hbdrop
    refine lt_of_le_of_ne hle fun heq => ?_
    subst heq
    exact happart hb ha
  · intro hlt x
    rw [sorted_eq_append hperm hsorted fun a ha b hb => (hlt a ha b hb).le]
    rcases Nat.le_total k xs.length with hk | hk
    · rw [List.take_left' (by simp [hk]), List.mem_mergeSort]
    · have hlen : ((xs.take k).mergeSort (· ≤ ·) ++ (xs.drop k).mergeSort (· ≤ ·)).length ≤ k := by
        simp [hk]
      rw [List.take_of_length_le hlen, List.drop_eq_nil_of_le hk]
      simp

end Sequences
end SharedInfra

/-!
# Tables

Lists of rows under their keys: what `lookup` finds is a row, a row under a key of
its own is what `lookup` finds, and tables that agree row by row agree on each.
-/

namespace SharedInfra
namespace Sequences

section Lookup

variable {κ ν : Type} [BEq κ] [LawfulBEq κ] {rows : List (κ × ν)} {k : κ} {v : ν}

theorem mem_of_lookup (h : rows.lookup k = some v) : (k, v) ∈ rows := by
  obtain ⟨before, after, rfl, -⟩ := List.lookup_eq_some_iff.mp h
  simp

theorem lookup_of_mem (hnodup : (rows.map Prod.fst).Nodup) (h : (k, v) ∈ rows) :
    rows.lookup k = some v := by
  induction rows with
  | nil => cases h
  | cons row rows ih =>
    rw [List.map_cons, List.nodup_cons] at hnodup
    rcases List.mem_cons.mp h with rfl | h
    · exact List.lookup_cons_self
    · have hne : (k == row.1) = false := by
        rw [beq_eq_false_iff_ne]
        rintro rfl
        exact hnodup.1 (List.mem_map.mpr ⟨_, h, rfl⟩)
      rw [List.lookup_cons, hne]
      exact ih hnodup.2 h

theorem lookup_iff_mem (hnodup : (rows.map Prod.fst).Nodup) :
    rows.lookup k = some v ↔ (k, v) ∈ rows :=
  ⟨mem_of_lookup, lookup_of_mem hnodup⟩

end Lookup

section Agreement

variable {α β : Type} {r : α → β → Prop} {l : List α} {l' : List β}

theorem exists_mem_of_forall₂ (h : List.Forall₂ r l l') {a : α} (ha : a ∈ l) :
    ∃ b ∈ l', r a b := by
  induction h with
  | nil => cases ha
  | @cons x y _ _ hxy _ ih =>
    rcases List.mem_cons.mp ha with rfl | ha
    · exact ⟨y, List.mem_cons_self, hxy⟩
    · obtain ⟨b, hb, hab⟩ := ih ha
      exact ⟨b, List.mem_cons_of_mem _ hb, hab⟩

theorem exists_mem_of_forall₂' (h : List.Forall₂ r l l') {b : β} (hb : b ∈ l') :
    ∃ a ∈ l, r a b :=
  exists_mem_of_forall₂ h.flip hb

theorem mapM_eq_some_iff {α β : Type} {f : α → Option β} {xs : List α} {ys : List β} :
    xs.mapM f = some ys ↔ xs.map f = ys.map some := by
  induction xs generalizing ys with
  | nil => cases ys <;> simp
  | cons x xs ih =>
    rw [List.mapM_cons, List.map_cons, eq_comm (a := f x :: _), List.map_eq_cons_iff]
    simp only [Option.bind_eq_bind, Option.bind_eq_some_iff, Option.pure_def, Option.some.injEq, ih]
    constructor
    · rintro ⟨y, hy, ys, hys, rfl⟩
      exact ⟨y, ys, rfl, hy.symm, hys.symm⟩
    · rintro ⟨y, ys, rfl, hy, hys⟩
      exact ⟨y, hy.symm, ys, hys.symm, rfl⟩

end Agreement

end Sequences
end SharedInfra

/-!
# Pairs in the order of their keys

Pairs whose keys strictly ascend (`Ascending`): sorting by the key makes pairs with distinct keys
so (`ascending_sortByKey`), leaves such pairs as they are, and such pairs are determined by what is
looked up in them (`eq_of_lookup_eq`).
-/

namespace SharedInfra
namespace Sequences

theorem lookup_eq_none_of_not_mem {α β : Type} [BEq α] [LawfulBEq α] {pairs : List (α × β)}
    {key : α} (h : key ∉ pairs.map Prod.fst) : pairs.lookup key = none := by
  refine List.lookup_eq_none_iff.mpr fun pair hpair => bne_iff_ne.mpr ?_
  rintro rfl
  exact h (List.mem_map_of_mem hpair)

variable {α β : Type} [LinearOrder α] {pairs pairs' : List (α × β)}

def sortByKey (pairs : List (α × β)) : List (α × β) := pairs.mergeSort fun a b => decide (a.1 ≤ b.1)

def Ascending (pairs : List (α × β)) : Prop := pairs.Pairwise fun a b => a.1 < b.1

theorem sortByKey_perm (pairs : List (α × β)) : (sortByKey pairs).Perm pairs :=
  List.mergeSort_perm _ _

theorem mem_sortByKey {pair : α × β} : pair ∈ sortByKey pairs ↔ pair ∈ pairs :=
  (sortByKey_perm pairs).mem_iff

theorem Ascending.nodup (h : Ascending pairs) : (pairs.map Prod.fst).Nodup :=
  List.pairwise_map.mpr (h.imp fun hlt => hlt.ne)

theorem ascending_sortByKey (h : (pairs.map Prod.fst).Nodup) : Ascending (sortByKey pairs) := by
  have hsorted : (sortByKey pairs).Pairwise fun a b => decide (a.1 ≤ b.1) :=
    List.pairwise_mergeSort (fun a b c hab hbc => by
      rw [decide_eq_true_iff] at *
      exact le_trans hab hbc) (fun a b => by
      rw [Bool.or_eq_true, decide_eq_true_iff, decide_eq_true_iff]
      exact le_total a.1 b.1) pairs
  have hnodup : ((sortByKey pairs).map Prod.fst).Nodup :=
    ((sortByKey_perm pairs).map Prod.fst).nodup_iff.mpr h
  refine hsorted.imp₂ ?_ (List.pairwise_map.mp hnodup)
  intro a b hle hne
  exact lt_of_le_of_ne (of_decide_eq_true hle) hne

theorem sortByKey_of_ascending (h : Ascending pairs) : sortByKey pairs = pairs :=
  List.mergeSort_of_pairwise (h.imp fun hlt => decide_eq_true hlt.le)

theorem eq_of_lookup_eq [BEq α] [LawfulBEq α] (h : Ascending pairs) (h' : Ascending pairs')
    (hlookup : ∀ key, pairs.lookup key = pairs'.lookup key) : pairs = pairs' := by
  have hmem : ∀ pair, pair ∈ pairs ↔ pair ∈ pairs' := by
    rintro ⟨key, value⟩
    rw [← lookup_iff_mem h.nodup, ← lookup_iff_mem h'.nodup, hlookup]
  have hperm : pairs.Perm pairs' := (List.perm_ext_iff_of_nodup (List.Nodup.of_map _ h.nodup)
    (List.Nodup.of_map _ h'.nodup)).mpr hmem
  exact hperm.eq_of_pairwise (fun a b _ _ hab hba => absurd hba (lt_asymm hab)) h h'

end Sequences
end SharedInfra

/-!
# First-match rule lists

A list of rules tried in order on one packet.  A rule that does not apply, or
that hands the packet back, passes it on; the first rule that does something
else decides (`decision`).
-/

namespace SharedInfra
namespace Sequences

/-- What one rule does with a packet. -/
inductive Effect where
  | accept
  | drop
  | ret
  | pass
deriving DecidableEq

variable {ρ : Type} {step : ρ → Effect}

/-- What a list of rules does with a packet: what its first deciding rule does. -/
def decision (step : ρ → Effect) : List ρ → Effect
  | [] => .pass
  | rule :: rules =>
    match step rule with
    | .pass => decision step rules
    | effect => effect

theorem decision_cons_pass {rule : ρ} {rules : List ρ} (h : step rule = .pass) :
    decision step (rule :: rules) = decision step rules := by
  rw [decision, h]

theorem decision_cons_of_ne {rule : ρ} {rules : List ρ} (h : step rule ≠ .pass) :
    decision step (rule :: rules) = step rule := by
  rw [decision]
  split
  · contradiction
  · rfl

theorem decision_eq_drop {rules : List ρ} {k : Nat} {rule : ρ} (hk : rules[k]? = some rule)
    (hdrop : step rule = .drop)
    (habove : ∀ (j : Nat) r, j < k → rules[j]? = some r → step r = .pass ∨ step r = .drop) :
    decision step rules = .drop := by
  induction rules generalizing k with
  | nil => simp at hk
  | cons first rules ih =>
    cases k with
    | zero =>
      obtain rfl : first = rule := by simpa using hk
      rw [decision_cons_of_ne (by simp [hdrop]), hdrop]
    | succ k =>
      rcases habove 0 first (by omega) (by simp) with hpass | hfirst
      · rw [decision_cons_pass hpass]
        refine ih (by simpa using hk) fun j r hj hr => ?_
        exact habove (j + 1) r (by omega) (by simpa using hr)
      · rw [decision_cons_of_ne (by simp [hfirst]), hfirst]

theorem exists_of_decision {rules : List ρ} {effect : Effect} (hne : effect ≠ .pass)
    (h : decision step rules = effect) :
    ∃ (k : Nat) (rule : ρ), rules[k]? = some rule ∧ step rule = effect ∧
      ∀ (j : Nat) r, j < k → rules[j]? = some r → step r = .pass := by
  induction rules with
  | nil => exact absurd h.symm hne
  | cons first rules ih =>
    by_cases hpass : step first = .pass
    · rw [decision_cons_pass hpass] at h
      obtain ⟨k, rule, hk, hstep, habove⟩ := ih h
      refine ⟨k + 1, rule, by simpa using hk, hstep, fun j r hj hr => ?_⟩
      cases j with
      | zero =>
        obtain rfl : first = r := by simpa using hr
        exact hpass
      | succ j => exact habove j r (by omega) (by simpa using hr)
    · rw [decision_cons_of_ne hpass] at h
      exact ⟨0, first, by simp, h, fun j r hj _ => absurd hj (by omega)⟩

end Sequences
end SharedInfra
