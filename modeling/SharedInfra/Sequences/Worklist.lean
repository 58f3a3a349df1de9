import Mathlib

/-!
# Closing a set under a relation with a worklist

A worklist takes elements off a list, adds what they lead to and puts the new
ones back on the list (`closeFrom`).  With enough fuel the result is the least
set that holds the elements it started from and is closed under the relation
(`mem_close`), whatever order the elements are listed and taken in.
-/

namespace SharedInfra.Sequences

variable {α : Type}

structure SetOrder (α : Type) where
  list : Finset α → List α
  mem_list : ∀ s a, a ∈ list s ↔ a ∈ s

inductive Reached (next : α → Finset α) (start : Set α) : α → Prop where
  | start {a : α} (h : a ∈ start) : Reached next start a
  | step {a b : α} (h : Reached next start a) (hb : b ∈ next a) : Reached next start b

theorem Reached.mono {next : α → Finset α} {start start' : Set α} (hsub : start ⊆ start') {a : α}
    (h : Reached next start a) : Reached next start' a := by
  induction h with
  | start h => exact .start (hsub h)
  | step _ hb ih => exact .step ih hb

theorem Reached.mem_of_closed {next : α → Finset α} {start closed : Set α}
    (hstart : start ⊆ closed) (hclosed : ∀ a ∈ closed, ∀ b ∈ next a, b ∈ closed) {a : α}
    (h : Reached next start a) : a ∈ closed := by
  induction h with
  | start h => exact hstart h
  | step _ hb ih => exact hclosed _ ih _ hb

variable [DecidableEq α]

/-- Add the elements that are new to the set and to the end of the list. -/
def addNew (wanted : Finset α) (pending : List α) : List α → Finset α × List α
  | [] => (wanted, pending)
  | a :: rest =>
    if a ∈ wanted then addNew wanted pending rest
    else addNew (insert a wanted) (pending ++ [a]) rest

/-- Take the last element off the list and add what it leads to, until the list is empty. -/
def closeFrom (next : α → List α) : Nat → Finset α → List α → Finset α
  | 0, wanted, _ => wanted
  | fuel + 1, wanted, pending =>
    match pending.getLast? with
    | none => wanted
    | some a =>
      let added := addNew wanted pending.dropLast (next a)
      closeFrom next fuel added.1 added.2

section AddNew

variable {wanted whole : Finset α} {pending items : List α}

theorem mem_addNew {a : α} : a ∈ (addNew wanted pending items).1 ↔ a ∈ wanted ∨ a ∈ items := by
  induction items generalizing wanted pending with
  | nil => simp [addNew]
  | cons b items ih =>
    rw [addNew]
    split_ifs with hb
    · rw [ih, List.mem_cons]
      constructor
      · rintro (h | h)
        · exact Or.inl h
        · exact Or.inr (Or.inr h)
      · rintro (h | rfl | h)
        · exact Or.inl h
        · exact Or.inl hb
        · exact Or.inr h
    · rw [ih, Finset.mem_insert, List.mem_cons]
      tauto

theorem mem_addNew_pending {a : α} :
    a ∈ (addNew wanted pending items).2 ↔ a ∈ pending ∨ (a ∈ items ∧ a ∉ wanted) := by
  induction items generalizing wanted pending with
  | nil => simp [addNew]
  | cons b items ih =>
    rw [addNew]
    split_ifs with hb
    · rw [ih, List.mem_cons]
      constructor
      · rintro (h | ⟨h, hnot⟩)
        · exact Or.inl h
        · exact Or.inr ⟨Or.inr h, hnot⟩
      · rintro (h | ⟨rfl | h, hnot⟩)
        · exact Or.inl h
        · exact absurd hb hnot
        · exact Or.inr ⟨h, hnot⟩
    · rw [ih, List.mem_append, List.mem_singleton, List.mem_cons, Finset.mem_insert]
      constructor
      · rintro ((h | rfl) | ⟨h, hnot⟩)
        · exact Or.inl h
        · exact Or.inr ⟨Or.inl rfl, hb⟩
        · exact Or.inr ⟨Or.inr h, fun hw => hnot (Or.inr hw)⟩
      · rintro (h | ⟨rfl | h, hnot⟩)
        · exact Or.inl (Or.inl h)
        · exact Or.inl (Or.inr rfl)
        · by_cases heq : a = b
          · exact Or.inl (Or.inr heq)
          · exact Or.inr ⟨h, fun hw => hw.elim heq hnot⟩

variable (wanted pending) in
theorem addNew_measure (h : ∀ a ∈ items, a ∈ whole) :
    (addNew wanted pending items).2.length + (whole \ (addNew wanted pending items).1).card =
      pending.length + (whole \ wanted).card := by
  induction items generalizing wanted pending with
  | nil => rfl
  | cons b items ih =>
    have hrest := fun a ha => h a (List.mem_cons_of_mem _ ha)
    rw [addNew]
    split_ifs with hb
    · exact ih _ _ hrest
    · have hmem : b ∈ whole \ wanted := Finset.mem_sdiff.mpr ⟨h b (by simp), hb⟩
      have hcard : (whole \ insert b wanted).card + 1 = (whole \ wanted).card := by
        rw [Finset.sdiff_insert, Finset.card_erase_of_mem hmem]
        have := Finset.card_pos.mpr ⟨b, hmem⟩
        omega
      rw [ih _ _ hrest, List.length_append, List.length_singleton]
      omega

end AddNew

section Close

variable {next : α → List α} {whole wanted : Finset α} {pending : List α} {fuel : Nat}

variable (next fuel) in
theorem closeFrom_sound {next' : α → Finset α} {start : Set α}
    (hnext : ∀ a b, b ∈ next a → b ∈ next' a) (hpending : ∀ a ∈ pending, a ∈ wanted)
    (hwanted : ∀ a ∈ wanted, Reached next' start a) :
    (∀ a ∈ closeFrom next fuel wanted pending, Reached next' start a) ∧
      ∀ a ∈ wanted, a ∈ closeFrom next fuel wanted pending := by
  induction fuel generalizing wanted pending with
  | zero => exact ⟨hwanted, fun a ha => ha⟩
  | succ fuel ih =>
    rw [closeFrom]
    cases hlast : pending.getLast? with
    | none => exact ⟨hwanted, fun a ha => ha⟩
    | some a =>
      have ha : a ∈ pending := List.mem_of_getLast? hlast
      have hin : ∀ b ∈ (addNew wanted pending.dropLast (next a)).2,
          b ∈ (addNew wanted pending.dropLast (next a)).1 := by
        intro b hb
        rcases mem_addNew_pending.mp hb with hb | ⟨hb, _⟩
        · exact mem_addNew.mpr (Or.inl (hpending b (List.dropLast_subset _ hb)))
        · exact mem_addNew.mpr (Or.inr hb)
      have hreach : ∀ b ∈ (addNew wanted pending.dropLast (next a)).1,
          Reached next' start b := by
        intro b hb
        rcases mem_addNew.mp hb with hb | hb
        · exact hwanted b hb
        · exact .step (hwanted a (hpending a ha)) (hnext a b hb)
      obtain ⟨hsound, hkeep⟩ := ih hin hreach
      exact ⟨hsound, fun b hb => hkeep b (mem_addNew.mpr (Or.inl hb))⟩

variable (next) in
theorem closeFrom_closed (hwhole : ∀ a b, b ∈ next a → b ∈ whole)
    (hfuel : pending.length + (whole \ wanted).card ≤ fuel)
    (hclosed : ∀ a ∈ wanted, a ∉ pending → ∀ b ∈ next a, b ∈ wanted) :
    ∀ a ∈ closeFrom next fuel wanted pending, ∀ b ∈ next a,
      b ∈ closeFrom next fuel wanted pending := by
  induction fuel generalizing wanted pending with
  | zero =>
    have hnil : pending = [] := List.length_eq_zero_iff.mp (by omega)
    subst hnil
    exact fun a ha b hb => hclosed a ha (by simp) b hb
  | succ fuel ih =>
    rw [closeFrom]
    cases hlast : pending.getLast? with
    | none =>
      have hnil : pending = [] := List.getLast?_eq_none_iff.mp hlast
      subst hnil
      exact fun a ha b hb => hclosed a ha (by simp) b hb
    | some a =>
      have hsplit : pending = pending.dropLast ++ [a] :=
        (List.dropLast_append_getLast? a hlast).symm
      have hlength : pending.length = pending.dropLast.length + 1 := by
        conv_lhs => rw [hsplit]
        simp
      refine ih ?_ ?_
      · have hmeasure := addNew_measure wanted pending.dropLast (hwhole a)
        omega
      · intro c hc hnot b hb
        rw [mem_addNew]
        rcases mem_addNew.mp hc with hcw | hcn
        · by_cases hca : c = a
          · subst hca
            exact Or.inr hb
          · refine Or.inl (hclosed c hcw (fun hcp => hnot ?_) b hb)
            rw [hsplit, List.mem_append, List.mem_singleton] at hcp
            exact mem_addNew_pending.mpr (Or.inl (hcp.resolve_right hca))
        · by_cases hcw : c ∈ wanted
          · by_cases hca : c = a
            · subst hca
              exact Or.inr hb
            · refine Or.inl (hclosed c hcw (fun hcp => hnot ?_) b hb)
              rw [hsplit, List.mem_append, List.mem_singleton] at hcp
              exact mem_addNew_pending.mpr (Or.inl (hcp.resolve_right hca))
          · exact absurd (mem_addNew_pending.mpr (Or.inr ⟨hcn, hcw⟩)) hnot

/-- Close a set: `pending = list(wanted)`, with fuel for every element there is. -/
def close (order : SetOrder α) (next : α → Finset α) (whole wanted : Finset α) : Finset α :=
  closeFrom (fun a => order.list (next a))
    ((order.list wanted).length + (whole \ wanted).card) wanted (order.list wanted)

theorem mem_close {order : SetOrder α} {next : α → Finset α}
    (hwhole : ∀ a, next a ⊆ whole) {a : α} :
    a ∈ close order next whole wanted ↔ Reached next wanted a := by
  have hmem : ∀ c b, b ∈ order.list (next c) ↔ b ∈ next c := fun c b => order.mem_list _ _
  have hpending : ∀ b, b ∈ order.list wanted ↔ b ∈ wanted := order.mem_list wanted
  obtain ⟨hsound, hkeep⟩ := closeFrom_sound (fun c => order.list (next c))
    ((order.list wanted).length + (whole \ wanted).card)
    (fun c b hb => (hmem c b).mp hb) (fun b hb => (hpending b).mp hb)
    fun b hb => Reached.start hb
  have hclosed := closeFrom_closed (fun c => order.list (next c))
    (fun c b hb => hwhole c ((hmem c b).mp hb))
    (le_refl ((order.list wanted).length + (whole \ wanted).card))
    fun b hb hnot => absurd ((hpending b).mpr hb) hnot
  constructor
  · exact hsound a
  · intro h
    have hin : a ∈ {b | b ∈ close order next whole wanted} :=
      h.mem_of_closed (fun b hb => hkeep b hb) fun c hc b hb => hclosed c hc b ((hmem c b).mpr hb)
    exact hin

end Close

end SharedInfra.Sequences
