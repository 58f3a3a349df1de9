import SharedInfra.Effects.Program

/-!
# Computations in so many turns

A computation that is given a number of turns and has no result in too few.
It settles on a value (`Settles`) when it has that value in enough turns and in
any more; settled computations are composed (`Settles.bind`).
-/

namespace SharedInfra
namespace Effects

variable {α β : Type}

/-- In enough turns and in any more the computation has this value. -/
def Settles (f : Nat → Option α) (a : α) : Prop := ∃ turns, ∀ more, turns ≤ more → f more = some a

theorem Settles.unique {f : Nat → Option α} {a b : α} (ha : Settles f a) (hb : Settles f b) :
    a = b := by
  obtain ⟨turns, ha⟩ := ha
  obtain ⟨turns', hb⟩ := hb
  have hboth := ha _ (Nat.le_max_left turns turns')
  rw [hb _ (Nat.le_max_right turns turns')] at hboth
  exact (Option.some.inj hboth).symm

theorem settles_some (a : α) : Settles (fun _ => some a) a := ⟨0, fun _ _ => rfl⟩

theorem Settles.bind {f : Nat → Option α} {g : Nat → α → Option β} {a : α} {b : β}
    (hf : Settles f a) (hg : Settles (fun turns => g turns a) b) :
    Settles (fun turns => (f turns).bind (g turns)) b := by
  obtain ⟨turns, hf⟩ := hf
  obtain ⟨turns', hg⟩ := hg
  refine ⟨max turns turns', fun more hmore => ?_⟩
  simp only
  have hfirst := hf more (Nat.le_trans (Nat.le_max_left _ _) hmore)
  rw [hfirst, Option.bind_some]
  exact hg more (Nat.le_trans (Nat.le_max_right _ _) hmore)

end Effects
end SharedInfra

/-!
# What a program does to the state

A program moves the state along a relation when every operation does (`Moves`).  With equality
this says that the program reads only (`Reads`), and with a relation that forgets a part of the
state that the rest of it stays.
-/

namespace SharedInfra
namespace Effects

namespace Prog

variable {Op : Type} {Ans : Op → Type} {ε ε' α β S : Type}

theorem resume_resume {γ ε'' : Type} (p : Prog Op Ans ε α) (f : Except ε α → Prog Op Ans ε' β)
    (g : Except ε' β → Prog Op Ans ε'' γ) :
    (p.resume f).resume g = p.resume fun r => (f r).resume g := by
  induction p with
  | done r => rfl
  | perform op next ih => exact congrArg (perform op) (funext ih)

theorem resume_done (p : Prog Op Ans ε α) : p.resume done = p := by
  induction p with
  | done r => rfl
  | perform op next ih => exact congrArg (perform op) (funext ih)

theorem id_map_eq (p : Prog Op Ans ε α) : id <$> p = p := by
  refine Eq.trans (congrArg p.resume (funext fun r => ?_)) (resume_done p)
  cases r <;> rfl

theorem bind_bind (p : Prog Op Ans ε α) (f : α → Prog Op Ans ε β) {γ : Type}
    (g : β → Prog Op Ans ε γ) : p >>= f >>= g = p >>= fun a => f a >>= g := by
  refine (resume_resume p _ _).trans (congrArg p.resume (funext fun r => ?_))
  cases r <;> rfl

instance : LawfulMonad (Prog Op Ans ε) :=
  LawfulMonad.mk' _ id_map_eq (fun _ _ => rfl) fun p f g => bind_bind p f g

section Moves

variable (handler : Handler Op Ans S) (R : S → S → Prop)

def Moves (p : Prog Op Ans ε α) : Prop := ∀ s, R s (p.run handler s).2

/-- The program leaves the state as it is. -/
def Reads (p : Prog Op Ans ε α) : Prop := ∀ s, (p.run handler s).2 = s

variable {handler R} {p : Prog Op Ans ε α}

theorem moves_of_reads (hrefl : ∀ s, R s s) (h : p.Reads handler) : p.Moves handler R := by
  intro s
  rw [h s]
  exact hrefl s

theorem moves_bind (htrans : ∀ a b c, R a b → R b c → R a c) {f : α → Prog Op Ans ε β}
    (hp : p.Moves handler R) (hf : ∀ a, (f a).Moves handler R) : (p >>= f).Moves handler R := by
  intro s
  have hfirst := hp s
  rw [run_bind]
  rcases hrun : p.run handler s with ⟨_ | a, mid⟩
  · rw [hrun] at hfirst
    exact hfirst
  · rw [hrun] at hfirst
    exact htrans _ _ _ hfirst (hf a mid)

theorem moves_forEach (hrefl : ∀ s, R s s) (htrans : ∀ a b c, R a b → R b c → R a c)
    {xs : List β} {body : β → Prog Op Ans ε Unit} (h : ∀ x, (body x).Moves handler R) :
    (forEach xs body).Moves handler R := by
  induction xs with
  | nil => exact hrefl
  | cons x xs ih => exact moves_bind htrans (h x) fun _ => ih

theorem reads_pure (a : α) : (pure a : Prog Op Ans ε α).Reads handler := fun _ => rfl

theorem reads_raise (e : ε) : (raise e : Prog Op Ans ε α).Reads handler := fun _ => rfl

theorem reads_bind {f : α → Prog Op Ans ε β} (hp : p.Reads handler)
    (hf : ∀ a, (f a).Reads handler) : (p >>= f).Reads handler := by
  intro s
  have hfirst := hp s
  rw [run_bind]
  rcases hrun : p.run handler s with ⟨_ | a, mid⟩
  · rwa [hrun] at hfirst
  · rw [hrun] at hfirst
    exact (hf a mid).trans hfirst

theorem reads_forEach {xs : List β} {body : β → Prog Op Ans ε Unit}
    (h : ∀ x, (body x).Reads handler) : (forEach xs body).Reads handler := by
  induction xs with
  | nil => exact reads_pure ()
  | cons x xs ih => exact reads_bind (h x) fun _ => ih

end Moves

end Prog

end Effects
end SharedInfra

/-!
# Computations that may be refused

What a successful run of an `Except` computation says about its parts: of a bind
both halves succeeded, and of a loop over a list every turn did.
-/

namespace SharedInfra
namespace Effects

variable {ε α β : Type}

theorem bind_eq_ok_iff {x : Except ε α} {f : α → Except ε β} {b : β} :
    (x >>= f) = .ok b ↔ ∃ a, x = .ok a ∧ f a = .ok b := by
  cases x with
  | error e => exact ⟨nofun, nofun⟩
  | ok a => exact ⟨fun h => ⟨a, rfl, h⟩, fun ⟨_, ha, h⟩ => by cases ha; exact h⟩

theorem mapM_eq_ok_iff {f : α → Except ε β} {xs : List α} {ys : List β} :
    xs.mapM f = .ok ys ↔ List.Forall₂ (fun x y => f x = .ok y) xs ys := by
  induction xs generalizing ys with
  | nil =>
    rw [List.mapM_nil, List.forall₂_nil_left_iff]
    exact ⟨fun h => by cases h; rfl, fun h => by rw [h]; rfl⟩
  | cons x xs ih =>
    rw [List.mapM_cons, bind_eq_ok_iff, List.forall₂_cons_left_iff]
    constructor
    · rintro ⟨y, hy, h⟩
      obtain ⟨rest, hrest, h⟩ := bind_eq_ok_iff.mp h
      cases h
      exact ⟨y, rest, hy, ih.mp hrest, rfl⟩
    · rintro ⟨y, rest, hy, hrest, rfl⟩
      exact ⟨y, hy, bind_eq_ok_iff.mpr ⟨rest, ih.mpr hrest, rfl⟩⟩

variable {R : α → β → Prop} {xs : List α} {ys : List β}

theorem exists_of_mem_left (h : List.Forall₂ R xs ys) {x : α} (hx : x ∈ xs) :
    ∃ y ∈ ys, R x y := by
  induction h with
  | nil => cases hx
  | cons hhead _ ih =>
    cases hx with
    | head => exact ⟨_, .head _, hhead⟩
    | tail _ hx =>
      obtain ⟨y, hy, hrel⟩ := ih hx
      exact ⟨y, .tail _ hy, hrel⟩

theorem exists_of_mem_right (h : List.Forall₂ R xs ys) {y : β} (hy : y ∈ ys) :
    ∃ x ∈ xs, R x y := by
  obtain ⟨x, hx, hrel⟩ := exists_of_mem_left h.flip hy
  exact ⟨x, hx, hrel⟩

theorem mapM_succeeds_iff {f : α → Except ε β} :
    (∃ ys, xs.mapM f = .ok ys) ↔ ∀ x ∈ xs, ∃ y, f x = .ok y := by
  constructor
  · rintro ⟨ys, h⟩ x hx
    obtain ⟨y, -, hy⟩ := exists_of_mem_left (mapM_eq_ok_iff.mp h) hx
    exact ⟨y, hy⟩
  · intro h
    induction xs with
    | nil => exact ⟨[], rfl⟩
    | cons x xs ih =>
      obtain ⟨y, hy⟩ := h x (.head _)
      obtain ⟨ys, hys⟩ := ih fun x hx => h x (.tail _ hx)
      exact ⟨y :: ys, mapM_eq_ok_iff.mpr (.cons hy (mapM_eq_ok_iff.mp hys))⟩

end Effects
end SharedInfra
