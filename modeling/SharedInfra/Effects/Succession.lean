import SharedInfra.Effects.RelyGuarantee

/-!
# Programs one after another

Programs that run over one world in succession, each to its end or until it is
stopped between two of its operations (`Moment`).  What each of them keeps when it
runs alone (`KeepsAlone`) holds at every moment of every such succession
(`keepsAlone_of_moment`), and its result is what it promises
(`KeepsAlone.result`).
-/

namespace SharedInfra.Effects

namespace Prog

open Relation

variable {Op : Type} {Ans : Op → Type} {ε ε' α β W : Type}

section Succession

variable (does : W → (op : Op) → Ans op → W → Prop) (programs : Set (Prog Op Ans ε α)) (start : W)

/-- The worlds a succession of programs goes through, with what is left of the one that runs. -/
inductive Moment : W → Option (Prog Op Ans ε α) → Prop where
  | start : Moment start none
  | enter {w : W} {p : Prog Op Ans ε α} (h : Moment w none) (hp : p ∈ programs) :
      Moment w (some p)
  | perform {w w' : W} {op : Op} {next : Ans op → Prog Op Ans ε α} {a : Ans op}
      (h : Moment w (some (perform op next))) (hdoes : does w op a w') :
      Moment w' (some (next a))
  | leave {w : W} {p : Prog Op Ans ε α} (h : Moment w (some p)) : Moment w none

end Succession

section Alone

variable (does : W → (op : Op) → Ans op → W → Prop) (inv : W → Prop)

/-- Every operation of the program keeps `inv`, and `post` holds at its end. -/
abbrev KeepsAlone (post : Except ε α → W → Prop) (p : Prog Op Ans ε α) (w : W) : Prop :=
  p.Keeps (fun _ : Unit => does) (fun _ _ w' => inv w') () post w

variable {does inv} {p : Prog Op Ans ε α} {w w' : W} {post : Except ε α → W → Prop}

theorem stable_alone {guar : Unit → W → W → Prop} (fact : W → Prop) : Stable guar () fact := by
  rintro w w' _ ⟨i, hi, _⟩
  exact absurd rfl hi

theorem keepsAlone_ask_bind {op : Op} {f : Ans op → Prog Op Ans ε β}
    {post : Except ε β → W → Prop}
    (h : ∀ a w', does w op a w' → inv w' ∧ (f a).KeepsAlone does inv post w') :
    (ask op >>= f).KeepsAlone does inv post w := by
  intro w₁ hothers a w₂ hdoes
  have hw : w₁ = w := (stable_alone (· = w)).after rfl hothers
  exact h a w₂ (hw ▸ hdoes)

theorem KeepsAlone.result (h : p.KeepsAlone does inv post w) {r : Except ε α}
    (hexec : Exec does p w r w') : post r w' := by
  induction hexec with
  | done => exact h
  | perform hdoes _ ih => exact ih (h _ .refl _ _ hdoes).2

theorem KeepsAlone.of_subset {does' : W → (op : Op) → Ans op → W → Prop}
    (hsub : ∀ w op a w', does' w op a w' → does w op a w')
    (h : p.KeepsAlone does inv post w) : p.KeepsAlone does' inv post w := by
  induction p generalizing w with
  | done r => exact h
  | perform op next ih =>
    intro w₁ hothers a w₂ hdoes
    have hw : w₁ = w := (stable_alone (· = w)).after rfl hothers
    obtain ⟨hinv, hnext⟩ := h w .refl a w₂ (hsub _ _ _ _ (hw ▸ hdoes))
    exact ⟨hinv, ih a hnext⟩

theorem moment_of_step {programs : Set (Prog Op Ans ε α)} {start : W}
    {rest : Option (Prog Op Ans ε α)} (hstart : inv start)
    (hstep : ∀ w op a w', inv w → does w op a w' → inv w')
    (h : Moment does programs start w rest) : inv w := by
  induction h with
  | start => exact hstart
  | enter _ _ ih => exact ih
  | perform _ hdoes ih => exact hstep _ _ _ _ ih hdoes
  | leave _ ih => exact ih

theorem keepsAlone_of_moment {programs : Set (Prog Op Ans ε α)} {start : W}
    {rest : Option (Prog Op Ans ε α)} (hstart : inv start)
    (hkeeps : ∀ p ∈ programs, ∀ w, inv w → p.KeepsAlone does inv (fun _ _ => True) w)
    (h : Moment does programs start w rest) :
    inv w ∧ ∀ p, rest = some p → p.KeepsAlone does inv (fun _ _ => True) w := by
  induction h with
  | start => exact ⟨hstart, nofun⟩
  | enter _ hp ih =>
    refine ⟨ih.1, fun q hq => ?_⟩
    cases hq
    exact hkeeps _ hp _ ih.1
  | perform _ hdoes ih =>
    obtain ⟨hinv, hnext⟩ := ih.2 _ rfl _ .refl _ _ hdoes
    refine ⟨hinv, fun q hq => ?_⟩
    cases hq
    exact hnext
  | leave _ ih => exact ⟨ih.1, nofun⟩

end Alone

section Guaranteed

variable {does : W → (op : Op) → Ans op → W → Prop} {guar : Unit → W → W → Prop}
  {programs : Set (Prog Op Ans ε α)} {start w w' : W}

theorem keeps_perform {op : Op} {next : Ans op → Prog Op Ans ε α} {post : Except ε α → W → Prop}
    (h : ∀ a w', does w op a w' → guar () w w' ∧
      (next a).Keeps (fun _ : Unit => does) guar () post w') :
    (perform op next).Keeps (fun _ : Unit => does) guar () post w := by
  intro w₁ hothers a w₂ hdoes
  have hw : w₁ = w := (stable_alone (· = w)).after rfl hothers
  subst hw
  exact h a w₂ hdoes

theorem Keeps.weaken_alone {guar' : Unit → W → W → Prop} {p : Prog Op Ans ε α}
    {post : Except ε α → W → Prop} (hguar : ∀ w w', guar () w w' → guar' () w w')
    (h : p.Keeps (fun _ : Unit => does) guar () post w) :
    p.Keeps (fun _ : Unit => does) guar' () post w := by
  induction p generalizing w with
  | done r => exact h
  | perform op next ih =>
    intro w₁ hothers a w₂ hdoes
    have hw : w₁ = w := (stable_alone (· = w)).after rfl hothers
    obtain ⟨hstep, hnext⟩ := h w .refl a w₂ (hw ▸ hdoes)
    exact ⟨hguar _ _ (hw ▸ hstep), ih a hnext⟩

theorem Keeps.result_alone {p : Prog Op Ans ε α} {r : Except ε α} {post : Except ε α → W → Prop}
    (h : p.Keeps (fun _ : Unit => does) guar () post w) (hexec : Exec does p w r w') :
    post r w' := by
  induction hexec with
  | done => exact h
  | perform hdoes _ ih => exact ih (h _ .refl _ _ hdoes).2

theorem Keeps.steps_alone {p : Prog Op Ans ε α} {post : Except ε α → W → Prop}
    (h : p.Keeps (fun _ : Unit => does) guar () post w) (hpasses : Passes does p w w') :
    ReflTransGen (guar ()) w w' := by
  induction hpasses with
  | here => exact .refl
  | perform hdoes _ ih =>
    obtain ⟨hstep, hnext⟩ := h _ .refl _ _ hdoes
    exact .head hstep (ih hnext)

section Leaves

variable {π : Type} (does guar) (part : W → π)

/-- A program that leaves a part of the world as it is, and keeps its promise. -/
def Leaves (p : Prog Op Ans ε α) : Prop :=
  ∀ w, p.Keeps (fun _ : Unit => does) guar () (fun _ w' => part w' = part w) w

variable {does guar part}

theorem leaves_done (r : Except ε α) : Leaves does guar part (done r : Prog Op Ans ε α) :=
  fun _ => rfl

theorem leaves_bind {p : Prog Op Ans ε α} {f : α → Prog Op Ans ε β}
    (hp : Leaves does guar part p) (hf : ∀ a, Leaves does guar part (f a)) :
    Leaves does guar part (p >>= f) :=
  fun w => (hp w).bind
    (fun a w' hw => (hf a w').mono fun _ _ hw' => hw'.trans hw) fun _ _ hw => hw

theorem leaves_ite {c : Prop} [Decidable c] {p q : Prog Op Ans ε α}
    (hp : Leaves does guar part p) (hq : Leaves does guar part q) :
    Leaves does guar part (if c then p else q) := by
  split
  · exact hp
  · exact hq

end Leaves

theorem inv_and_keeps_of_moment (inv : W → Prop) {rest : Option (Prog Op Ans ε α)}
    (hkeeps : ∀ p ∈ programs, ∀ w, inv w →
      p.Keeps (fun _ : Unit => does) guar () (fun _ _ => True) w)
    (hguar : ∀ w w', inv w → guar () w w' → inv w') (hstart : inv start)
    (h : Moment does programs start w rest) :
    inv w ∧ ∀ p, rest = some p → p.Keeps (fun _ : Unit => does) guar () (fun _ _ => True) w := by
  induction h with
  | start => exact ⟨hstart, nofun⟩
  | enter _ hp ih =>
    refine ⟨ih.1, ?_⟩
    rintro q ⟨⟩
    exact hkeeps _ hp _ ih.1
  | perform _ hdoes ih =>
    obtain ⟨hinv, hrest⟩ := ih
    obtain ⟨hstep, hnext⟩ := hrest _ rfl _ .refl _ _ hdoes
    refine ⟨hguar _ _ hinv hstep, ?_⟩
    rintro q ⟨⟩
    exact hnext
  | leave _ ih => exact ⟨ih.1, nofun⟩

theorem keeps_of_moment {rest : Option (Prog Op Ans ε α)}
    (hkeeps : ∀ p ∈ programs, ∀ w, p.Keeps (fun _ : Unit => does) guar () (fun _ _ => True) w)
    (h : Moment does programs start w rest) :
    ∀ p, rest = some p → p.Keeps (fun _ : Unit => does) guar () (fun _ _ => True) w :=
  (inv_and_keeps_of_moment (fun _ => True) (fun p hp w _ => hkeeps p hp w)
    (fun _ _ _ _ => trivial) trivial h).2

theorem moment_of_exec {p : Prog Op Ans ε α} {r : Except ε α} (hp : p ∈ programs)
    (h : Moment does programs start w none) (hexec : Exec does p w r w') :
    Moment does programs start w' none := by
  have hrun : ∀ p w, Moment does programs start w (some p) → ∀ r w', Exec does p w r w' →
      Moment does programs start w' none := by
    intro p
    induction p with
    | done r =>
      intro w h r' w' hexec
      obtain ⟨-, rfl⟩ := exec_done hexec
      exact .leave h
    | perform op next ih =>
      intro w h r w' hexec
      obtain ⟨a, mid, hdoes, hnext⟩ := exec_perform hexec
      exact ih a mid (.perform h hdoes) r w' hnext
  exact hrun p w (.enter h hp) r w' hexec

theorem step_of_moment {op : Op} {next : Ans op → Prog Op Ans ε α} {a : Ans op}
    (hkeeps : ∀ p ∈ programs, ∀ w, p.Keeps (fun _ : Unit => does) guar () (fun _ _ => True) w)
    (h : Moment does programs start w (some (perform op next))) (hdoes : does w op a w') :
    guar () w w' :=
  (keeps_of_moment hkeeps h _ rfl _ .refl _ _ hdoes).1

theorem inv_of_moment (inv : W → Prop) {rest : Option (Prog Op Ans ε α)}
    (hkeeps : ∀ p ∈ programs, ∀ w, p.Keeps (fun _ : Unit => does) guar () (fun _ _ => True) w)
    (hguar : ∀ w w', inv w → guar () w w' → inv w') (hstart : inv start)
    (h : Moment does programs start w rest) : inv w :=
  (inv_and_keeps_of_moment inv (fun p hp w _ => hkeeps p hp w) hguar hstart h).1

end Guaranteed

section Calm

variable (failed : (op : Op) → Ans op → Prop) (does : W → (op : Op) → Ans op → W → Prop)

/-- An answer that is a failure only where every answer is. -/
def Fine (w : W) (op : Op) (a : Ans op) : Prop :=
  failed op a → ∀ a' w', does w op a' w' → failed op a'

variable {failed does}

theorem exists_fine (htotal : ∀ w op, ∃ a w', does w op a w') (w : W) (op : Op) :
    ∃ a w', does w op a w' ∧ Fine failed does w op a := by
  by_cases h : ∃ a w', does w op a w' ∧ ¬failed op a
  · obtain ⟨a, w', hdoes, hfailed⟩ := h
    exact ⟨a, w', hdoes, fun hf => absurd hf hfailed⟩
  · obtain ⟨a, w', hdoes⟩ := htotal w op
    refine ⟨a, w', hdoes, fun _ a' w'' hdoes' => ?_⟩
    by_contra hfailed
    exact h ⟨a', w'', hdoes', hfailed⟩

theorem exec_exists (htotal : ∀ w op, ∃ a w', does w op a w') (p : Prog Op Ans ε α) (w : W) :
    ∃ r w', Exec does p w r w' := by
  induction p generalizing w with
  | done r => exact ⟨r, w, .done⟩
  | perform op next ih =>
    obtain ⟨a, mid, hdoes⟩ := htotal w op
    obtain ⟨r, w', hexec⟩ := ih a mid
    exact ⟨r, w', .perform hdoes hexec⟩

end Calm

end Prog

end SharedInfra.Effects
