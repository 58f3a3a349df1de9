import SharedInfra.Effects.Interleave

/-!
# Rely and guarantee

Programs over one world, each of which promises something of every step it takes
(`guar`).  A program keeps its promise, and ends where it says it does, if it does
so whatever the others do between its operations within their promises (`Keeps`).
Programs that all keep theirs keep them in every interleaving, crashes included
(`keeps_of_runs`, `steps_of_runs`).
-/

namespace SharedInfra.Effects

namespace Prog

open Relation

variable {Op : Type} {Ans : Op → Type} {ε ε' α β W ι : Type}

section Keeps

variable (does : ι → W → (op : Op) → Ans op → W → Prop) (guar : ι → W → W → Prop) (i : ι)

def Other (w w' : W) : Prop := ∃ j, j ≠ i ∧ guar j w w'

/-- What no step of another program undoes. -/
def Stable (fact : W → Prop) : Prop := ∀ w w', fact w → Other guar i w w' → fact w'

/-- Whatever the others do in between, every operation is a step the program guarantees and
`post` holds at the end. -/
def Keeps (post : Except ε α → W → Prop) : Prog Op Ans ε α → W → Prop
  | done r, w => post r w
  | perform op next, w => ∀ w₁, ReflTransGen (Other guar i) w w₁ → ∀ a w₂, does i w₁ op a w₂ →
      guar i w₁ w₂ ∧ Keeps post (next a) w₂

variable {does guar i} {fact : W → Prop} {p : Prog Op Ans ε α} {w w' : W}
  {post post' : Except ε α → W → Prop}

theorem Stable.after (h : Stable guar i fact) (hw : fact w)
    (hsteps : ReflTransGen (Other guar i) w w') : fact w' := by
  induction hsteps with
  | refl => exact hw
  | tail _ hstep ih => exact h _ _ ih hstep

theorem Keeps.mono (h : p.Keeps does guar i post w) (hpost : ∀ r w, post r w → post' r w) :
    p.Keeps does guar i post' w := by
  induction p generalizing w with
  | done r => exact hpost r w h
  | perform op next ih =>
    intro w₁ hothers a w₂ hdoes
    obtain ⟨hguar, hnext⟩ := h w₁ hothers a w₂ hdoes
    exact ⟨hguar, ih a hnext⟩

theorem Keeps.resume {f : Except ε α → Prog Op Ans ε' β} {postf : Except ε' β → W → Prop}
    (h : p.Keeps does guar i post w) (hf : ∀ r w, post r w → (f r).Keeps does guar i postf w) :
    (p.resume f).Keeps does guar i postf w := by
  induction p generalizing w with
  | done r => exact hf r w h
  | perform op next ih =>
    intro w₁ hothers a w₂ hdoes
    obtain ⟨hguar, hnext⟩ := h w₁ hothers a w₂ hdoes
    exact ⟨hguar, ih a hnext⟩

theorem Keeps.bind {f : α → Prog Op Ans ε β} {postf : Except ε β → W → Prop}
    (h : p.Keeps does guar i post w)
    (hok : ∀ a w, post (.ok a) w → (f a).Keeps does guar i postf w)
    (herror : ∀ e w, post (.error e) w → postf (.error e) w) :
    (p >>= f).Keeps does guar i postf w :=
  Keeps.resume h fun r w hpost =>
    match r with
    | .ok a => hok a w hpost
    | .error e => herror e w hpost

theorem keeps_ask {op : Op} {post : Except ε (Ans op) → W → Prop} (hstable : Stable guar i fact)
    (hw : fact w)
    (hop : ∀ w₁ a w₂, fact w₁ → does i w₁ op a w₂ → guar i w₁ w₂ ∧ post (.ok a) w₂) :
    (ask op : Prog Op Ans ε (Ans op)).Keeps does guar i post w :=
  fun w₁ hothers a w₂ hdoes => hop w₁ a w₂ (hstable.after hw hothers) hdoes

theorem keeps_forEach {γ : Type} {xs : List γ} {body : γ → Prog Op Ans ε Unit}
    {post : Except ε Unit → W → Prop}
    (hbody : ∀ x ∈ xs, ∀ w, post (.ok ()) w → (body x).Keeps does guar i post w)
    (hw : post (.ok ()) w) : (forEach xs body).Keeps does guar i post w := by
  induction xs generalizing w with
  | nil => exact hw
  | cons x xs ih =>
    refine (hbody x List.mem_cons_self w hw).bind (fun _ w' hpost => ?_) fun _ _ hpost => hpost
    exact ih (fun y hy => hbody y (List.mem_cons_of_mem _ hy)) hpost

theorem Keeps.after (h : p.Keeps does guar i post w) (hpost : ∀ r, Stable guar i (post r))
    (hstep : Other guar i w w') : p.Keeps does guar i post w' := by
  cases p with
  | done r => exact hpost r w w' h hstep
  | perform op next => exact fun w₁ hothers => h w₁ (.head hstep hothers)

end Keeps

section Interleaved

variable [DecidableEq ι] {does : ι → W → (op : Op) → Ans op → W → Prop} {crashed : ι → W → W}
  {guar : ι → W → W → Prop} {post : ι → Except ε α → W → Prop} {start c : Config Op Ans ε α W ι}
  {events : List (Event Op Ans ι)}

theorem keeps_of_runs (hcrash : ∀ i w, guar i w (crashed i w))
    (hpost : ∀ i r, Stable guar i (post i r))
    (hstart : ∀ i p, start.rest i = some p → p.Keeps does guar i (post i) start.world)
    (h : Runs does crashed start events c) :
    ∀ i p, c.rest i = some p → p.Keeps does guar i (post i) c.world := by
  induction h with
  | start => exact hstart
  | @perform events c i op next a w h hrest hdoes ih =>
    have hstep := ih i _ hrest c.world .refl a w hdoes
    intro k p hp
    by_cases hk : k = i
    · subst hk
      simp only [Function.update_self, Option.some.injEq] at hp
      exact hp ▸ hstep.2
    · simp only [Function.update_of_ne hk] at hp
      exact (ih k p hp).after (hpost k) ⟨i, Ne.symm hk, hstep.1⟩
  | @crash events c i h ih =>
    intro k p hp
    by_cases hk : k = i
    · subst hk
      simp [Function.update_self] at hp
    · simp only [Function.update_of_ne hk] at hp
      exact (ih k p hp).after (hpost k) ⟨i, Ne.symm hk, hcrash i c.world⟩

theorem steps_of_runs (hcrash : ∀ i w, guar i w (crashed i w))
    (hpost : ∀ i r, Stable guar i (post i r))
    (hstart : ∀ i p, start.rest i = some p → p.Keeps does guar i (post i) start.world)
    (h : Runs does crashed start events c) :
    ReflTransGen (fun w w' => ∃ i, guar i w w') start.world c.world := by
  induction h with
  | start => exact .refl
  | @perform events c i op next a w h hrest hdoes ih =>
    have hkeeps := keeps_of_runs hcrash hpost hstart h i _ hrest
    exact ih.tail ⟨i, (hkeeps c.world .refl a w hdoes).1⟩
  | @crash events c i h ih => exact ih.tail ⟨i, hcrash i c.world⟩

end Interleaved

end Prog

end SharedInfra.Effects
