import SharedInfra.Effects.Exec

/-!
# A run that may be cut off

Where every operation has one answer, a run goes through fixed states (`stops`), in
any of which it may be cut off.  `Along` judges a whole run: each operation is
performed in a state that allows it, and the end satisfies a postcondition.  So it
tells of the states that a cut-off run leaves (`Along.stop`), of the operations
performed (`Along.performed`) and of the end (`Along.ends`).  `after` is the state that
a run is in after a number of operations.
-/

namespace SharedInfra.Effects

namespace Prog

variable {Op : Type} {Ans : Op → Type} {ε ε' α β S : Type}

section Along

variable (handler : Handler Op Ans S)
variable {f : Except ε α → Prog Op Ans ε' β}

/-- The states of a run, in any of which it may have been cut off. -/
def stops : Prog Op Ans ε α → S → List S
  | done _, s => [s]
  | perform op next, s => s :: (next (handler s op).1).stops (handler s op).2

variable (step : S → Op → Prop)

/-- Each operation is performed in a state that allows it, and the end satisfies `Q`. -/
def Along (Q : Except ε α → S → Prop) : Prog Op Ans ε α → S → Prop
  | done r, s => Q r s
  | perform op next, s => step s op ∧ Along Q (next (handler s op).1) (handler s op).2

variable {handler step} {step' : S → Op → Prop} {p : Prog Op Ans ε α} {s s' : S}
  {Q Q' : Except ε α → S → Prop}

theorem Along.mono (h : p.Along handler step Q s) (hstep : ∀ s op, step s op → step' s op)
    (hpost : ∀ r s, Q r s → Q' r s) : p.Along handler step' Q' s := by
  induction p generalizing s with
  | done r => exact hpost r s h
  | perform op next ih => exact ⟨hstep s op h.1, ih _ h.2⟩

theorem Along.weaken (h : p.Along handler step Q s) (hpost : ∀ r s, Q r s → Q' r s) :
    p.Along handler step Q' s :=
  h.mono (fun _ _ hstep => hstep) hpost

theorem Along.resume {R : Except ε' β → S → Prop}
    (h : p.Along handler step Q s)
    (hf : ∀ r s', Q r s' → (f r).Along handler step R s') :
    (p.resume f).Along handler step R s := by
  induction p generalizing s with
  | done r => exact hf r s h
  | perform op next ih => exact ⟨h.1, ih _ h.2⟩

theorem Along.bind {f : α → Prog Op Ans ε β} {R : Except ε β → S → Prop}
    (h : p.Along handler step Q s)
    (hok : ∀ a s', Q (.ok a) s' → (f a).Along handler step R s')
    (herror : ∀ e s', Q (.error e) s' → R (.error e) s') :
    (p >>= f).Along handler step R s :=
  Along.resume h fun r s' hpost =>
    match r with
    | .ok a => hok a s' hpost
    | .error e => herror e s' hpost

theorem Along.catchWith {f : ε → Prog Op Ans ε' α} {R : Except ε' α → S → Prop}
    (h : p.Along handler step Q s) (hok : ∀ a s', Q (.ok a) s' → R (.ok a) s')
    (herror : ∀ e s', Q (.error e) s' → (f e).Along handler step R s') :
    (p.catchWith f).Along handler step R s :=
  Along.resume h fun r s' hpost =>
    match r with
    | .ok a => hok a s' hpost
    | .error e => herror e s' hpost

theorem along_ask_bind {op : Op} {f : Ans op → Prog Op Ans ε α} (hstep : step s op)
    (h : (f (handler s op).1).Along handler step Q (handler s op).2) :
    (ask op >>= f).Along handler step Q s :=
  ⟨hstep, h⟩

theorem Along.finally_ {last : Prog Op Ans ε Unit} (h : p.Along handler step Q s)
    (hlast : ∀ r s', Q r s' → last.Along handler step (fun r' s'' => r' = .ok () ∧ Q' r s'') s') :
    (p.finally_ last).Along handler step Q' s := by
  refine Along.resume h fun r s' hpost => Along.resume (hlast r s' hpost) fun r' s'' hlast' => ?_
  obtain ⟨rfl, hpost'⟩ := hlast'
  exact hpost'

theorem along_forEach {xs : List β} {body : β → Prog Op Ans ε Unit} {I : List β → S → Prop}
    (hbody : ∀ x rest s, I (x :: rest) s →
      (body x).Along handler step (fun r s' => r = .ok () ∧ I rest s') s)
    (hs : I xs s) :
    (forEach xs body).Along handler step (fun r s' => r = .ok () ∧ I [] s') s := by
  induction xs generalizing s with
  | nil => exact ⟨rfl, hs⟩
  | cons x xs ih =>
    refine Along.bind (hbody x xs s hs) (fun _ s' h => ih h.2) fun e s' h => ?_
    cases h.1

theorem Along.ends (h : p.Along handler step Q s) :
    Q (p.run handler s).1 (p.run handler s).2 := by
  induction p generalizing s with
  | done r => exact h
  | perform op next ih => exact ih _ h.2

theorem Along.run (h : p.Along handler step Q s) :
    p.Along handler step (fun r s' => Q r s' ∧ p.run handler s = (r, s')) s := by
  induction p generalizing s with
  | done r => exact ⟨h, rfl⟩
  | perform op next ih => exact ⟨h.1, ih _ h.2⟩

theorem Along.stop (h : p.Along handler step Q s) (hs' : s' ∈ p.stops handler s) :
    (∃ op, step s' op) ∨ ∃ r, Q r s' := by
  induction p generalizing s with
  | done r =>
    obtain rfl := List.mem_singleton.mp hs'
    exact Or.inr ⟨r, h⟩
  | perform op next ih =>
    rcases List.mem_cons.mp hs' with rfl | hs'
    · exact Or.inl ⟨op, h.1⟩
    · exact ih _ h.2 hs'

theorem mem_stops_start : s ∈ p.stops handler s := by
  cases p with
  | done r => exact List.mem_singleton.mpr rfl
  | perform op next => exact List.mem_cons_self

theorem mem_stops_resume
    (h : s' ∈ (f (p.run handler s).1).stops handler (p.run handler s).2) :
    s' ∈ (p.resume f).stops handler s := by
  induction p generalizing s with
  | done r => exact h
  | perform op next ih => exact List.mem_cons_of_mem _ (ih _ h)

theorem mem_stops_resume_left (h : s' ∈ p.stops handler s) :
    s' ∈ (p.resume f).stops handler s := by
  induction p generalizing s with
  | done r =>
    obtain rfl := List.mem_singleton.mp h
    exact mem_stops_start
  | perform op next ih =>
    rcases List.mem_cons.mp h with rfl | h
    · exact List.mem_cons_self
    · exact List.mem_cons_of_mem _ (ih _ h)

theorem mem_stops_bind {a : α} {t : S} {f : α → Prog Op Ans ε β}
    (hp : p.run handler s = (.ok a, t)) (h : s' ∈ (f a).stops handler t) :
    s' ∈ (p >>= f).stops handler s := by
  refine mem_stops_resume ?_
  rw [hp]
  exact h

theorem Along.performed (h : p.Along handler step Q s) {x : (op : Op) × Ans op}
    (hx : x ∈ p.trace handler s) : ∃ s', step s' x.1 := by
  induction p generalizing s with
  | done r => cases hx
  | perform op next ih =>
    rcases List.mem_cons.mp hx with rfl | hx
    · exact ⟨s, h.1⟩
    · exact ih _ h.2 hx

end Along

section After

variable (handler : Handler Op Ans S)

/-- The state after some operations, or at the end if there are no more. -/
def after : Nat → Prog Op Ans ε α → S → S
  | 0, _, s => s
  | _ + 1, done _, s => s
  | n + 1, perform op next, s => (next (handler s op).1).after n (handler s op).2

variable {handler} {s s' : S} {p : Prog Op Ans ε α}

theorem after_done (n : Nat) (r : Except ε α) :
    (done r : Prog Op Ans ε α).after handler n s = s := by
  cases n <;> rfl

theorem exists_after_run : ∃ n, (p.run handler s).2 = p.after handler n s := by
  induction p generalizing s with
  | done r => exact ⟨0, rfl⟩
  | perform op next ih =>
    obtain ⟨n, hn⟩ := ih (handler s op).1 (s := (handler s op).2)
    exact ⟨n + 1, hn⟩

theorem trace_resume (f : Except ε α → Prog Op Ans ε' β) :
    (p.resume f).trace handler s =
      p.trace handler s ++ (f (p.run handler s).1).trace handler (p.run handler s).2 := by
  induction p generalizing s with
  | done r => rfl
  | perform op next ih => exact congrArg _ (ih _)

theorem trace_bind_ok {a : α} (h : p.run handler s = (.ok a, s')) (f : α → Prog Op Ans ε β) :
    (p >>= f).trace handler s = p.trace handler s ++ (f a).trace handler s' := by
  show (p.resume _).trace handler s = _
  rw [trace_resume, h]

end After

end Prog

end SharedInfra.Effects
