import SharedInfra.Effects.Program

/-!
# Executions and histories of a program

Where an operation may have several answers, a program has many executions
(`Exec`).  A program can also be judged by what it has done so far: `Guarded`
says that, whatever the answers, each operation is performed only where the
history of the program itself allows it.
-/

namespace SharedInfra.Effects

namespace Prog

variable {Op : Type} {Ans : Op → Type} {ε ε' α β W : Type}

/-- `try: p`, with the outcome as a value. -/
def attempt (p : Prog Op Ans ε α) : Prog Op Ans ε (Except ε α) := p.resume fun r => done (.ok r)

/-- `try: p finally: last`, for a `last` that returns. -/
def finally_ (p : Prog Op Ans ε α) (last : Prog Op Ans ε Unit) : Prog Op Ans ε α :=
  p.resume fun r => last.andThen fun _ => done r

section Exec

variable (does : W → (op : Op) → Ans op → W → Prop)
variable {r : Except ε α} {f : α → Prog Op Ans ε β}

/-- One execution of a program from a world to its outcome and the world it leaves. -/
inductive Exec : Prog Op Ans ε α → W → Except ε α → W → Prop where
  | done {r : Except ε α} {w : W} : Exec (done r) w r w
  | perform {op : Op} {next : Ans op → Prog Op Ans ε α} {a : Ans op} {r : Except ε α}
      {w w' w'' : W} (h : does w op a w') (hnext : Exec (next a) w' r w'') :
      Exec (perform op next) w r w''

/-- The worlds a program goes through, in the last of which it may have been stopped. -/
inductive Passes : Prog Op Ans ε α → W → W → Prop where
  | here {p : Prog Op Ans ε α} {w : W} : Passes p w w
  | perform {op : Op} {next : Ans op → Prog Op Ans ε α} {a : Ans op} {w w' w'' : W}
      (h : does w op a w') (hnext : Passes (next a) w' w'') : Passes (perform op next) w w''

variable {does} {p : Prog Op Ans ε α} {w w' : W}

theorem exec_done {r r' : Except ε α} (h : Exec does (done r) w r' w') : r' = r ∧ w' = w := by
  cases h
  exact ⟨rfl, rfl⟩

theorem exec_perform {op : Op} {next : Ans op → Prog Op Ans ε α}
    (h : Exec does (perform op next) w r w') :
    ∃ a mid, does w op a mid ∧ Exec does (next a) mid r w' := by
  cases h with
  | perform h hnext => exact ⟨_, _, h, hnext⟩

theorem exec_resume {f : Except ε α → Prog Op Ans ε' β} {r : Except ε' β}
    (h : Exec does (p.resume f) w r w') :
    ∃ r' mid, Exec does p w r' mid ∧ Exec does (f r') mid r w' := by
  induction p generalizing w with
  | done result => exact ⟨result, w, .done, h⟩
  | perform op next ih =>
    obtain ⟨a, mid, hdoes, hnext⟩ := exec_perform h
    obtain ⟨r', mid', hp, hf⟩ := ih a hnext
    exact ⟨r', mid', .perform hdoes hp, hf⟩

theorem exec_of_resume {f : Except ε α → Prog Op Ans ε' β} {r' : Except ε' β}
    {mid : W} (hp : Exec does p w r mid) (hf : Exec does (f r) mid r' w') :
    Exec does (p.resume f) w r' w' := by
  induction hp with
  | done => exact hf
  | perform hdoes _ ih => exact .perform hdoes (ih hf)

theorem exec_of_bind {a : α} {r : Except ε β} {mid : W}
    (hp : Exec does p w (.ok a) mid) (hf : Exec does (f a) mid r w') :
    Exec does (p >>= f) w r w' :=
  exec_of_resume hp hf

theorem exec_bind {r : Except ε β}
    (h : Exec does (p >>= f) w r w') :
    (∃ a mid, Exec does p w (.ok a) mid ∧ Exec does (f a) mid r w') ∨
      ∃ e, r = .error e ∧ Exec does p w (.error e) w' := by
  obtain ⟨r', mid, hp, hf⟩ := exec_resume h
  cases r' with
  | ok a => exact Or.inl ⟨a, mid, hp, hf⟩
  | error e =>
    obtain ⟨rfl, rfl⟩ := exec_done hf
    exact Or.inr ⟨e, rfl, hp⟩

theorem exec_bind_ok {b : β} (h : Exec does (p >>= f) w (.ok b) w') :
    ∃ a mid, Exec does p w (.ok a) mid ∧ Exec does (f a) mid (.ok b) w' := by
  rcases exec_bind h with hok | ⟨e, he, _⟩
  · exact hok
  · cases he

theorem exec_ask {op : Op} {r : Except ε (Ans op)} (h : Exec does (ask op) w r w') :
    ∃ a, r = .ok a ∧ does w op a w' := by
  obtain ⟨a, mid, hdoes, hnext⟩ := exec_perform h
  obtain ⟨rfl, rfl⟩ := exec_done hnext
  exact ⟨a, rfl, hdoes⟩

theorem exec_ask_bind {op : Op} {f : Ans op → Prog Op Ans ε β} {r : Except ε β}
    (h : Exec does (ask op >>= f) w r w') :
    ∃ a mid, does w op a mid ∧ Exec does (f a) mid r w' := by
  rcases exec_bind h with ⟨a, mid, hask, hf⟩ | ⟨e, _, hask⟩
  · obtain ⟨b, hb, hdoes⟩ := exec_ask hask
    cases hb
    exact ⟨a, mid, hdoes, hf⟩
  · obtain ⟨b, hb, _⟩ := exec_ask hask
    cases hb

theorem exec_finally {last : Prog Op Ans ε Unit}
    (h : Exec does (p.finally_ last) w r w') :
    ∃ r' mid, Exec does p w r' mid ∧
      ((Exec does last mid (.ok ()) w' ∧ r = r') ∨ ∃ e, Exec does last mid (.error e) w' ∧
        r = .error e) := by
  obtain ⟨r', mid, hp, hrest⟩ := exec_resume h
  refine ⟨r', mid, hp, ?_⟩
  rcases exec_bind (p := last) (f := fun _ => done r') hrest with ⟨_, m, hlast, hdone⟩ | ⟨e, hr, hlast⟩
  · obtain ⟨rfl, rfl⟩ := exec_done hdone
    exact Or.inl ⟨hlast, rfl⟩
  · exact Or.inr ⟨e, hlast, hr⟩

theorem exec_run {handler : Handler Op Ans W}
    (hdoes : ∀ w op, does w op (handler w op).1 (handler w op).2) (p : Prog Op Ans ε α) (w : W) :
    Exec does p w (p.run handler w).1 (p.run handler w).2 := by
  induction p generalizing w with
  | done r => exact .done
  | perform op next ih => exact .perform (hdoes w op) (ih _ _)

theorem passes_of_exec (h : Exec does p w r w') : Passes does p w w' := by
  induction h with
  | done => exact .here
  | perform hdoes _ ih => exact .perform hdoes ih

end Exec

section Guarded

/-- What a program has done so far. -/
abbrev History (Op : Type) (Ans : Op → Type) := List ((op : Op) × Ans op)

variable (guard : History Op Ans → Op → Prop)

/-- Whatever the answers, every operation is performed where the history allows it, and the
history at the end satisfies `post`. -/
def Guarded (post : Except ε α → History Op Ans → Prop) :
    Prog Op Ans ε α → History Op Ans → Prop
  | done r, past => post r past
  | perform op next, past => guard past op ∧ ∀ a, Guarded post (next a) (past ++ [⟨op, a⟩])

variable {guard} {p : Prog Op Ans ε α} {past : History Op Ans}
  {post post' : Except ε α → History Op Ans → Prop}

theorem Guarded.keep {guard' : History Op Ans → Op → Prop} {inv : History Op Ans → Prop}
    (hguard : ∀ past op, inv past → guard past op → guard' past op)
    (hinv : ∀ past op a, inv past → guard past op → inv (past ++ [⟨op, a⟩]))
    (h : p.Guarded guard post past) (hpast : inv past) :
    p.Guarded guard' (fun r past => post r past ∧ inv past) past := by
  induction p generalizing past with
  | done r => exact ⟨h, hpast⟩
  | perform op next ih =>
    exact ⟨hguard past op hpast h.1, fun a => ih a (h.2 a) (hinv past op a hpast h.1)⟩

theorem Guarded.resume {f : Except ε α → Prog Op Ans ε' β}
    {postf : Except ε' β → History Op Ans → Prop}
    (h : p.Guarded guard post past)
    (hf : ∀ r past, post r past → (f r).Guarded guard postf past) :
    (p.resume f).Guarded guard postf past := by
  induction p generalizing past with
  | done r => exact hf r past h
  | perform op next ih => exact ⟨h.1, fun a => ih a (h.2 a)⟩

theorem Guarded.bind {f : α → Prog Op Ans ε β} {postf : Except ε β → History Op Ans → Prop}
    (h : p.Guarded guard post past)
    (hok : ∀ a past, post (.ok a) past → (f a).Guarded guard postf past)
    (herror : ∀ e past, post (.error e) past → postf (.error e) past) :
    (p >>= f).Guarded guard postf past :=
  Guarded.resume h fun r past hpost =>
    match r with
    | .ok a => hok a past hpost
    | .error e => herror e past hpost

theorem guarded_ask_bind {op : Op} {f : Ans op → Prog Op Ans ε α} (hguard : guard past op)
    (hnext : ∀ a, (f a).Guarded guard post (past ++ [⟨op, a⟩])) :
    (ask op >>= f).Guarded guard post past :=
  ⟨hguard, hnext⟩

theorem exec_of_guarded {does : W → (op : Op) → Ans op → W → Prop} {r : Except ε α} {w w' : W}
    (inv : W → History Op Ans → Prop)
    (hstep : ∀ past op w a w', inv w past → guard past op → does w op a w' →
      inv w' (past ++ [⟨op, a⟩]))
    (hp : p.Guarded guard post past) (h : Exec does p w r w') (hinv : inv w past) :
    ∃ past', inv w' past' ∧ post r past' := by
  induction h generalizing past with
  | done => exact ⟨past, hinv, hp⟩
  | perform hdoes _ ih => exact ih (hp.2 _) (hstep _ _ _ _ _ hinv hp.1 hdoes)

theorem guarded_forEach {β : Type} {xs : List β} {body : β → Prog Op Ans ε Unit}
    {post : Except ε Unit → History Op Ans → Prop}
    (hbody : ∀ x past, post (.ok ()) past → (body x).Guarded guard post past)
    (hpast : post (.ok ()) past) : (forEach xs body).Guarded guard post past := by
  induction xs generalizing past with
  | nil => exact hpast
  | cons x xs ih =>
    exact Guarded.bind (hbody x past hpast) (fun _ past' hpost => ih hpost)
      fun e past' hpost => hpost

end Guarded

end Prog

end SharedInfra.Effects
