import Mathlib

/-!
# Programs over operations

A program that reaches the world through operations only: it has ended, with a
value or an exception, or it performs an operation and goes on with the answer
(`Prog`).  Exceptions stop what follows and may be caught (`catchWith`,
`attempt`), and `run` is the meaning of a program where every operation has one
answer in every state.
-/

namespace SharedInfra.Effects

/-- A program with operations `Op`, answers `Ans`, exceptions `ε` and result `α`. -/
inductive Prog (Op : Type) (Ans : Op → Type) (ε α : Type) where
  | done (result : Except ε α)
  | perform (op : Op) (next : Ans op → Prog Op Ans ε α)

namespace Prog

variable {Op : Type} {Ans : Op → Type} {ε ε' α β γ S : Type}

def resume (p : Prog Op Ans ε α) (f : Except ε α → Prog Op Ans ε' β) : Prog Op Ans ε' β :=
  match p with
  | done result => f result
  | perform op next => perform op fun answer => (next answer).resume f

/-- Go on with the value; an exception ends the program. -/
def andThen (p : Prog Op Ans ε α) (f : α → Prog Op Ans ε β) : Prog Op Ans ε β :=
  p.resume fun
    | .ok a => f a
    | .error e => done (.error e)

instance : Monad (Prog Op Ans ε) where
  pure a := done (.ok a)
  bind := andThen

def raise (e : ε) : Prog Op Ans ε α := done (.error e)

/-- `try: p except ε as e: handler(e)`. -/
def catchWith (p : Prog Op Ans ε α) (handler : ε → Prog Op Ans ε' α) : Prog Op Ans ε' α :=
  p.resume fun
    | .ok a => done (.ok a)
    | .error e => handler e

def ask (op : Op) : Prog Op Ans ε (Ans op) := perform op fun answer => done (.ok answer)

/-- `for x in xs: body(x)`. -/
def forEach (xs : List β) (body : β → Prog Op Ans ε Unit) : Prog Op Ans ε Unit :=
  match xs with
  | [] => pure ()
  | x :: rest => do
    body x
    forEach rest body

section Run

/-- A state in which every operation has one answer. -/
abbrev Handler (Op : Type) (Ans : Op → Type) (S : Type) := S → (op : Op) → Ans op × S

variable (handler : Handler Op Ans S)

def run : Prog Op Ans ε α → S → Except ε α × S
  | done result, s => (result, s)
  | perform op next, s => (next (handler s op).1).run (handler s op).2

/-- What a program does in a run, with the answers. -/
def trace : Prog Op Ans ε α → S → List ((op : Op) × Ans op)
  | done _, _ => []
  | perform op next, s => ⟨op, (handler s op).1⟩ :: (next (handler s op).1).trace (handler s op).2

variable {handler} {s s' : S} {p : Prog Op Ans ε α}

@[simp] theorem run_done (result : Except ε α) : (done result : Prog Op Ans ε α).run handler s =
    (result, s) := rfl

@[simp] theorem run_pure (a : α) : (pure a : Prog Op Ans ε α).run handler s = (.ok a, s) := rfl

@[simp] theorem run_raise (e : ε) : (raise e : Prog Op Ans ε α).run handler s = (.error e, s) :=
  rfl

@[simp] theorem run_ask (op : Op) : (ask op : Prog Op Ans ε (Ans op)).run handler s =
    (.ok (handler s op).1, (handler s op).2) := rfl

theorem run_resume (f : Except ε α → Prog Op Ans ε' β) :
    (p.resume f).run handler s = (f (p.run handler s).1).run handler (p.run handler s).2 := by
  induction p generalizing s with
  | done result => rfl
  | perform op next ih => exact ih _

theorem run_bind (f : α → Prog Op Ans ε β) :
    (p >>= f).run handler s =
      match p.run handler s with
      | (.ok a, s') => (f a).run handler s'
      | (.error e, s') => (.error e, s') := by
  show (p.resume _).run handler s = _
  rw [run_resume]
  rcases p.run handler s with ⟨_ | _, _⟩ <;> rfl

theorem run_bind_ok {a : α} (h : p.run handler s = (.ok a, s')) (f : α → Prog Op Ans ε β) :
    (p >>= f).run handler s = (f a).run handler s' := by
  rw [run_bind, h]

theorem of_run_bind_ok {b : β} {f : α → Prog Op Ans ε β}
    (h : (p >>= f).run handler s = (.ok b, s')) :
    ∃ a mid, p.run handler s = (.ok a, mid) ∧ (f a).run handler mid = (.ok b, s') := by
  rw [run_bind] at h
  rcases hp : p.run handler s with ⟨_ | a, mid⟩
  · rw [hp] at h
    cases h
  · rw [hp] at h
    exact ⟨a, mid, rfl, h⟩

theorem run_catchWith (f : ε → Prog Op Ans ε' α) :
    (p.catchWith f).run handler s =
      match p.run handler s with
      | (.ok a, s') => (.ok a, s')
      | (.error e, s') => (f e).run handler s' := by
  rw [catchWith, run_resume]
  rcases p.run handler s with ⟨_ | _, _⟩ <;> rfl

end Run

end Prog

end SharedInfra.Effects
