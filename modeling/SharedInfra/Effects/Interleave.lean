import SharedInfra.Effects.Exec

/-!
# Interleaved programs and a lock

Several programs run over one world, an operation at a time in any order, and
each may stop for good between two of its operations (`Runs`).  What a program
keeps in its own history it keeps in every interleaving (`guard_of_runs`), and
where the world has a lock that one program can hold, what programs do only while
they hold it does not overlap (`exclusive`).
-/

namespace SharedInfra.Effects

namespace Prog

variable {Op : Type} {Ans : Op → Type} {ε α W ι : Type} [DecidableEq ι]

/-- The world and what is left of each program; a program that stopped has nothing left. -/
structure Config (Op : Type) (Ans : Op → Type) (ε α W ι : Type) where
  world : W
  rest : ι → Option (Prog Op Ans ε α)

/-- One operation of one program, with its answer. -/
abbrev Event (Op : Type) (Ans : Op → Type) (ι : Type) := ι × ((op : Op) × Ans op)

/-- What one program did, of what all did. -/
def own (i : ι) (events : List (Event Op Ans ι)) : History Op Ans :=
  events.filterMap fun e => if e.1 = i then some e.2 else none

variable (does : ι → W → (op : Op) → Ans op → W → Prop) (crashed : ι → W → W)

/-- The runs of several programs: from where, what was done, to where. -/
inductive Runs (start : Config Op Ans ε α W ι) :
    List (Event Op Ans ι) → Config Op Ans ε α W ι → Prop where
  | start : Runs start [] start
  | perform {events : List (Event Op Ans ι)} {c : Config Op Ans ε α W ι} {i : ι} {op : Op}
      {next : Ans op → Prog Op Ans ε α} {a : Ans op} {w : W} (h : Runs start events c)
      (hrest : c.rest i = some (.perform op next)) (hdoes : does i c.world op a w) :
      Runs start (events ++ [(i, ⟨op, a⟩)])
        ⟨w, Function.update c.rest i (some (next a))⟩
  | crash {events : List (Event Op Ans ι)} {c : Config Op Ans ε α W ι} {i : ι}
      (h : Runs start events c) :
      Runs start events ⟨crashed i c.world, Function.update c.rest i none⟩

variable {does crashed} {start c : Config Op Ans ε α W ι} {events : List (Event Op Ans ι)} {i j : ι}

theorem own_append (events more : List (Event Op Ans ι)) :
    own i (events ++ more) = own i events ++ own i more := List.filterMap_append

@[simp] theorem own_self (e : (op : Op) × Ans op) : own i [(i, e)] = [e] := by
  simp [own]

theorem own_other (h : j ≠ i) (e : (op : Op) × Ans op) : own i [(j, e)] = [] := by
  simp [own, h]

theorem own_mono {events more : List (Event Op Ans ι)} (h : events <+: more) :
    own i events <+: own i more := by
  obtain ⟨rest, rfl⟩ := h
  rw [own_append]
  exact List.prefix_append _ _

theorem runs_trace {handler : Handler Op Ans W}
    (hdoes : ∀ w op, does i w op (handler w op).1 (handler w op).2)
    {p : Prog Op Ans ε α} (h : Runs does crashed start events c) (hrest : c.rest i = some p) :
    ∃ c', Runs does crashed start (events ++ (p.trace handler c.world).map (i, ·)) c' := by
  induction p generalizing events c with
  | done r => exact ⟨c, by simpa [trace] using h⟩
  | perform op next ih =>
    obtain ⟨c', hc⟩ := ih (handler c.world op).1 (h.perform hrest (hdoes c.world op)) (by simp)
    exact ⟨c', by simpa [trace] using hc⟩

/-- The configuration after programs took turns, each operation answered by a handler. -/
def follow (handlers : ι → Handler Op Ans W) : List ι → Config Op Ans ε α W ι → Config Op Ans ε α W ι
  | [], c => c
  | i :: turns, c =>
    match c.rest i with
    | some (perform op next) =>
      follow handlers turns ⟨(handlers i c.world op).2,
        Function.update c.rest i (some (next (handlers i c.world op).1))⟩
    | _ => follow handlers turns c

theorem runs_follow {handlers : ι → Handler Op Ans W}
    (hdoes : ∀ i w op, does i w op (handlers i w op).1 (handlers i w op).2) (turns : List ι)
    (h : Runs does crashed start events c) :
    ∃ events', Runs does crashed start events' (follow handlers turns c) := by
  induction turns generalizing events c with
  | nil => exact ⟨events, h⟩
  | cons i turns ih =>
    rw [follow]
    split
    · rename_i op next hrest
      exact ih (h.perform hrest (hdoes i c.world op))
    · exact ih h

section Guard

variable {guard : History Op Ans → Op → Prop} {post : Except ε α → History Op Ans → Prop}

theorem guarded_of_runs
    (hstart : ∀ i p, start.rest i = some p → p.Guarded guard post [])
    (h : Runs does crashed start events c) :
    ∀ i p, c.rest i = some p → p.Guarded guard post (own i events) := by
  induction h with
  | start => exact hstart
  | @perform events c i op next a w h hrest hdoes ih =>
    intro k p hp
    by_cases hk : k = i
    · subst hk
      simp only [Function.update_self, Option.some.injEq] at hp
      subst hp
      rw [own_append, own_self]
      exact (ih k _ hrest).2 a
    · simp only [Function.update_of_ne hk] at hp
      rw [own_append, own_other (Ne.symm hk), List.append_nil]
      exact ih k p hp
  | @crash events c i h ih =>
    intro k p hp
    by_cases hk : k = i
    · subst hk
      simp [Function.update_self] at hp
    · simp only [Function.update_of_ne hk] at hp
      exact ih k p hp

theorem guard_of_runs
    (hstart : ∀ i p, start.rest i = some p → p.Guarded guard post [])
    (h : Runs does crashed start events c) :
    ∀ before after (i : ι) (op : Op) (a : Ans op), events = before ++ (i, ⟨op, a⟩) :: after →
      guard (own i before) op := by
  induction h with
  | start =>
    intro before after i op a heq
    cases before <;> cases heq
  | @perform events c i op next a w h hrest hdoes ih =>
    intro before after k op' a' heq
    rcases List.eq_nil_or_concat after with rfl | ⟨after', last, rfl⟩
    · obtain ⟨rfl, hlast⟩ := List.append_inj' heq rfl
      simp only [List.cons.injEq, and_true] at hlast
      cases hlast
      exact (guarded_of_runs hstart h i _ hrest).1
    · rw [List.concat_eq_append, ← List.cons_append, ← List.append_assoc] at heq
      exact ih before after' k op' a' (List.append_inj' heq rfl).1
  | crash h ih => exact ih

end Guard

section Lock

/-- What an operation with its answer does to the lock, seen from the program. -/
inductive LockUse where
  | take
  | free
  | keep
deriving DecidableEq

structure LockLaws (does : ι → W → (op : Op) → Ans op → W → Prop) (crashed : ι → W → W)
    (holder : W → Option ι) (use : (op : Op) → Ans op → LockUse) : Prop where
  take : ∀ i w op a w', does i w op a w' → use op a = .take → holder w = none ∧ holder w' = some i
  free : ∀ i w op a w', does i w op a w' → use op a = .free → holder w ≠ some i →
    holder w' = holder w
  keep : ∀ i w op a w', does i w op a w' → use op a = .keep → holder w' = holder w
  crash : ∀ i w, holder w ≠ some i → holder (crashed i w) = holder w

def Holding (use : (op : Op) → Ans op → LockUse) (past : History Op Ans) : Prop :=
  (∃ e ∈ past, use e.1 e.2 = .take) ∧ ∀ e ∈ past, use e.1 e.2 ≠ .free

def NotFreed (use : (op : Op) → Ans op → LockUse) (past : History Op Ans) : Prop :=
  ∀ e ∈ past, use e.1 e.2 ≠ .free

variable {holder : W → Option ι} {use : (op : Op) → Ans op → LockUse}

section Histories

variable {past : History Op Ans} {op : Op} {a : Ans op}

theorem NotFreed.append (h : NotFreed use past) (hop : use op a ≠ .free) :
    NotFreed use (past ++ [⟨op, a⟩]) := by
  intro e he
  rcases List.mem_append.mp he with he | he
  · exact h e he
  · rw [List.mem_singleton.mp he]
    exact hop

theorem NotFreed.holding (h : NotFreed use past) (hop : use op a = .take) :
    Holding use (past ++ [⟨op, a⟩]) :=
  ⟨⟨⟨op, a⟩, by simp, hop⟩, h.append (by simp [hop])⟩

theorem Holding.append (h : Holding use past) (hop : use op a ≠ .free) :
    Holding use (past ++ [⟨op, a⟩]) := by
  obtain ⟨⟨e, he, htake⟩, hfree⟩ := h
  exact ⟨⟨e, List.mem_append_left _ he, htake⟩, NotFreed.append hfree hop⟩

end Histories

theorem holder_of_holding (laws : LockLaws does crashed holder use)
    (h : Runs does crashed start events c) :
    ∀ i, (c.rest i).isSome → Holding use (own i events) → holder c.world = some i := by
  induction h with
  | start =>
    intro i _ hold
    obtain ⟨e, he, _⟩ := hold.1
    cases he
  | @perform events c i op next a w h hrest hdoes ih =>
    intro k halive hold
    by_cases hk : k = i
    · subst hk
      rw [own_append, own_self] at hold
      have hnotfree : use op a ≠ .free := hold.2 ⟨op, a⟩ (by simp)
      cases huse : use op a with
      | take => exact (laws.take k _ op a w hdoes huse).2
      | free => exact absurd huse hnotfree
      | keep =>
        have hbefore : Holding use (own k events) := by
          obtain ⟨e, he, htake⟩ := hold.1
          refine ⟨⟨e, ?_, htake⟩, fun e he => hold.2 e (List.mem_append_left _ he)⟩
          rcases List.mem_append.mp he with he | he
          · exact he
          · rw [List.mem_singleton.mp he] at htake
            simp [huse] at htake
        rw [laws.keep k _ op a w hdoes huse]
        exact ih k (by rw [hrest]; rfl) hbefore
    · simp only [Function.update_of_ne hk] at halive
      rw [own_append, own_other (Ne.symm hk), List.append_nil] at hold
      have hholder := ih k halive hold
      cases huse : use op a with
      | take =>
        rw [(laws.take i _ op a w hdoes huse).1] at hholder
        cases hholder
      | free =>
        rw [laws.free i _ op a w hdoes huse (by rw [hholder]; simpa using hk)]
        exact hholder
      | keep =>
        rw [laws.keep i _ op a w hdoes huse]
        exact hholder
  | @crash events c i h ih =>
    intro k halive hold
    by_cases hk : k = i
    · subst hk
      simp [Function.update_self] at halive
    · simp only [Function.update_of_ne hk] at halive
      have hholder := ih k halive hold
      rw [laws.crash i _ (by rw [hholder]; simpa using hk)]
      exact hholder

theorem exists_cut (h : Runs does crashed start events c) {before later : List (Event Op Ans ι)}
    (heq : events = before ++ later) :
    ∃ mid, Runs does crashed start before mid ∧ (∀ i, (c.rest i).isSome → (mid.rest i).isSome) ∧
      ∀ e ∈ later, (mid.rest e.1).isSome := by
  induction h generalizing later with
  | start =>
    obtain ⟨rfl, rfl⟩ := List.append_eq_nil_iff.mp heq.symm
    exact ⟨start, .start, fun _ h => h, by simp⟩
  | @perform events c i op next a w h hrest hdoes ih =>
    have halive : ∀ k, ((⟨w, Function.update c.rest i (some (next a))⟩ :
        Config Op Ans ε α W ι).rest k).isSome → (c.rest k).isSome := by
      intro k hk
      by_cases heq : k = i
      · rw [heq, hrest]
        rfl
      · simpa [Function.update_of_ne heq] using hk
    rcases List.eq_nil_or_concat later with rfl | ⟨later', last, rfl⟩
    · rw [List.append_nil] at heq
      exact ⟨_, heq ▸ .perform h hrest hdoes, fun _ h => h, by simp⟩
    · rw [List.concat_eq_append, ← List.append_assoc] at heq
      obtain ⟨heq, hlast⟩ := List.append_inj' heq rfl
      simp only [List.cons.injEq, and_true] at hlast
      obtain ⟨mid, hmid, hkeep, hevents⟩ := ih heq
      refine ⟨mid, hmid, fun k hk => hkeep k (halive k hk), ?_⟩
      intro e he
      rw [List.concat_eq_append] at he
      rcases List.mem_append.mp he with he | he
      · exact hevents e he
      · rw [List.mem_singleton.mp he, ← hlast]
        exact hkeep i (by rw [hrest]; rfl)
  | @crash events c i h ih =>
    obtain ⟨mid, hmid, hkeep, hevents⟩ := ih heq
    refine ⟨mid, hmid, fun k hk => hkeep k ?_, hevents⟩
    by_cases heq : k = i
    · simp [heq] at hk
    · simpa [Function.update_of_ne heq] using hk

/-- Programs that do some operations only while they hold the lock, and never again after they
freed it, do not do them in between one another. -/
theorem exclusive (laws : LockLaws does crashed holder use) {critical : Op → Prop}
    {post : Except ε α → History Op Ans → Prop}
    (hstart : ∀ i p, start.rest i = some p →
      p.Guarded (fun past op => critical op → Holding use past) post [])
    (h : Runs does crashed start events c) {first mid last : (op : Op) × Ans op}
    {before between between' after : List (Event Op Ans ι)}
    (heq : events = before ++ (i, first) :: (between ++ (j, mid) :: (between' ++ (i, last) :: after)))
    (hfirst : critical first.1) (hmid : critical mid.1) (hlast : critical last.1) : j = i := by
  have hguard := guard_of_runs hstart h
  have hi := hguard before _ i first.1 first.2 heq hfirst
  have hmidEq : events = (before ++ (i, first) :: between) ++ (j, mid) ::
      (between' ++ (i, last) :: after) := by
    rw [heq]
    simp
  have hlastEq : events = (before ++ (i, first) :: (between ++ (j, mid) :: between')) ++
      (i, last) :: after := by
    rw [heq]
    simp
  have hj := hguard _ _ j mid.1 mid.2 hmidEq hmid
  have hend := hguard _ _ i last.1 last.2 hlastEq hlast
  obtain ⟨c', hruns, _, halive⟩ := exists_cut h hmidEq
  have hholderJ := holder_of_holding laws hruns j (halive (j, mid) (by simp)) hj
  -- The first program has the lock there as well: it took it before and freed it at no time.
  have hsub : before ++ (i, first) :: between <+:
      before ++ (i, first) :: (between ++ (j, mid) :: between') :=
    ⟨(j, mid) :: between', by simp⟩
  have hholdI : Holding use (own i (before ++ (i, first) :: between)) := by
    obtain ⟨e, he, htake⟩ := hi.1
    refine ⟨⟨e, ?_, htake⟩, fun e he => hend.2 e ((own_mono hsub).subset he)⟩
    rw [own_append]
    exact List.mem_append_left _ he
  have hholderI := holder_of_holding laws hruns i (halive (i, last) (by simp)) hholdI
  rw [hholderJ, Option.some.injEq] at hholderI
  exact hholderI

end Lock

end Prog

end SharedInfra.Effects
