import SharedInfra.Deploys.PinText

/-!
# The pin file and the running stack

What every exit of `deploy` promises about the pin file and the commands that ran
(`PinSettled`), and that deploys of one stack do not get into one another's read,
write and restart.
-/

namespace SharedInfra.Deploys

open Python Effects Prog

section Exits

variable {ι : Type}

/-- Where a deploy that raises ends. -/
inductive DeployExit where
  | beforeLock
  | unreadable
  | noPrevious
  | leftInPlace
  | afterRollback
deriving DecidableEq

/-- The end that each error reports. -/
def DeployError.exit : DeployError → DeployExit
  | .unicodeDecode => .unreadable
  | .noPreviousPin _ _ => .noPrevious
  | .leftInPlaceUnchecked _ | .leftInPlaceUp _ _ => .leftInPlace
  | .rollbackFailed _ _ | .rolledBack _ _ => .afterRollback
  | _ => .beforeLock

/-- The pin file as `write_image_env` leaves it. -/
def pinOf (image : Str) : Option PinContent := some (.text (imageEnvText image))

/-- What each exit of a deploy of `image` leaves, from the world it began in. -/
structure PinSettled (image : Str) (w w' : StackWorld ι) (r : Except DeployError Unit) : Prop where
  returned : r = .ok () → currentImage w'.pin = .ok (some image) ∧
    w'.commands = w.commands ++ [.restart w'.pin 0]
  beforeLock : ∀ e, r = .error e → e.exit = .beforeLock → w'.pin = w.pin ∧ w'.commands = w.commands
  leftInPlace : ∀ e, r = .error e → e.exit = .leftInPlace → currentImage w'.pin = .ok (some image)
  rolledBack : ∀ e, r = .error e → e.exit = .afterRollback → ∃ status listing status', status ≠ 0 ∧
      w'.commands = w.commands ++
        [.restart (pinOf image) status, .dockerPs image (0, listing), .restart w'.pin status'] ∧
      ((∀ line ∈ splitlines listing, strip line = []) ∨
        ∃ line ∈ splitlines listing, containerNotUp line = true) ∧
      currentImage w'.pin = currentImage w.pin
  content : w'.pin ≠ pinOf image → (w'.pin = w.pin ∧ w'.commands = w.commands) ∨
      (currentImage w.pin = .ok none ∧ w'.pin = none) ∨
      ∃ previous, currentImage w.pin = .ok (some previous) ∧ w'.pin = pinOf previous

theorem pinnedImageIsUp_false {result : Int × Str} (h : pinnedImageIsUp result = some false) :
    result.1 = 0 ∧ ((∀ line ∈ splitlines result.2, strip line = []) ∨
      ∃ line ∈ splitlines result.2, containerNotUp line = true) := by
  unfold pinnedImageIsUp at h
  dsimp only at h
  split_ifs at h with hstatus hempty
  · refine ⟨not_not.mp hstatus, Or.inl ?_⟩
    simpa [List.filter_eq_nil_iff] using hempty
  · simp only [Option.some.injEq, Bool.not_eq_false', List.any_eq_true, List.mem_filter] at h
    obtain ⟨line, ⟨hline, _⟩, hdown⟩ := h
    exact ⟨not_not.mp hstatus, Or.inr ⟨line, hline, hdown⟩⟩

variable {i : ι} {checks : ComposeChecks} {stack image : Str} {w w' : StackWorld ι}
  {r : Except DeployError Unit}

/-- The operations of the checks, which change nothing. -/
def DeployOp.isCheck : DeployOp → Bool
  | .composeExists | .readCompose | .warn _ => true
  | _ => false

/-- What is known once the checks and the wait for the lock are over. -/
def raisedBeforeLock (r : Except DeployError Unit) : Prop :=
  ∀ e, r = .error e → e.exit = .beforeLock

theorem guarded_checkCompose :
    (checkCompose checks stack image).Guarded (fun _ op => op.isCheck = true)
      (fun r _ => raisedBeforeLock r ∧ (r = .ok () → isImageRef image = true)) [] := by
  have hraise : ∀ (e : DeployError) (past : History DeployOp DeployAnswer), e.exit = .beforeLock →
      Guarded (fun _ op => op.isCheck = true)
        (fun r _ => raisedBeforeLock r ∧ (r = .ok () → isImageRef image = true))
        (raise e : DeployProg Unit) past := by
    intro e past he
    exact ⟨fun e' he' => by cases he'; exact he, fun h => by cases h⟩
  unfold checkCompose
  split_ifs with hstack himage
  · exact hraise _ _ rfl
  · exact hraise _ _ rfl
  have hok : isImageRef image = true := by simpa using himage
  refine ⟨rfl, fun found => ?_⟩
  cases found with
  | false => exact hraise _ _ rfl
  | true =>
    refine ⟨rfl, fun text => ?_⟩
    show Guarded _ _ (if !checks.resolvesImageFromEnv text then _ else _) _
    split_ifs
    · exact hraise _ _ rfl
    · exact hraise _ _ rfl
    · split
      · exact ⟨rfl, fun _ => ⟨fun _ he => (by cases he), fun _ => hok⟩⟩
      · rename_i refused warned _
        split_ifs
        · exact guarded_forEach (fun _ _ h => ⟨rfl, fun _ => h⟩) ⟨fun _ he => (by cases he), fun _ => hok⟩
        · exact hraise _ _ rfl

theorem exec_checkCompose (h : Exec (Does i) (checkCompose checks stack image) w r w') :
    w' = w ∧ raisedBeforeLock r ∧ (r = .ok () → isImageRef image = true) := by
  obtain ⟨_, hw, hpost⟩ := exec_of_guarded (fun v _ => v = w)
    (fun past op v a v' hv hcheck hdoes => by
      subst hv
      cases hdoes <;> first | rfl | cases hcheck)
    guarded_checkCompose h rfl
  exact ⟨hw, hpost⟩

theorem exec_acquireLock {turns : Nat} (h : Exec (Does i) (acquireLock stack turns) w r w') :
    w'.pin = w.pin ∧ w'.commands = w.commands ∧ raisedBeforeLock r := by
  have hok : raisedBeforeLock (.ok ()) := fun _ he => (by cases he)
  induction turns generalizing w with
  | zero =>
    obtain ⟨got, mid, hdoes, hrest⟩ := exec_ask_bind h
    cases hdoes with
    | locked =>
      obtain ⟨rfl, rfl⟩ := exec_done hrest
      exact ⟨rfl, rfl, hok⟩
    | busy =>
      obtain ⟨rfl, rfl⟩ := exec_done hrest
      exact ⟨rfl, rfl, fun e he => by cases he; rfl⟩
  | succ turns ih =>
    obtain ⟨got, mid, hdoes, hrest⟩ := exec_ask_bind h
    cases hdoes with
    | locked =>
      obtain ⟨rfl, rfl⟩ := exec_done hrest
      exact ⟨rfl, rfl, hok⟩
    | busy =>
      obtain ⟨_, mid, hsleep, hrest⟩ := exec_ask_bind hrest
      cases hsleep
      exact ih hrest

theorem exec_rollBack {previous : Str} {status : Int} (earlier : List Ran)
    (hpin : w.pin = pinOf image)
    (hcommands : w.commands = earlier ++ [.restart (pinOf image) status])
    (h : Exec (Does i) (rollBack stack image previous) w r w') :
    (∃ e, r = .error e ∧ e.exit = .leftInPlace ∧ w'.pin = pinOf image) ∨
      ∃ e, r = .error e ∧ e.exit = .afterRollback ∧ w'.pin = pinOf previous ∧
        ∃ listing status', pinnedImageIsUp listing = some false ∧
          w'.commands = earlier ++ [.restart (pinOf image) status, .dockerPs image listing,
            .restart (pinOf previous) status'] := by
  obtain ⟨listing, mid, hps, hrest⟩ := exec_ask_bind h
  cases hps
  cases hup : pinnedImageIsUp listing with
  | none =>
    simp only [hup] at hrest
    obtain ⟨rfl, rfl⟩ := exec_done hrest
    exact Or.inl ⟨_, rfl, rfl, hpin⟩
  | some up =>
    cases up with
    | true =>
      simp only [hup] at hrest
      obtain ⟨rfl, rfl⟩ := exec_done hrest
      exact Or.inl ⟨_, rfl, rfl, hpin⟩
    | false =>
      simp only [hup] at hrest
      obtain ⟨_, mid, hwrite, hrest⟩ := exec_ask_bind hrest
      cases hwrite
      obtain ⟨_, mid, hlog, hrest⟩ := exec_ask_bind hrest
      cases hlog
      obtain ⟨status', mid, hrestart, hrest⟩ := exec_ask_bind hrest
      cases hrestart
      split_ifs at hrest
      all_goals
        obtain ⟨rfl, rfl⟩ := exec_done hrest
        exact Or.inr ⟨_, rfl, rfl, rfl, listing, status', hup, by simp [hcommands, pinOf]⟩

theorem exec_readWriteRestart (himage : IsPin image)
    (h : Exec (Does i) (readWriteRestart stack image) w r w') : PinSettled image w w' r := by
  have hreads := currentImage_imageEnvText himage
  obtain ⟨raw, mid, hread, hbody⟩ := exec_ask_bind h
  cases hread
  rcases exec_bind hbody with ⟨previous, mid, hdone, hwritten⟩ | ⟨e, rfl, hdone⟩
  · obtain ⟨hprevious, rfl⟩ := exec_done hdone
    obtain ⟨_, mid', hwrite, hrestarted⟩ := exec_ask_bind hwritten
    cases hwrite
    obtain ⟨status, mid', hrestart, hrest⟩ := exec_ask_bind hrestarted
    cases hrestart
    split_ifs at hrest with hstatus
    · obtain ⟨rfl, rfl⟩ := exec_done hrest
      refine ⟨fun _ => ⟨hreads, by simp [hstatus]⟩, ?_, ?_, ?_, fun hne => absurd rfl hne⟩
      all_goals exact fun _ he => (by cases he)
    · cases previous with
      | none =>
        obtain ⟨_, mid', hunlink, hraise⟩ := exec_ask_bind hrest
        cases hunlink
        obtain ⟨rfl, rfl⟩ := exec_done hraise
        refine ⟨fun hr => (by cases hr), ?_, ?_, ?_, fun _ => Or.inr (Or.inl ⟨hprevious.symm, rfl⟩)⟩
        all_goals
          rintro _ ⟨⟩ he
          cases he
      | some previous =>
        have hback := currentImage_imageEnvText (isPin_of_currentImage hprevious.symm)
        rcases exec_rollBack mid.commands rfl rfl hrest with
          ⟨e, rfl, hleft, hpin⟩ | ⟨e, rfl, hafter, hpin, listing, status', hdown, hcommands⟩
        · refine ⟨fun hr => (by cases hr), ?_, fun _ _ _ => by rw [hpin]; exact hreads, ?_,
            fun hne => absurd hpin hne⟩
          all_goals
            rintro _ ⟨⟩ he
            cases hleft.symm.trans he
        · refine ⟨fun hr => (by cases hr), ?_, ?_, fun e' he' _ => ?_,
            fun _ => Or.inr (Or.inr ⟨previous, hprevious.symm, hpin⟩)⟩
          · rintro _ ⟨⟩ he
            cases hafter.symm.trans he
          · rintro _ ⟨⟩ he
            cases hafter.symm.trans he
          · obtain ⟨hzero, hlines⟩ := pinnedImageIsUp_false hdown
            refine ⟨status, listing.2, status', hstatus, ?_, hlines, ?_⟩
            · rw [hcommands, hpin, ← hzero]
            · rw [hpin, ← hprevious]
              exact hback
  · obtain ⟨he, rfl⟩ := exec_done hdone
    have hkind : e = .unicodeDecode := by
      unfold currentImage at he
      split at he <;> cases he
      rfl
    subst hkind
    refine ⟨fun hr => (by cases hr), ?_, ?_, ?_, fun _ => Or.inl ⟨rfl, rfl⟩⟩
    all_goals
      rintro _ ⟨⟩ he
      cases he

theorem pinSettled_of_beforeLock (hpin : w'.pin = w.pin) (hcommands : w'.commands = w.commands)
    (hr : raisedBeforeLock r) (hne : r ≠ .ok ()) : PinSettled image w w' r := by
  refine ⟨fun h => absurd h hne, fun _ _ _ => ⟨hpin, hcommands⟩, fun e he hexit => ?_,
    fun e he hexit => ?_, fun _ => Or.inl ⟨hpin, hcommands⟩⟩
  · cases (hr e he).symm.trans hexit
  · cases (hr e he).symm.trans hexit

theorem exec_unlock {op : DeployOp} (hop : op = .unlock ∨ op = .closeLock) {r' : Except DeployError _}
    (h : Exec (Does i) (ask op : Prog DeployOp DeployAnswer DeployError (DeployAnswer op)) w r' w') :
    w'.pin = w.pin ∧ w'.commands = w.commands ∧ ∃ a, r' = .ok a := by
  obtain ⟨a, rfl, hdoes⟩ := exec_ask h
  rcases hop with rfl | rfl <;> cases hdoes <;> exact ⟨rfl, rfl, _, rfl⟩

theorem PinSettled.congr {w₁ w₂ v₁ v₂ : StackWorld ι} (h : PinSettled image w₁ w₂ r)
    (hpin : v₁.pin = w₁.pin) (hcommands : v₁.commands = w₁.commands) (hpin' : v₂.pin = w₂.pin)
    (hcommands' : v₂.commands = w₂.commands) : PinSettled image v₁ v₂ r := by
  obtain ⟨h1, h2, h3, h4, h5⟩ := h
  constructor <;> simp only [hpin, hcommands, hpin', hcommands']
  · exact h1
  · exact h2
  · exact h3
  · exact h4
  · exact h5

theorem exec_withStackLock {turns : Nat} (himage : IsPin image)
    (h : Exec (Does i) (withStackLock stack turns (readWriteRestart stack image)) w r w') :
    PinSettled image w w' r := by
  obtain ⟨_, w₁, hopen, hbody⟩ := exec_ask_bind h
  cases hopen
  obtain ⟨r₂, w₂, hlocked, hclose⟩ := exec_finally hbody
  have hsettled : PinSettled image w w₂ r₂ := by
    rcases exec_bind hlocked with ⟨_, w₃, hacquire, hheld⟩ | ⟨e, rfl, hacquire⟩
    · obtain ⟨hpin, hcommands, _⟩ := exec_acquireLock hacquire
      obtain ⟨r₄, w₄, hrun, hunlock⟩ := exec_finally hheld
      have hrun := exec_readWriteRestart himage hrun
      rcases hunlock with ⟨hunlock, rfl⟩ | ⟨e, hunlock, _⟩
      · obtain ⟨hpin', hcommands', _⟩ := exec_unlock (Or.inl rfl) hunlock
        exact hrun.congr hpin.symm hcommands.symm hpin' hcommands'
      · obtain ⟨_, _, a, ha⟩ := exec_unlock (Or.inl rfl) hunlock
        cases ha
    · obtain ⟨hpin, hcommands, hr⟩ := exec_acquireLock hacquire
      exact pinSettled_of_beforeLock hpin hcommands hr (by simp)
  rcases hclose with ⟨hclose, rfl⟩ | ⟨e, hclose, _⟩
  · obtain ⟨hpin, hcommands, _⟩ := exec_unlock (Or.inr rfl) hclose
    exact hsettled.congr rfl rfl hpin hcommands
  · obtain ⟨_, _, a, ha⟩ := exec_unlock (Or.inr rfl) hclose
    cases ha

theorem exec_deploy {turns : Nat} (h : Exec (Does i) (deploy checks stack image turns) w r w') :
    PinSettled image w w' r := by
  rcases exec_bind h with ⟨_, w₁, hchecks, hrest⟩ | ⟨e, rfl, hchecks⟩
  · obtain ⟨rfl, _, himage⟩ := exec_checkCompose hchecks
    exact exec_withStackLock (isPin_of_isImageRef (himage rfl)) hrest
  · obtain ⟨rfl, hr, _⟩ := exec_checkCompose hchecks
    exact pinSettled_of_beforeLock rfl rfl hr (by simp)

end Exits

section Exclusion

def DeployOp.isPinStep : DeployOp → Bool
  | .readPin | .writePin _ | .unlinkPin | .restart => true
  | _ => false

/-- What the lock file undergoes. -/
def lockUse : (op : DeployOp) → DeployAnswer op → LockUse
  | .tryLock, true => .take
  | .unlock, _ => .free
  | .closeLock, _ => .free
  | _, _ => .keep

variable {ι : Type} [DecidableEq ι] {checks : ComposeChecks} {stack image : Str}

theorem lockLaws : LockLaws (Does (ι := ι)) stopped StackWorld.holder lockUse where
  take i w op a w' h huse := by cases h <;> first | exact ⟨by assumption, rfl⟩ | cases huse
  free i w op a w' h huse hother := by
    cases h <;> first | rfl | exact absurd (by assumption) hother | cases huse
  keep i w op a w' h huse := by cases h <;> first | rfl | cases huse
  crash i w h := by rw [stopped, if_neg h]

/-- A step on the pin is allowed while the lock is held. -/
abbrev underLock (past : History DeployOp DeployAnswer) (op : DeployOp) : Prop :=
  op.isPinStep = true → Holding lockUse past

/-- The end of a guarded program says nothing more. -/
abbrev anyEnd (_ : Except DeployError Unit) (_ : History DeployOp DeployAnswer) : Prop := True

variable {past : History DeployOp DeployAnswer}

theorem underLock_of_not {op : DeployOp} (h : op.isPinStep = false) : underLock past op :=
  fun hstep => by rw [h] at hstep; cases hstep

theorem guarded_rollBack {previous : Str} (h : Holding lockUse past) :
    (rollBack stack image previous).Guarded underLock anyEnd past := by
  refine guarded_ask_bind (underLock_of_not rfl) fun listing => ?_
  have hlisted : Holding lockUse (past ++ [⟨.dockerPs image, listing⟩]) :=
    h.append (by simp [lockUse])
  split
  · trivial
  · trivial
  · refine guarded_ask_bind (fun _ => hlisted) fun _ => ?_
    refine guarded_ask_bind (underLock_of_not rfl) fun _ => ?_
    refine guarded_ask_bind (fun _ => ?_) fun rollback => ?_
    · exact (hlisted.append (by simp [lockUse])).append (by simp [lockUse])
    · split_ifs <;> trivial

theorem guarded_readWriteRestart (h : Holding lockUse past) :
    (readWriteRestart stack image).Guarded underLock anyEnd past := by
  refine guarded_ask_bind (fun _ => h) fun raw => ?_
  have hread : (done (currentImage raw) : DeployProg (Option Str)).Guarded underLock
      (fun _ past => Holding lockUse past) (past ++ [⟨.readPin, raw⟩]) :=
    h.append (by simp [lockUse])
  refine hread.bind (fun previous past hpast => ?_) fun _ _ _ => trivial
  refine guarded_ask_bind (fun _ => hpast) fun _ => ?_
  have hwritten : Holding lockUse (past ++ [⟨.writePin (imageEnvText image), ()⟩]) :=
    hpast.append (by simp [lockUse])
  refine guarded_ask_bind (fun _ => hwritten) fun result => ?_
  have hrestarted : Holding lockUse (_ ++ [⟨.restart, result⟩]) :=
    hwritten.append (by simp [lockUse])
  split_ifs
  · trivial
  · split
    · exact guarded_ask_bind (fun _ => hrestarted) fun _ => trivial
    · exact guarded_rollBack hrestarted

theorem guarded_acquireLock {turns : Nat} (h : NotFreed lockUse past) :
    (acquireLock stack turns).Guarded underLock
      (fun r past => r = .ok () → Holding lockUse past) past := by
  induction turns generalizing past with
  | zero =>
    refine guarded_ask_bind (underLock_of_not rfl) fun got => ?_
    cases got with
    | true => exact fun _ => h.holding rfl
    | false => exact fun hr => (by cases hr)
  | succ turns ih =>
    refine guarded_ask_bind (underLock_of_not rfl) fun got => ?_
    cases got with
    | true => exact fun _ => h.holding rfl
    | false =>
      refine guarded_ask_bind (underLock_of_not rfl) fun _ => ?_
      exact ih ((h.append (by simp [lockUse])).append (by simp [lockUse]))

theorem guarded_withStackLock {turns : Nat} (h : NotFreed lockUse past) :
    (withStackLock stack turns (readWriteRestart stack image)).Guarded underLock anyEnd past := by
  have hrelease : ∀ (op : DeployOp) (r : Except DeployError Unit) past, op.isPinStep = false →
      ((ask op : Prog DeployOp DeployAnswer DeployError _) >>= fun _ => done r).Guarded
        underLock anyEnd past :=
    fun op r past hop => guarded_ask_bind (underLock_of_not hop) fun _ => trivial
  refine guarded_ask_bind (underLock_of_not rfl) fun _ => ?_
  have hlocked : (acquireLock stack turns >>= fun _ =>
      (readWriteRestart stack image).finally_ (ask DeployOp.unlock)).Guarded underLock anyEnd
      (past ++ [⟨.openLock, ()⟩]) := by
    refine (guarded_acquireLock (h.append (by simp [lockUse]))).bind (fun _ past hheld => ?_)
      fun _ _ _ => trivial
    exact (guarded_readWriteRestart (hheld rfl)).resume fun r past _ => hrelease .unlock r past rfl
  exact hlocked.resume fun r past _ => hrelease .closeLock r past rfl

theorem guarded_deploy {turns : Nat} :
    (deploy checks stack image turns).Guarded underLock anyEnd [] := by
  have hchecks : (checkCompose checks stack image).Guarded underLock
      (fun r past => (raisedBeforeLock r ∧ (r = .ok () → isImageRef image = true)) ∧
        NotFreed lockUse past) [] := by
    refine guarded_checkCompose.keep (fun past op _ hop => ?_) (fun past op a hpast hop => ?_)
      fun _ he => (by cases he)
    · cases op with
      | composeExists | readCompose | warn => exact underLock_of_not rfl
      | _ => cases hop
    · cases op with
      | composeExists | readCompose | warn => exact hpast.append (by simp [lockUse])
      | _ => cases hop
  refine hchecks.bind ?_ fun _ _ _ => trivial
  rintro _ past ⟨_, hpast⟩
  exact guarded_withStackLock hpast

end Exclusion

/-- A deploy settles the pin of its stack, and from its first step on the pin to its last no
other deploy of the stack takes one. -/
theorem deploy_keepsPin {ι : Type} [DecidableEq ι] (checks : ComposeChecks) (stack : Str) :
    (∀ (i : ι) (image : Str) (turns : Nat) (w w' : StackWorld ι) (r : Except DeployError Unit),
      Exec (Does i) (deploy checks stack image turns) w r w' → PinSettled image w w' r) ∧
    ∀ (start c : Config DeployOp DeployAnswer DeployError Unit (StackWorld ι) ι)
      (events : List (Event DeployOp DeployAnswer ι)),
      (∀ i p, start.rest i = some p → ∃ image turns, p = deploy checks stack image turns) →
      Runs Does stopped start events c →
      ∀ (i j : ι) (first mid last : (op : DeployOp) × DeployAnswer op)
        (before between between' after : List (Event DeployOp DeployAnswer ι)),
        events = before ++ (i, first) :: (between ++ (j, mid) :: (between' ++ (i, last) :: after)) →
        first.1.isPinStep = true → mid.1.isPinStep = true → last.1.isPinStep = true → j = i := by
  refine ⟨fun i image turns w w' r h => exec_deploy h, ?_⟩
  intro start c events hstart hruns i j first mid last before between between' after heq
    hfirst hmid hlast
  have hguarded : ∀ i p, start.rest i = some p → p.Guarded underLock anyEnd [] := by
    intro i p hp
    obtain ⟨image, turns, rfl⟩ := hstart i p hp
    exact guarded_deploy
  exact exclusive lockLaws hguarded hruns heq hfirst hmid hlast

/-- A host where every restart fails and `docker ps` prints `listing`. -/
def failingHost (listing : Str) : Handler DeployOp DeployAnswer (StackWorld Nat)
  | w, .composeExists => (true, w)
  | w, .readCompose => ([], w)
  | w, .warn _ => ((), w)
  | w, .openLock => ((), w)
  | w, .tryLock => if w.holder = none then (true, { w with holder := some 0 }) else (false, w)
  | w, .sleep => ((), w)
  | w, .unlock => ((), if w.holder = some 0 then { w with holder := none } else w)
  | w, .closeLock => ((), if w.holder = some 0 then { w with holder := none } else w)
  | w, .readPin => (w.pin, w)
  | w, .writePin text => ((), { w with pin := some (.text text) })
  | w, .unlinkPin => ((), { w with pin := none })
  | w, .restart => ((1 : Int), { w with commands := w.commands ++ [.restart w.pin 1] })
  | w, .dockerPs image =>
    ((0, listing), { w with commands := w.commands ++ [.dockerPs image (0, listing)] })
  | w, .logRollback _ _ => ((), w)

theorem does_failingHost (listing : Str) (w : StackWorld Nat) (op : DeployOp) :
    Does 0 w op (failingHost listing w op).1 (failingHost listing w op).2 := by
  cases op with
  | tryLock =>
    rw [failingHost]
    split_ifs with h
    · exact .locked h
    · exact .busy h
  | unlock =>
    rw [failingHost]
    split_ifs with h
    · exact .unlock h
    · exact .notLocked h
  | closeLock =>
    rw [failingHost]
    split_ifs with h
    · exact .closed h
    · exact .close h
  | _ => constructor

/-- A program that finds nothing to refuse in a Compose file. -/
def acceptsAll : ComposeChecks where
  resolvesImageFromEnv _ := true
  hasFailOpenImageReference _ := false
  healthSignalGaps _ _ := some ([], [])

def zeroDigestImage : Str := ("a@sha256:" : Str) ++ List.replicate 64 '0'

/-- A pin file with one more line. -/
def twoLines : StackWorld Nat := ⟨some (.text "IMAGE=old\nFOO=bar\n"), none, []⟩

/-- Two deploys of the failing host before either has begun. -/
def bothWaiting : Config DeployOp DeployAnswer DeployError Unit (StackWorld Nat) Nat :=
  ⟨twoLines, fun _ => some (deploy acceptsAll "web" zeroDigestImage 0)⟩

theorem deploy_keepsPin_failing :
    PinSettled zeroDigestImage twoLines
        ((deploy acceptsAll "web" zeroDigestImage 0).run (failingHost []) twoLines).2
        ((deploy acceptsAll "web" zeroDigestImage 0).run (failingHost []) twoLines).1 ∧
      (0 : Nat) = 0 := by
  have hdoes := does_failingHost []
  have hbegin : Runs Does stopped bothWaiting [] bothWaiting := .start
  obtain ⟨c, hruns⟩ := runs_trace hdoes hbegin rfl
  refine ⟨(deploy_keepsPin acceptsAll "web").1 0 _ 0 _ _ _ (exec_run hdoes _ _), ?_⟩
  refine (deploy_keepsPin acceptsAll "web").2 bothWaiting c _ (fun i p hp => ?_) hruns 0 0
    ⟨.readPin, _⟩ ⟨.restart, _⟩ ⟨.restart, _⟩ [_, _, _, _] [_] [_, _, _] [_, _] rfl rfl rfl rfl
  exact ⟨_, _, (Option.some.inj hp).symm⟩

/-- A rollback drops what else the pin file held, and comes although a container of the new
image is up. -/
theorem deploy_dropsOtherLines :
    (∃ w', Exec (Does 0) (deploy acceptsAll "web" zeroDigestImage 0) twoLines
        (.error (.rollbackFailed "web" "old")) w' ∧
      w'.pin ≠ pinOf zeroDigestImage ∧ w'.pin ≠ twoLines.pin) ∧
    ∃ w', Exec (Does 0) (deploy acceptsAll "web" zeroDigestImage 0) twoLines
        (.error (.rollbackFailed "web" "old")) w' ∧
      .dockerPs zeroDigestImage (0, "Up 5 minutes\nExited (1)\n") ∈ w'.commands ∧
      w'.pin ≠ pinOf zeroDigestImage ∧ containerNotUp "Up 5 minutes" = false := by
  have hrun : ∀ listing, ((deploy acceptsAll "web" zeroDigestImage 0).run (failingHost listing)
      twoLines).1 = .error (.rollbackFailed "web" "old") →
      Exec (Does 0) (deploy acceptsAll "web" zeroDigestImage 0) twoLines
        (.error (.rollbackFailed "web" "old"))
        ((deploy acceptsAll "web" zeroDigestImage 0).run (failingHost listing) twoLines).2 :=
    fun listing h => h ▸ exec_run (does_failingHost listing) _ _
  refine ⟨⟨_, hrun [] ?_, ?_, ?_⟩, ⟨_, hrun "Up 5 minutes\nExited (1)\n" ?_, ?_, ?_, ?_⟩⟩
  all_goals decide

section Interleaved

variable {ι : Type} [DecidableEq ι] {images : Set Str} {checks : ComposeChecks} {stack image : Str}
  {past : History DeployOp DeployAnswer}

/-- What is written is an image of these, or what was read before; the pin is unlinked where none
was read. -/
def named (images : Set Str) (past : History DeployOp DeployAnswer) : DeployOp → Prop
  | .writePin text => (∃ image ∈ images, isImageRef image = true ∧ text = imageEnvText image) ∨
      ∃ raw previous, ⟨.readPin, raw⟩ ∈ past ∧ currentImage raw = .ok (some previous) ∧
        text = imageEnvText previous
  | .unlinkPin => ∃ raw, ⟨.readPin, raw⟩ ∈ past ∧ currentImage raw = .ok none
  | _ => True

theorem named_rollBack {raw : Option PinContent} {previous : Str} (hread : ⟨.readPin, raw⟩ ∈ past)
    (hprevious : currentImage raw = .ok (some previous)) :
    (rollBack stack image previous).Guarded (named images) anyEnd past := by
  refine guarded_ask_bind trivial fun listing => ?_
  split
  · trivial
  · trivial
  · refine guarded_ask_bind (Or.inr ⟨raw, previous, by simp [hread], hprevious, rfl⟩) fun _ => ?_
    refine guarded_ask_bind trivial fun _ => guarded_ask_bind trivial fun _ => ?_
    split_ifs <;> trivial

theorem named_readWriteRestart (himage : image ∈ images) (href : isImageRef image = true) :
    (readWriteRestart stack image).Guarded (named images) anyEnd past := by
  refine guarded_ask_bind trivial fun raw => ?_
  have hread : (done (currentImage raw) : DeployProg (Option Str)).Guarded (named images)
      (fun r past => ⟨.readPin, raw⟩ ∈ past ∧ r = currentImage raw) (past ++ [⟨.readPin, raw⟩]) :=
    ⟨by simp, rfl⟩
  refine hread.bind (fun previous past hpast => ?_) fun _ _ _ => trivial
  refine guarded_ask_bind (Or.inl ⟨image, himage, href, rfl⟩) fun _ => ?_
  refine guarded_ask_bind trivial fun result => ?_
  split_ifs
  · trivial
  · cases previous with
    | none => exact guarded_ask_bind ⟨raw, by simp [hpast.1], hpast.2.symm⟩ fun _ => trivial
    | some previous => exact named_rollBack (by simp [hpast.1]) hpast.2.symm

theorem named_acquireLock {turns : Nat} :
    (acquireLock stack turns).Guarded (named images) anyEnd past := by
  induction turns generalizing past with
  | zero => exact guarded_ask_bind trivial fun got => by cases got <;> trivial
  | succ turns ih =>
    refine guarded_ask_bind trivial fun got => ?_
    cases got with
    | true => trivial
    | false => exact guarded_ask_bind trivial fun _ => ih

theorem named_deploy {turns : Nat} (himage : image ∈ images) :
    (deploy checks stack image turns).Guarded (named images) anyEnd [] := by
  have hchecks : (checkCompose checks stack image).Guarded (named images)
      (fun r past => (raisedBeforeLock r ∧ (r = .ok () → isImageRef image = true)) ∧ True) [] :=
    guarded_checkCompose.keep (fun past op _ hop => by cases op <;> trivial)
      (fun _ _ _ _ _ => trivial) trivial
  refine hchecks.bind (fun _ past hpast => ?_) fun _ _ _ => trivial
  refine guarded_ask_bind trivial fun _ => Guarded.resume ?_ fun r past (_ : anyEnd r past) =>
    guarded_ask_bind trivial fun _ => trivial
  refine named_acquireLock.bind (fun _ past _ => ?_) fun _ _ _ => trivial
  exact (named_readWriteRestart himage (hpast.1.2 rfl)).resume fun r past _ =>
    guarded_ask_bind trivial fun _ => trivial

/-- The pin reads as one of the images, as it was at the start or as it is written. -/
structure Reads (images : Set Str) (first pin : Option PinContent) : Prop where
  image : ∃ image, (currentImage first = .ok (some image) ∨ image ∈ images) ∧
    currentImage pin = .ok (some image)
  text : pin = first ∨ ∃ image, pin = pinOf image

variable {start c : Config DeployOp DeployAnswer DeployError Unit (StackWorld ι) ι}
  {events : List (Event DeployOp DeployAnswer ι)} {first : Str}

end Interleaved

end SharedInfra.Deploys
