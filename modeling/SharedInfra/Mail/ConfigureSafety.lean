import SharedInfra.Mail.ConfigureRun

/-!
# A green run and what the server runs

A run restarts the server if it has set something itself.  So what an earlier run left stored
and not loaded is loaded by a later green run exactly if that one finds something to set
(`green_runs_load_iff`).
-/

namespace SharedInfra.Mail
namespace Configuration

open Python Effects Prog

section Nothing

def setsNothing : Except Failure SetArgs → Bool
  | .ok args => args.isEmpty
  | .error _ => false

def domainSettled (hostname : Str) (acmeProviderId : Option Str) (domain : Obj) : Bool :=
  match planDomainSans domain [hostname] acmeProviderId with
  | .ok none => true
  | _ => false

/-- None of the planners finds anything to set in what is read. -/
def nothingPlanned (hostname : Str) (read : Kind → List Obj) : Bool :=
  (planAcmeProvider (read .acmeProvider)).1.isEmpty &&
    setsNothing (planListenerChanges (read .networkListener)) &&
    (read .domain).all
      (domainSettled hostname (planAcmeProvider (read .acmeProvider)).2) &&
    (planHttpChange (read .http)).isEmpty &&
    (planMetricsChange (read .metrics)).isEmpty &&
    (planTracerChange (read .tracer)).isEmpty &&
    setsNothing (planSecurityList (read .security)) &&
    setsNothing (planAllowedIps (read .allowedIp) allowedIps)

variable (view : Kind → List Obj → List Obj)

def NothingToDo (hostname : Str) (w : World) : Prop :=
  w.credentials = true ∧ w.bootstrap = false ∧
    nothingPlanned hostname (fun kind => view kind (w.stored kind)) = true

/-- The server runs what it stores, in every object that any of the runs has set. -/
def Loaded (w : World) : Prop :=
  ∀ written ∈ w.written, w.loaded.object written.1 written.2 = w.stored.object written.1 written.2

theorem loaded_of_eq {w : World} (h : w.loaded = w.stored) : Loaded w := by
  intro written _
  rw [h]

end Nothing

section Steps

variable {view : Kind → List Obj → List Obj} {w w' : World} {b : Bool}

theorem exec_call_ok {op : Op} {a : Returns op} (h : Exec (does view) (call op) w (.ok a) w') :
    does view w op (.ok a) w' := by
  obtain ⟨answer, mid, hdoes, hdone⟩ := exec_perform h
  obtain ⟨rfl, rfl⟩ := exec_done hdone
  exact hdoes

theorem exec_pure {α : Type} {a a' : α} (h : Exec (does view) (pure a : Run α) w (.ok a') w') :
    a' = a ∧ w' = w := by
  obtain ⟨hr, rfl⟩ := exec_done h
  cases hr
  exact ⟨rfl, rfl⟩

theorem exec_lift {α : Type} {r : Except Failure α} {a : α}
    (h : Exec (does view) (done r : Run α) w (.ok a) w') : r = .ok a ∧ w' = w := by
  obtain ⟨hr, rfl⟩ := exec_done h
  exact ⟨hr.symm, rfl⟩

theorem exec_get {α : Type} {kind : Kind} {f : List Obj → Run α} {a : α}
    (h : Exec (does view) (call (.get kind) >>= f) w (.ok a) w') :
    Exec (does view) (f (view kind (w.stored kind))) w (.ok a) w' := by
  obtain ⟨objects, mid, hcall, hnext⟩ := exec_bind_ok h
  obtain ⟨rfl, rfl⟩ := exec_call_ok hcall
  exact hnext

/-- A reconciliation that says whether it found something to set, and changes nothing if not. -/
def Quiet (view : Kind → List Obj → List Obj) (nothing : World → Prop) (p : Run Bool) : Prop :=
  ∀ w b w', Exec (does view) p w (.ok b) w' → (b = false ↔ nothing w) ∧ (b = false → w' = w)

theorem exec_setIfPlanned {kind : Kind} {args : SetArgs}
    (h : Exec (does view) (setIfPlanned kind args) w (.ok b) w') :
    (b = false ↔ args.isEmpty = true) ∧ (b = false → w' = w) := by
  unfold setIfPlanned at h
  cases hempty : args.isEmpty with
  | true =>
    rw [if_pos hempty] at h
    obtain ⟨rfl, rfl⟩ := exec_pure h
    exact ⟨iff_of_true rfl rfl, fun _ => rfl⟩
  | false =>
    rw [if_neg (by simp [hempty])] at h
    obtain ⟨ids, mid, -, hdone⟩ := exec_bind_ok h
    obtain ⟨rfl, rfl⟩ := exec_pure hdone
    exact ⟨iff_of_false (by simp) (by simp), by simp⟩

theorem quiet_kind (kind : Kind) (plan : List Obj → Except Failure SetArgs) :
    Quiet view (fun w => setsNothing (plan (view kind (w.stored kind))) = true)
      (do let objects ← call (.get kind)
          let args ← done (plan objects)
          setIfPlanned kind args) := by
  intro w b w' h
  obtain ⟨args, mid, hplan, hset⟩ := exec_bind_ok (exec_get h)
  obtain ⟨hargs, rfl⟩ := exec_lift hplan
  beta_reduce
  rw [hargs]
  exact exec_setIfPlanned hset

theorem quiet_plain (kind : Kind) (plan : List Obj → SetArgs) :
    Quiet view (fun w => (plan (view kind (w.stored kind))).isEmpty = true)
      (do let objects ← call (.get kind)
          setIfPlanned kind (plan objects)) :=
  fun _ _ _ h => exec_setIfPlanned (exec_get h)

theorem quiet_domain (hostname : Str) (acmeProviderId : Option Str) (domain : Obj) :
    Quiet view (fun _ => domainSettled hostname acmeProviderId domain = true)
      (reconcileDomain hostname acmeProviderId domain) := by
  intro w b w' h
  obtain ⟨fields, mid, hplan, hset⟩ := exec_bind_ok h
  obtain ⟨hfields, rfl⟩ := exec_lift hplan
  rw [domainSettled, hfields]
  cases fields with
  | none =>
    obtain ⟨_, mid, hprint, hdone⟩ := exec_bind_ok (p := (done (printDomain domain) : Run Unit)) hset
    obtain ⟨-, rfl⟩ := exec_lift hprint
    obtain ⟨rfl, rfl⟩ := exec_pure hdone
    exact ⟨iff_of_true rfl rfl, fun _ => rfl⟩
  | some fields =>
    obtain ⟨_, mid, -, hrest⟩ := exec_bind_ok
      (p := call (.set .domain (.updating domain.id fields))) hset
    obtain ⟨_, mid', -, hdone⟩ := exec_bind_ok (p := (done (printDomain domain) : Run Unit)) hrest
    obtain ⟨rfl, rfl⟩ := exec_pure hdone
    exact ⟨iff_of_false (by simp) (by simp), by simp⟩

theorem quiet_pure (changed : Bool) :
    Quiet view (fun _ => changed = false) (pure changed) := by
  intro w b w' h
  obtain ⟨rfl, rfl⟩ := exec_pure h
  exact ⟨.rfl, fun _ => rfl⟩

theorem quiet_anyOf : ∀ {ps : List (Run Bool)} {nothings : List (World → Prop)},
    List.Forall₂ (Quiet view) nothings ps →
    Quiet view (fun w => ∀ nothing ∈ nothings, nothing w) (anyOf ps)
  | _, _, .nil => by
    intro w b w' h
    obtain ⟨rfl, rfl⟩ := exec_pure h
    exact ⟨iff_of_true rfl (by simp), fun _ => rfl⟩
  | _, _, @List.Forall₂.cons _ _ _ nothing p nothings ps hp hps => by
    intro w b w' h
    obtain ⟨changed, mid, hfirst, hrest⟩ := exec_bind_ok (p := p) h
    obtain ⟨others, mid', hothers, hdone⟩ := exec_bind_ok (p := anyOf ps) hrest
    obtain ⟨rfl, rfl⟩ := exec_pure hdone
    obtain ⟨hchanged, hsame⟩ := hp _ _ _ hfirst
    obtain ⟨hothers', hsame'⟩ := quiet_anyOf hps _ _ _ hothers
    beta_reduce at hothers' ⊢
    rw [Bool.or_eq_false_iff, List.forall_mem_cons]
    cases changed with
    | true =>
      have hnothing : ¬ nothing w := fun hw => absurd (hchanged.mpr hw) (by simp)
      exact ⟨iff_of_false (by simp) fun hall => hnothing hall.1, by simp⟩
    | false =>
      cases hsame rfl
      exact ⟨and_congr hchanged hothers', fun hb => hsame' hb.2⟩

end Steps

section Main

variable {view : Kind → List Obj → List Obj} {hostname : Str} {w w' : World} {b : Bool}

theorem exec_reconcileAcmeProvider {id : Option Str}
    (h : Exec (does view) reconcileAcmeProvider w (.ok (b, id)) w') :
    (b = false ↔ (planAcmeProvider (view .acmeProvider (w.stored .acmeProvider))).1.isEmpty = true) ∧
      (b = false → w' = w ∧
        id = (planAcmeProvider (view .acmeProvider (w.stored .acmeProvider))).2) := by
  have hset := exec_get h
  generalize planAcmeProvider (view .acmeProvider (w.stored .acmeProvider)) = planned at hset ⊢
  unfold setProvider at hset
  cases hempty : planned.1.isEmpty with
  | true =>
    rw [if_pos hempty] at hset
    obtain ⟨hb, rfl⟩ := exec_pure hset
    cases hb
    exact ⟨iff_of_true rfl rfl, fun _ => ⟨rfl, rfl⟩⟩
  | false =>
    rw [if_neg (by simp [hempty])] at hset
    obtain ⟨created, mid, -, hrest⟩ := exec_bind_ok hset
    obtain ⟨id', mid', -, hdone⟩ := exec_bind_ok hrest
    obtain ⟨hb, rfl⟩ := exec_pure hdone
    cases hb
    exact ⟨iff_of_false (by simp) (by simp), by simp⟩

theorem quiet_domains (acmeProviderId : Option Str) :
    Quiet view (fun w => (view .domain (w.stored .domain)).all
        (domainSettled hostname acmeProviderId) = true)
      (reconcileDomains hostname acmeProviderId) := by
  intro w b w' h
  have hall := exec_get h
  beta_reduce
  generalize view .domain (w.stored .domain) = domains at hall ⊢
  have hquiet : List.Forall₂ (Quiet view)
      (domains.map fun domain _ => domainSettled hostname acmeProviderId domain = true)
      (domains.map (reconcileDomain hostname acmeProviderId)) := by
    rw [List.forall₂_map_left_iff, List.forall₂_map_right_iff, List.forall₂_same]
    exact fun domain _ => quiet_domain hostname acmeProviderId domain
  obtain ⟨hnothing, hsame⟩ := quiet_anyOf hquiet w b w' hall
  refine ⟨hnothing.trans ?_, hsame⟩
  beta_reduce
  rw [List.forall_mem_map, List.all_eq_true]

theorem quiet_reconcile :
    Quiet view (fun w => nothingPlanned hostname (fun kind => view kind (w.stored kind)) = true)
      (reconcile hostname) := by
  intro w b w' h
  obtain ⟨⟨acmeChanged, id⟩, mid, hacme, hrest⟩ := exec_bind_ok h
  obtain ⟨hchanged, hsame⟩ := exec_reconcileAcmeProvider hacme
  have hall := quiet_anyOf
    (.cons (quiet_kind .networkListener planListenerChanges) <| .cons (quiet_pure acmeChanged) <|
      .cons (quiet_domains id) <|
      .cons (quiet_plain .http planHttpChange) <| .cons (quiet_plain .metrics planMetricsChange) <|
      .cons (quiet_plain .tracer planTracerChange) <|
      .cons (quiet_kind .security planSecurityList) <|
      .cons (quiet_kind .allowedIp fun current => planAllowedIps current allowedIps) .nil)
    mid b w' hrest
  simp only [nothingPlanned, Bool.and_eq_true, List.forall_mem_cons] at hall ⊢
  cases acmeChanged with
  | true =>
    have hplanned : ¬ (planAcmeProvider
        (view .acmeProvider (w.stored .acmeProvider))).1.isEmpty = true :=
      fun hempty => absurd (hchanged.mpr hempty) (by simp)
    obtain ⟨hb, -⟩ := hall
    have htrue : b = true := by
      cases b with
      | true => rfl
      | false => exact absurd (hb.mp rfl).2.1 (by simp)
    subst htrue
    exact ⟨iff_of_false (by simp) fun hall => hplanned hall.1.1.1.1.1.1.1, by simp⟩
  | false =>
    obtain ⟨rfl, rfl⟩ := hsame rfl
    refine ⟨hall.1.trans ?_, hall.2⟩
    have hacme := hchanged.mp rfl
    simp only [hacme, true_and]
    tauto

theorem exec_completeBootstrap (h : Exec (does view) completeBootstrap w (.ok ()) w') :
    w'.loaded = w'.stored := by
  obtain ⟨⟨⟩, _, -, hrest⟩ := exec_bind_ok h
  obtain ⟨⟨⟩, _, -, hrest⟩ := exec_bind_ok hrest
  obtain ⟨⟨⟩, _, -, hrest⟩ := exec_bind_ok hrest
  obtain ⟨⟨⟩, mid, hrestart, hready⟩ := exec_bind_ok hrest
  cases exec_call_ok hready
  obtain ⟨-, hanswer⟩ | ⟨bootstrap, rfl⟩ := exec_call_ok hrestart
  · exact absurd rfl hanswer
  · rfl

theorem exec_authenticate (h : Exec (does view) authenticate w (.ok ()) w') :
    (w' = w ∧ w.credentials = true ∧ w.bootstrap = false) ∨
      (w'.loaded = w'.stored ∧ ¬ (w.credentials = true ∧ w.bootstrap = false)) := by
  obtain ⟨credentials, mid, hcall, hrest⟩ := exec_bind_ok h
  obtain ⟨hmid, hcredentials⟩ := exec_call_ok hcall
  subst mid
  cases hcredentials
  obtain ⟨⟨⟩, mid, hload, hrest⟩ := exec_bind_ok hrest
  obtain ⟨bootstrap, mid', hcall, hmode⟩ := exec_bind_ok hrest
  obtain ⟨hmid', hbootstrap⟩ := exec_call_ok hcall
  subst mid'
  subst hbootstrap
  cases hboot : mid.bootstrap with
  | true =>
    rw [hboot] at hmode
    refine .inr ⟨exec_completeBootstrap hmode, fun hready => ?_⟩
    rw [hready.1] at hload
    cases exec_call_ok hload
    cases hboot.symm.trans hready.2
  | false =>
    rw [hboot] at hmode
    obtain ⟨-, rfl⟩ := exec_pure hmode
    cases hcred : w.credentials with
    | true =>
      rw [hcred] at hload
      cases exec_call_ok hload
      exact .inl ⟨rfl, rfl, hboot⟩
    | false =>
      rw [hcred] at hload
      exact .inr ⟨exec_completeBootstrap hload, by simp⟩

/-- A run that returns leaves everything loaded exactly if it found something to set, or nothing
was left to be loaded. -/
theorem loaded_iff (h : Exec (does view) (main hostname) w (.ok ()) w') :
    Loaded w' ↔ Loaded w ∨ ¬ NothingToDo view hostname w := by
  obtain ⟨⟨⟩, mid, hauth, hrest⟩ := exec_bind_ok h
  obtain ⟨changed, mid', hreconcile, hrestart⟩ := exec_bind_ok hrest
  obtain ⟨hnothing, hsame⟩ := quiet_reconcile _ _ _ hreconcile
  cases changed with
  | true =>
    have hplanned : nothingPlanned hostname (fun kind => view kind (mid.stored kind)) ≠ true :=
      fun hall => absurd (hnothing.mpr hall) (by simp)
    obtain ⟨⟨⟩, mid'', hdocker, hready⟩ := exec_bind_ok hrestart
    cases exec_call_ok hready
    have hloaded : Loaded w' := by
      obtain ⟨-, hanswer⟩ | ⟨bootstrap, rfl⟩ := exec_call_ok hdocker
      · exact absurd rfl hanswer
      · exact loaded_of_eq rfl
    refine iff_of_true hloaded (.inr fun hready => ?_)
    obtain ⟨rfl, -⟩ | ⟨-, hnot⟩ := exec_authenticate hauth
    · exact hplanned hready.2.2
    · exact hnot ⟨hready.1, hready.2.1⟩
  | false =>
    obtain ⟨-, rfl⟩ := exec_pure hrestart
    cases hsame rfl
    obtain ⟨rfl, hset⟩ | ⟨hloaded, hnot⟩ := exec_authenticate hauth
    · have hready : NothingToDo view hostname w' := ⟨hset.1, hset.2, hnothing.mp rfl⟩
      exact ⟨.inl, fun h => h.resolve_right (not_not_intro hready)⟩
    · exact iff_of_true (loaded_of_eq hloaded) (.inr fun hready => hnot ⟨hready.1, hready.2.1⟩)

end Main

section Histories

variable (view : Kind → List Obj → List Obj) (hostname : Str) (start : World)

/-- Runs one after another; a run may end at any of its operations.  Of those that returned 0,
where each started and ended. -/
inductive History : List (World × World) → World → Prop where
  | start : History [] start
  | stopped {greens : List (World × World)} {w w' : World} (h : History greens w)
      (hrun : Passes (does view) (main hostname) w w') : History greens w'
  | green {greens : List (World × World)} {w w' : World} (h : History greens w)
      (hrun : Exec (does view) (main hostname) w (.ok ()) w') :
      History (greens ++ [(w, w')]) w'

variable {view hostname start} {greens : List (World × World)} {w : World}

/-- In every history the runs that returned 0 leave everything loaded exactly if each of them
started with nothing left to be loaded, or with something to set. -/
theorem green_runs_load_iff (h : History view hostname start greens w) :
    (∀ run ∈ greens, Loaded run.2) ↔
      ∀ run ∈ greens, Loaded run.1 ∨ ¬ NothingToDo view hostname run.1 := by
  induction h with
  | start => simp
  | stopped _ _ ih => exact ih
  | green _ hrun ih =>
    rw [List.forall_mem_append, List.forall_mem_append, ih, List.forall_mem_singleton,
      List.forall_mem_singleton, loaded_iff hrun]

end Histories

/-- A server that has everything but the listener that is created where it is missing. -/
def withoutSubmission : Config
  | .acmeProvider => [{ id := "a".toList, fields := acmeProviderTarget }]
  | .http => [{ id := "h".toList, fields := httpTarget }]
  | .metrics => [{ id := "m".toList, fields := metricsTarget }]
  | .security => [{ id := "s".toList, fields := securityTarget }]
  | .allowedIp =>
    [{ id := "i".toList, fields := [entry "address" (text "46.225.95.167")] }]
  | _ => []

def setUp : World :=
  { stored := withoutSubmission, loaded := withoutSubmission, credentials := true
    bootstrap := false, written := ∅ }

/-- The ids a server gives to what is created: the keys of the call. -/
def keysAsIds (args : SetArgs) : List Str := args.create.map Prod.fst

instance (objects : List Obj) (args : SetArgs) (ids : List Str) :
    Decidable (FreshIds objects args ids) :=
  inferInstanceAs (Decidable (_ ∧ _ ∧ _))

/-- A server that does not answer the read of one kind. -/
def server (silent : Option Kind) : Handler Op Ans World
  | w, .credentialsExist => (.ok w.credentials, w)
  | w, .bootstrapMode => (.ok w.bootstrap, w)
  | w, .get kind =>
    if silent = some kind then (.error .urlError, w) else (.ok (w.stored kind), w)
  | w, .set kind args =>
    if FreshIds (w.stored kind) args (keysAsIds args) then
      (.ok (keysAsIds args), w.set kind args (keysAsIds args))
    else (.error .urlError, w)
  | w, .dockerRestart => (.ok (), { w with loaded := w.stored })
  | w, .loadCredentials => (.ok (), w)
  | w, .readBootstrapPassword => (.ok (), w)
  | w, .bootstrapSet => (.error .urlError, w)
  | w, .writeCredentials => (.error .osError, w)
  | w, .waitForReady => (.ok (), w)

theorem does_server (silent : Option Kind) (w : World) (op : Op) :
    does (fun _ objects => objects) w op (server silent w op).1 (server silent w op).2 := by
  cases op with
  | credentialsExist => exact ⟨rfl, rfl⟩
  | bootstrapMode => exact ⟨rfl, rfl⟩
  | get kind =>
    by_cases h : silent = some kind
    · simp only [server, if_pos h]
      rfl
    · simp only [server, if_neg h]
      exact ⟨rfl, rfl⟩
  | set kind args =>
    by_cases h : FreshIds (w.stored kind) args (keysAsIds args)
    · simp only [server, if_pos h]
      exact ⟨h, rfl⟩
    · simp only [server, if_neg h]
      exact .inl rfl
  | dockerRestart => exact .inr ⟨w.bootstrap, rfl⟩
  | loadCredentials => rfl
  | readBootstrapPassword => rfl
  | bootstrapSet => exact .inl ⟨rfl, nofun⟩
  | writeCredentials => exact .inl ⟨rfl, nofun⟩
  | waitForReady => rfl

/-- What the first run sets before it fails. -/
def submissionArgs : SetArgs :=
  .creating "submission".toList
    [entry "name" (text "submission"), entry "bind" (.object [entry "[::]:587" (.bool true)]),
      entry "protocol" (text "smtp"), entry "useTls" (.bool true), entry "tlsImplicit" (.bool false)]

def afterFailure : World := setUp.set .networkListener submissionArgs ["submission".toList]

theorem first_run : (main "mx1".toList).run (server (some .domain)) setUp =
    (.error .urlError, afterFailure) := by
  rfl

theorem second_run : (main "mx1".toList).run (server none) afterFailure = (.ok (), afterFailure) := by
  rfl

/-- What a run stored before it failed is not loaded by the next one, which returns 0. -/
theorem unloaded_set_stays :
    ∃ greens w, History (fun _ objects => objects) "mx1".toList setUp greens w ∧
      ∃ run ∈ greens, ¬ Loaded run.2 := by
  have hfirst := exec_run (does_server (some .domain)) (main "mx1".toList) setUp
  rw [first_run] at hfirst
  have hsecond := exec_run (does_server none) (main "mx1".toList) afterFailure
  rw [second_run] at hsecond
  refine ⟨_, _, (History.start.stopped (passes_of_exec hfirst)).green hsecond, _,
    List.mem_singleton.mpr rfl, fun hloaded => ?_⟩
  have hobject := hloaded (.networkListener, "submission".toList)
    (.inr ⟨rfl, .inr (.inr (List.mem_singleton.mpr rfl))⟩)
  exact absurd hobject (by decide)

theorem unbroken_run : (main "mx1".toList).run (server none) setUp =
    (.ok (), { afterFailure with loaded := afterFailure.stored }) := by
  rfl

/-- A run that is not stopped loads what it sets. -/
theorem green_runs_load_for_one :
    Loaded { afterFailure with loaded := afterFailure.stored } := by
  have hexec := exec_run (does_server none) (main "mx1".toList) setUp
  rw [unbroken_run] at hexec
  have hloaded := (green_runs_load_iff (History.start.green hexec)).mpr
  refine hloaded (fun run hrun => ?_) _ (List.mem_singleton.mpr rfl)
  rw [List.mem_singleton.mp hrun]
  exact .inl fun _ => nofun

end Configuration
end SharedInfra.Mail
