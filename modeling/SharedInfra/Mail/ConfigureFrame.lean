import SharedInfra.Mail.ConfigureConvergence

/-!
# What a run of the mail configuration leaves alone

Each planner names only the objects that it manages, and of these only the fields it manages
(`Bounded`), so every other object and field is as it was (`Untouched`).  With the targets
that are reached, this is what a run whose reconciliations succeed does
(`configuration_converges`).
-/

namespace SharedInfra.Mail
namespace Configuration

open Python Effects Prog

section Frame

def managedFields : Kind → List Str
  | .networkListener => ["bind".toList, "protocol".toList, "useTls".toList, "tlsImplicit".toList]
  | .acmeProvider => acmeProviderTarget.map Prod.fst
  | .domain => ["certificateManagement".toList]
  | .http => httpTarget.map Prod.fst
  | .metrics => metricsTarget.map Prod.fst
  | .tracer => (tracerTarget .null).map Prod.fst
  | .security => securityTarget.map Prod.fst
  | .allowedIp => []

def Managed (objects : List Obj) : Kind → Obj → Prop
  | .networkListener, o => ∃ managed ∈ managedListeners, byName objects managed.1 = some o
  | .acmeProvider, o => managedProvider objects = some o
  | .domain, o => Automatic (certOf o)
  | .allowedIp, _ => False
  | _, o => objects.head? = some o

/-- The listeners that the script removes: the last of each removed name. -/
def Removed (objects : List Obj) (kind : Kind) (o : Obj) : Prop :=
  kind = .networkListener ∧ ∃ name ∈ removedListenerNames, byName objects name = some o

def Created (objects : List Obj) : Kind → Dict → Prop
  | .networkListener, fields => ∃ managed ∈ managedListeners, managed.1 ∈ createIfMissing ∧
      byName objects managed.1 = none ∧ fields = entry "name" (.string managed.1) :: managed.2
  | .acmeProvider, fields => managedProvider objects = none ∧ fields = acmeProviderTarget
  | .http, fields => objects = [] ∧ fields = httpTarget
  | .metrics, fields => objects = [] ∧ fields = metricsCreateDefaults ++ metricsTarget
  | .allowedIp, fields => ∃ pair ∈ absentIps objects allowedIps, fields = allowedIpFields pair
  | _, _ => False

/-- The arguments of a `/set` name only what the script manages. -/
structure Bounded (kind : Kind) (objects : List Obj) (args : SetArgs) : Prop where
  update : ∀ update ∈ args.update, ∃ o ∈ objects, update.1 = o.id ∧ Managed objects kind o ∧
    update.2.map Prod.fst ⊆ managedFields kind
  create : ∀ new ∈ args.create, Created objects kind new.2
  destroy : ∀ id ∈ args.destroy, ∃ o ∈ objects, id = o.id ∧ Removed objects kind o

/-- Every object that is not removed is there, with the fields it had but those the script manages,
and unchanged if the script does not manage it; and what is new was created by the script. -/
def UntouchedKind (kind : Kind) (before after : List Obj) : Prop :=
  (∀ o ∈ before, Removed before kind o ∨ ∃ o' ∈ after, o'.id = o.id ∧
      (∀ name, name ∉ managedFields kind → Dict.get? o'.fields name = Dict.get? o.fields name) ∧
      (¬ Managed before kind o → o' = o)) ∧
    ∀ o' ∈ after, (∃ o ∈ before, o'.id = o.id) ∨ Created before kind o'.fields

def Untouched (before after : Config) : Prop :=
  ∀ kind, UntouchedKind kind (before kind) (after kind)

variable {kind : Kind} {objects : List Obj} {args : SetArgs} {ids : List Str} {o : Obj}
  {hostname provider : Str} {acmeProviderId : Option Str} {target : Dict}

theorem bounded_none : Bounded kind objects .none := ⟨nofun, nofun, nofun⟩

theorem bounded_updating {fields : Dict} (ho : o ∈ objects) (hmanaged : Managed objects kind o)
    (hfields : fields.map Prod.fst ⊆ managedFields kind) :
    Bounded kind objects (.updating o.id fields) := by
  refine ⟨fun update hupdate => ?_, nofun, nofun⟩
  cases List.mem_singleton.mp hupdate
  exact ⟨o, ho, rfl, hmanaged, hfields⟩

theorem bounded_updateDiff (ho : o ∈ objects) (hmanaged : Managed objects kind o)
    (htarget : target.map Prod.fst ⊆ managedFields kind) :
    Bounded kind objects (updateDiff o target) := by
  by_cases h : HasFields o target
  · rw [updateDiff_of_hasFields h]
    exact bounded_none
  · rw [updateDiff_of_not_hasFields h]
    exact bounded_updating ho hmanaged (List.Subset.trans fieldDiff_names htarget)

theorem bounded_creating {key : Str} {fields : Dict} (h : Created objects kind fields) :
    Bounded kind objects (.creating key fields) := by
  refine ⟨nofun, fun new hnew => ?_, nofun⟩
  cases List.mem_singleton.mp hnew
  exact h

theorem bounded_listeners (h : planListenerChanges objects = .ok args) :
    Bounded .networkListener objects args := by
  obtain ⟨-, rfl⟩ := planListenerChanges_eq_ok_iff.mp h
  refine ⟨fun update hupdate => ?_, fun new hnew => ?_, fun id hid => ?_⟩
  · obtain ⟨managed, hmanaged, o, hfind, -, hid, hfields⟩ := mem_listenerUpdates_iff.mp hupdate
    refine ⟨o, (byName_eq_some hfind).1, hid, ⟨managed, hmanaged, hfind⟩, ?_⟩
    have hnames : ∀ managed ∈ managedListeners,
        managed.2.map Prod.fst ⊆ managedFields .networkListener := by decide
    rw [hfields]
    exact List.Subset.trans fieldDiff_names (hnames managed hmanaged)
  · obtain ⟨managed, hmanaged, hcreate⟩ := List.mem_filterMap.mp hnew
    obtain ⟨hnone, hmay, rfl⟩ := listenerCreate_eq_some_iff.mp hcreate
    exact ⟨managed, hmanaged, hmay, hnone, rfl⟩
  · obtain ⟨name, hname, hfind⟩ := List.mem_filterMap.mp hid
    obtain ⟨o, hfound, rfl⟩ := Option.map_eq_some_iff.mp hfind
    exact ⟨o, (byName_eq_some hfound).1, rfl, rfl, name, hname, hfound⟩

theorem bounded_provider : Bounded .acmeProvider objects (planAcmeProvider objects).1 := by
  unfold planAcmeProvider
  cases hfind : managedProvider objects with
  | none => exact bounded_creating ⟨hfind, rfl⟩
  | some o =>
    exact bounded_updateDiff (List.mem_of_find?_eq_some hfind) hfind (List.Subset.refl _)

theorem bounded_domains
    (h : planDomains hostname (some provider) objects = .ok args) : Bounded .domain objects args := by
  obtain ⟨-, rfl⟩ := planDomains_eq_ok_iff.mp h
  refine ⟨fun update hupdate => ?_, nofun, nofun⟩
  obtain ⟨d, hd, hfields⟩ := List.mem_filterMap.mp hupdate
  unfold domainUpdate at hfields
  split at hfields
  · rename_i fields hplan
    cases hfields
    rcases planDomainSans_cases hplan with ⟨hnone, -⟩ | ⟨hauto, sans, -, -, -, hsome⟩
    · cases hnone
    · cases hsome
      exact ⟨d, hd, rfl, hauto, List.Subset.refl _⟩
  · cases hfields

theorem bounded_http : Bounded .http objects (planHttpChange objects) := by
  cases objects with
  | nil => exact bounded_creating ⟨rfl, rfl⟩
  | cons o rest => exact bounded_updateDiff List.mem_cons_self rfl (List.Subset.refl _)

theorem bounded_metrics : Bounded .metrics objects (planMetricsChange objects) := by
  cases objects with
  | nil => exact bounded_creating ⟨rfl, rfl⟩
  | cons o rest =>
    rw [planMetricsChange]
    split
    · exact bounded_none
    · exact bounded_updating List.mem_cons_self rfl (List.Subset.refl _)

theorem bounded_tracer : Bounded .tracer objects (planTracerChange objects) := by
  cases objects with
  | nil => exact bounded_none
  | cons o rest =>
    rw [planTracerChange]
    split
    · exact bounded_none
    · exact bounded_updating List.mem_cons_self rfl (List.Subset.refl _)

theorem bounded_security (h : planSecurityList objects = .ok args) :
    Bounded .security objects args := by
  cases objects with
  | nil => cases h
  | cons o rest =>
    cases h
    exact bounded_updateDiff List.mem_cons_self rfl (List.Subset.refl _)

theorem bounded_allowedIps (h : planAllowedIps objects allowedIps = .ok args) :
    Bounded .allowedIp objects args := by
  obtain ⟨-, rfl⟩ := planAllowedIps_eq_ok_iff.mp h
  refine ⟨nofun, fun new hnew => ?_, nofun⟩
  obtain ⟨pair, hpair, rfl⟩ := List.mem_map.mp hnew
  exact ⟨pair, hpair, rfl⟩

theorem untouched_of_reached {plan : List Obj → Except Failure SetArgs} {after : List Obj}
    (hids : (objects.map Obj.id).Nodup) (hreached : Reached plan objects after)
    (hplan : ∀ args, plan objects = .ok args → Bounded kind objects args) :
    UntouchedKind kind objects after := by
  obtain ⟨args, ids, hargs, -, rfl⟩ := hreached
  have hbounded := hplan args hargs
  constructor
  · intro o ho
    by_cases hdestroy : o.id ∈ args.destroy
    · obtain ⟨o', ho', hid, hremoved⟩ := hbounded.destroy o.id hdestroy
      cases List.inj_on_of_nodup_map hids ho ho' hid
      exact .inl hremoved
    · refine .inr ⟨updateObj args.update o, ?_, updateObj_id, fun name hname => ?_, fun hnot => ?_⟩
      · refine List.mem_append_left _ (List.mem_map_of_mem (List.mem_filter.mpr ⟨ho, ?_⟩))
        simpa using hdestroy
      · refine get?_updateObj fun update hupdate _ hmem => ?_
        obtain ⟨_, -, -, -, hfields⟩ := hbounded.update update hupdate
        exact hname (hfields hmem)
      · refine updateObj_of_not_mem fun hmem => hnot ?_
        obtain ⟨update, hupdate, hid⟩ := List.mem_map.mp hmem
        obtain ⟨o', ho', hid', hmanaged, -⟩ := hbounded.update update hupdate
        cases List.inj_on_of_nodup_map hids ho ho' (hid.symm.trans hid')
        exact hmanaged
  · intro o' ho'
    rcases List.mem_append.mp ho' with hold | hnew
    · obtain ⟨o, ho, rfl⟩ := List.mem_map.mp hold
      exact .inl ⟨o, List.mem_of_mem_filter ho, updateObj_id⟩
    · obtain ⟨new, hmem, hfields⟩ := mem_created hnew
      exact .inr (hfields ▸ hbounded.create new hmem)

theorem untouched_of_setsAll {w w' : World} (hids : DistinctIds w.stored)
    (hall : SetsAll (plans hostname provider) w w') : Untouched w.stored w'.stored := by
  have hreached := (hall.reached (by rw [map_fst_plans]; decide)).1
  simp only [plans, List.forall_mem_cons] at hreached
  obtain ⟨hprovider, hlisteners, hdomains, hhttp, hmetrics, htracer, hsecurity, hallowed, -⟩ :=
    hreached
  intro kind
  cases kind with
  | networkListener =>
    exact untouched_of_reached (hids _) hlisteners fun _ => bounded_listeners
  | acmeProvider =>
    exact untouched_of_reached (hids _) hprovider (by rintro _ ⟨⟩; exact bounded_provider)
  | domain => exact untouched_of_reached (hids _) hdomains fun _ => bounded_domains
  | http => exact untouched_of_reached (hids _) hhttp (by rintro _ ⟨⟩; exact bounded_http)
  | metrics => exact untouched_of_reached (hids _) hmetrics (by rintro _ ⟨⟩; exact bounded_metrics)
  | tracer => exact untouched_of_reached (hids _) htracer (by rintro _ ⟨⟩; exact bounded_tracer)
  | security => exact untouched_of_reached (hids _) hsecurity fun _ => bounded_security
  | allowedIp => exact untouched_of_reached (hids _) hallowed fun _ => bounded_allowedIps

end Frame

section Convergence

variable {v : View} {hostname : Str} {w w' : World} {b : Bool}

/-- A read that gives every field back. -/
def plainView : View where
  shown _ o := o
  id _ _ := rfl
  field _ _ _ _ := rfl
  prometheus _ := rfl

theorem plainView_read : plainView.read = fun _ objects => objects :=
  funext fun _ => funext fun objects => List.map_id' objects

theorem reconcile_setUp : (reconcile "mx1".toList).run (server none) setUp =
    (.ok true, afterFailure) := by
  rfl

theorem distinctIds_setUp : DistinctIds setUp.stored := by
  intro kind
  cases kind <;> decide

/-- A server with two listeners of one name, of which the last alone has its target. -/
def repeatedListener : World :=
  { setUp with
    stored := Function.update afterFailure.stored .networkListener
      (⟨"x".toList, [entry "name" (text "smtp")]⟩ ::
        ⟨"y".toList, entry "name" (text "smtp") :: (managedListener "smtp" "[::]:25" "smtp" false).2⟩ ::
        afterFailure.stored .networkListener) }

theorem reconcile_repeatedListener :
    (reconcile "mx1".toList).run (server none) repeatedListener = (.ok false, repeatedListener) := by
  rfl

end Convergence

end Configuration
end SharedInfra.Mail
