import SharedInfra.Mail.PlanConvergence
import SharedInfra.Mail.ConfigureSafety

/-!
# The mail configuration converges

A run whose reconciliations all succeed leaves every object it manages with its target
(`Converged`), and everything else as it was (`Untouched`); where no removed name was repeated, a
second run finds nothing to set (`nothingPlanned_of_setsAll`).  A read may mask secrets (`View`).
-/

namespace SharedInfra.Mail
namespace Configuration

open Python Effects Prog

section Views

/-- The fields the planners read, apart from the exporter's. -/
def readFields : Kind → List Str
  | .networkListener =>
    ["name".toList, "bind".toList, "protocol".toList, "useTls".toList, "tlsImplicit".toList]
  | .acmeProvider => acmeProviderTarget.map Prod.fst
  | .domain => ["name".toList, "certificateManagement".toList]
  | .http => httpTarget.map Prod.fst
  | .metrics => []
  | .tracer => ["@type".toList, "level".toList]
  | .security => securityTarget.map Prod.fst
  | .allowedIp => ["address".toList]

/-- What a read gives of an object: its id and every field but secrets, which come back masked. -/
structure View where
  shown : Kind → Obj → Obj
  id : ∀ kind o, (shown kind o).id = o.id
  field : ∀ kind o, ∀ name ∈ readFields kind,
    Dict.get? (shown kind o).fields name = Dict.get? o.fields name
  prometheus : ∀ o, prometheusIsReconciled ((shown .metrics o).get "prometheus") =
    prometheusIsReconciled (o.get "prometheus")

def View.read (v : View) (kind : Kind) (objects : List Obj) : List Obj :=
  objects.map (v.shown kind)

def maskField (mask : Val → Val) (name : Str) (d : Dict) : Dict :=
  d.map fun field => if field.1 = name then (field.1, mask field.2) else field

theorem get?_maskField (mask : Val → Val) (name other : Str) (d : Dict) :
    Dict.get? (maskField mask name d) other =
      (Dict.get? d other).map fun v => if other = name then mask v else v := by
  induction d with
  | nil => rfl
  | cons field d ih =>
    obtain ⟨third, v⟩ := field
    rw [maskField, List.map_cons, Dict.get?, Dict.get?, List.lookup_cons]
    by_cases h : other = third
    · subst h
      by_cases hname : other = name <;> simp [hname]
    · have hne : (other == third) = false := beq_eq_false_iff_ne.mpr h
      have hhead : (other == (if third = name then (third, mask v) else (third, v)).1) = false := by
        split <;> exact hne
      rw [List.lookup_cons, hhead, hne]
      exact ih

/-- The value of `prometheus` with its secret masked. -/
def maskAuthSecret (mask : Val → Val) : Val → Val
  | .object current => .object (maskField mask "authSecret".toList current)
  | v => v

theorem prometheusIsReconciled_mask {mask : Val → Val}
    (hmask : ∀ secret, isNoSecret (mask secret) = isNoSecret secret) (v : Val) :
    prometheusIsReconciled (maskAuthSecret mask v) = prometheusIsReconciled v := by
  cases v with
  | object current =>
    have htype : Dict.get (maskField mask "authSecret".toList current) "@type".toList =
        Dict.get current "@type".toList := by
      rw [Dict.get, get?_maskField]
      simp [Dict.get]
    have huser : Dict.get (maskField mask "authSecret".toList current) "authUsername".toList =
        Dict.get current "authUsername".toList := by
      rw [Dict.get, get?_maskField]
      simp [Dict.get]
    have hsecret : isNoSecret
        (Dict.get (maskField mask "authSecret".toList current) "authSecret".toList) =
        isNoSecret (Dict.get current "authSecret".toList) := by
      rw [Dict.get, get?_maskField, Dict.get]
      cases Dict.get? current "authSecret".toList with
      | none => rfl
      | some secret => simpa using hmask secret
    rw [maskAuthSecret, prometheusIsReconciled, prometheusIsReconciled, htype, huser, hsecret]
  | _ => rfl

/-- The view in which the exporter's secret is masked, so that it still can be told from none. -/
def maskedView (mask : Val → Val)
    (hmask : ∀ secret, isNoSecret (mask secret) = isNoSecret secret) : View where
  shown
    | .metrics, o => { o with fields := maskField (maskAuthSecret mask) "prometheus".toList o.fields }
    | _, o => o
  id kind o := by cases kind <;> rfl
  field kind o name hname := by
    cases kind with
    | metrics => cases hname
    | _ => rfl
  prometheus o := by
    rw [Obj.get, Dict.get, get?_maskField, Obj.get, Dict.get]
    cases Dict.get? o.fields "prometheus".toList with
    | none => rfl
    | some v => simpa using prometheusIsReconciled_mask hmask v

variable (v : View) {kind : Kind} {o : Obj} {objects : List Obj} {target : Dict} {name : Str}

theorem View.get (hname : name ∈ readFields kind) :
    Dict.get (v.shown kind o).fields name = Dict.get o.fields name := by
  rw [Dict.get, v.field kind o name hname, Dict.get]

theorem fieldDiff_shown (htarget : target.map Prod.fst ⊆ readFields kind) :
    fieldDiff (v.shown kind o).fields target = fieldDiff o.fields target := by
  refine List.filter_congr fun field hfield => ?_
  rw [v.get (htarget (List.mem_map_of_mem hfield))]

theorem updateDiff_shown (htarget : target.map Prod.fst ⊆ readFields kind) :
    updateDiff (v.shown kind o) target = updateDiff o target := by
  rw [updateDiff, updateDiff, fieldDiff_shown v htarget, v.id]

theorem keyField_shown {name : String} (hname : name.toList ∈ readFields kind) :
    keyField name (v.shown kind o) = keyField name o := by
  rw [keyField, keyField, v.field kind o _ hname]

theorem mapM_keyField_read {name : String} (hname : name.toList ∈ readFields kind) :
    (v.read kind objects).mapM (keyField name) = objects.mapM (keyField name) := by
  induction objects with
  | nil => rfl
  | cons o objects ih =>
    rw [View.read, List.map_cons, List.mapM_cons, List.mapM_cons, keyField_shown v hname]
    exact congrArg _ (funext fun _ => congrArg (· >>= _) ih)

theorem planHttpChange_read : planHttpChange (v.read .http objects) = planHttpChange objects := by
  cases objects with
  | nil => rfl
  | cons o rest => exact updateDiff_shown v (List.Subset.refl (readFields .http))

theorem planMetricsChange_read :
    planMetricsChange (v.read .metrics objects) = planMetricsChange objects := by
  cases objects with
  | nil => rfl
  | cons o rest =>
    change (if _ then _ else SetArgs.updating (v.shown .metrics o).id _) = _
    rw [v.prometheus, v.id]
    rfl

theorem planTracerChange_read :
    planTracerChange (v.read .tracer objects) = planTracerChange objects := by
  cases objects with
  | nil => rfl
  | cons o rest =>
    change (if (Dict.get (v.shown .tracer o).fields _).isString _ = true then _ else
      SetArgs.updating (v.shown .tracer o).id _) = _
    rw [v.get (by decide), v.id, v.field .tracer o _ (by decide)]
    rfl

theorem planSecurityList_read :
    planSecurityList (v.read .security objects) = planSecurityList objects := by
  cases objects with
  | nil => rfl
  | cons o rest =>
    exact congrArg Except.ok (updateDiff_shown v (List.Subset.refl (readFields .security)))

theorem planAcmeProvider_read :
    planAcmeProvider (v.read .acmeProvider objects) = planAcmeProvider objects := by
  have hfind : managedProvider (v.read .acmeProvider objects) =
      (managedProvider objects).map (v.shown .acmeProvider) := by
    rw [managedProvider, View.read, List.find?_map]
    have hsame : ∀ o, (v.shown .acmeProvider o).get "directory" = o.get "directory" :=
      fun o => v.get (by decide)
    simp only [Function.comp_def, hsame]
    rfl
  rw [planAcmeProvider, hfind, planAcmeProvider]
  cases managedProvider objects with
  | none => rfl
  | some o =>
    rw [Option.map_some]
    dsimp only
    rw [updateDiff_shown v (List.Subset.refl _), v.id]

theorem planAllowedIps_read {target : List (Str × Str)} :
    planAllowedIps (v.read .allowedIp objects) target = planAllowedIps objects target := by
  rw [planAllowedIps, mapM_keyField_read v (by decide), planAllowedIps]

theorem byName_read : byName (v.read .networkListener objects) name =
    (byName objects name).map (v.shown .networkListener) :=
  byName_map fun _ => v.get (by decide)

theorem managed_names : ∀ managed ∈ managedListeners,
    managed.2.map Prod.fst ⊆ readFields .networkListener := by
  decide

theorem planListenerChanges_read :
    planListenerChanges (v.read .networkListener objects) = planListenerChanges objects := by
  have hupdate : ∀ managed ∈ managedListeners,
      listenerUpdate (v.read .networkListener objects) managed = listenerUpdate objects managed := by
    intro managed hmanaged
    rw [listenerUpdate, byName_read, listenerUpdate]
    cases byName objects managed.1 with
    | none => rfl
    | some o =>
      rw [Option.map_some]
      dsimp only
      rw [fieldDiff_shown v (managed_names managed hmanaged), v.id]
  have hcreate : ∀ managed ∈ managedListeners,
      listenerCreate (v.read .networkListener objects) managed = listenerCreate objects managed := by
    intro managed _
    rw [listenerCreate, byName_read, Option.isNone_map, listenerCreate]
  have hdestroy : ∀ name ∈ removedListenerNames,
      (byName (v.read .networkListener objects) name).map Obj.id =
        (byName objects name).map Obj.id := by
    intro name _
    rw [byName_read, Option.map_map]
    exact congrArg (Option.map · _) (funext fun o => v.id _ o)
  rw [planListenerChanges, mapM_keyField_read v (by decide), List.filterMap_congr hupdate,
    List.filterMap_congr hcreate, List.filterMap_congr hdestroy, planListenerChanges]

theorem planDomainSans_shown {required : List Str} {acmeProviderId : Option Str} :
    planDomainSans (v.shown .domain o) required acmeProviderId =
      planDomainSans o required acmeProviderId := by
  rw [planDomainSans, getDict, v.field .domain o _ (by decide), planDomainSans, getDict]

theorem domainUpdates_read {hostname : Str} {acmeProviderId : Option Str} :
    domainUpdates hostname acmeProviderId (v.read .domain objects) =
      domainUpdates hostname acmeProviderId objects := by
  rw [domainUpdates, View.read, List.filterMap_map]
  refine List.filterMap_congr fun o _ => ?_
  rw [Function.comp_apply, domainUpdate, planDomainSans_shown v, v.id, domainUpdate]

end Views

section Reached

variable {plan : List Obj → Except Failure SetArgs}

/-- What the loop over the domains sets. -/
def planDomains (hostname : Str) (acmeProviderId : Option Str) (domains : List Obj) :
    Except Failure SetArgs := do
  let _ ← domains.mapM fun d => planDomainSans d [hostname] acmeProviderId
  return ⟨domainUpdates hostname acmeProviderId domains, [], []⟩

/-- What is stored of a kind after the `/set` call that was planned for it. -/
def Reached (plan : List Obj → Except Failure SetArgs) (before after : List Obj) : Prop :=
  ∃ args ids, plan before = .ok args ∧ FreshIds before args ids ∧ after = applySet args ids before

/-- A program sets what is planned for one kind, and nothing else. -/
def Sets (kind : Kind) (plan : List Obj → Except Failure SetArgs) (w w' : World) : Prop :=
  Reached plan (w.stored kind) (w'.stored kind) ∧ ∀ other, other ≠ kind →
    w'.stored other = w.stored other

variable {view : Kind → List Obj → List Obj} {w w' : World} {b : Bool} {kind : Kind}
  {args : SetArgs} {id hostname : Str} {acmeProviderId : Option Str}

theorem sets_of_set {ids : List Str}
    (hplan : plan (w.stored kind) = .ok args) (hfresh : FreshIds (w.stored kind) args ids) :
    Sets kind plan w (w.set kind args ids) := by
  exact ⟨⟨args, ids, hplan, hfresh, World.set_stored_self ..⟩,
    fun other hother => World.set_stored_of_ne hother ..⟩

theorem freshIds_none (objects : List Obj) (h : args.isEmpty = true) :
    FreshIds objects args [] ∧ args = .none := by
  obtain ⟨update, create, destroy⟩ := args
  simp only [SetArgs.isEmpty, Bool.and_eq_true, List.isEmpty_iff] at h
  obtain ⟨⟨rfl, rfl⟩, rfl⟩ := h
  exact ⟨⟨rfl, List.nodup_nil, nofun⟩, rfl⟩

theorem sets_of_none
    (hplan : plan (w.stored kind) = .ok args) (h : args.isEmpty = true) : Sets kind plan w w := by
  obtain ⟨hfresh, rfl⟩ := freshIds_none (w.stored kind) h
  exact ⟨⟨_, [], hplan, hfresh, (applySet_none _ _).symm⟩, fun _ _ => rfl⟩

theorem sets_setIfPlanned
    (hplan : plan (w.stored kind) = .ok args)
    (h : Exec (does view) (setIfPlanned kind args) w (.ok b) w') : Sets kind plan w w' := by
  unfold setIfPlanned at h
  cases hempty : args.isEmpty with
  | true =>
    rw [if_pos hempty] at h
    obtain ⟨-, rfl⟩ := exec_pure h
    exact sets_of_none hplan hempty
  | false =>
    rw [if_neg (by simp [hempty])] at h
    obtain ⟨ids, mid, hcall, hdone⟩ := exec_bind_ok h
    obtain ⟨-, rfl⟩ := exec_pure hdone
    obtain ⟨hfresh, rfl⟩ := exec_call_ok hcall
    exact sets_of_set hplan hfresh

theorem sets_kind
    (hview : plan (view kind (w.stored kind)) = plan (w.stored kind))
    (h : Exec (does view) (do
      let objects ← call (.get kind)
      let args ← done (plan objects)
      setIfPlanned kind args) w (.ok b) w') : Sets kind plan w w' := by
  obtain ⟨args, mid, hplan, hset⟩ := exec_bind_ok (exec_get h)
  obtain ⟨hargs, rfl⟩ := exec_lift hplan
  exact sets_setIfPlanned (hview ▸ hargs) hset

theorem sets_plain {plan : List Obj → SetArgs}
    (hview : plan (view kind (w.stored kind)) = plan (w.stored kind))
    (h : Exec (does view) (do
      let objects ← call (.get kind)
      setIfPlanned kind (plan objects)) w (.ok b) w') :
    Sets kind (fun objects => .ok (plan objects)) w w' :=
  sets_setIfPlanned (congrArg Except.ok hview).symm (exec_get h)

theorem updateObj_cons {updates : List (Str × Dict)} {fields : Dict}
    (h : id ∉ updates.map Prod.fst) (o : Obj) :
    updateObj updates (updateObj [(id, fields)] o) = updateObj ((id, fields) :: updates) o := by
  by_cases hid : o.id = id
  · subst hid
    rw [updateObj_of_not_mem (by rw [updateObj_id]; exact h), updateObj, updateObj]
    simp
  · have hbeq : (o.id == id) = false := beq_eq_false_iff_ne.mpr hid
    have hother : o.id ∉ [(id, fields)].map Prod.fst := by simpa using hid
    rw [updateObj_of_not_mem hother, updateObj, updateObj, List.lookup_cons, hbeq]

theorem domainUpdates_ids (domains : List Obj) :
    (domainUpdates hostname acmeProviderId domains).map Prod.fst ⊆ domains.map Obj.id := by
  intro id hid
  obtain ⟨⟨_, fields⟩, hmem, rfl⟩ := List.mem_map.mp hid
  obtain ⟨d, hd, hupdate⟩ := List.mem_filterMap.mp hmem
  unfold domainUpdate at hupdate
  split at hupdate
  · cases hupdate
    exact List.mem_map_of_mem hd
  · cases hupdate

theorem exec_reconcileDomain {d : Obj}
    (h : Exec (does view) (reconcileDomain hostname acmeProviderId d) w (.ok b) w') :
    ∃ r, planDomainSans d [hostname] acmeProviderId = .ok r ∧
      w'.stored .domain = (w.stored .domain).map
        (updateObj (domainUpdate hostname acmeProviderId d).toList) ∧
      ∀ other, other ≠ .domain → w'.stored other = w.stored other := by
  obtain ⟨r, mid, hplan, hset⟩ := exec_bind_ok h
  obtain ⟨hr, rfl⟩ := exec_lift hplan
  refine ⟨r, hr, ?_⟩
  rw [domainUpdate, hr]
  cases r with
  | none =>
    obtain ⟨_, mid', hprint, hdone⟩ := exec_bind_ok (p := (done (printDomain d) : Run Unit)) hset
    obtain ⟨-, rfl⟩ := exec_lift hprint
    obtain ⟨-, rfl⟩ := exec_pure hdone
    have hsame : ∀ o ∈ w'.stored .domain, updateObj [] o = o := fun _ _ => rfl
    exact ⟨by rw [Option.toList_none, List.map_congr_left hsame, List.map_id'], fun _ _ => rfl⟩
  | some fields =>
    obtain ⟨ids, mid', hcall, hrest⟩ := exec_bind_ok
      (p := call (.set .domain (.updating d.id fields))) hset
    obtain ⟨-, rfl⟩ := exec_call_ok hcall
    obtain ⟨_, mid'', hprint, hdone⟩ :=
      exec_bind_ok (p := (done (printDomain d) : Run Unit)) hrest
    obtain ⟨-, rfl⟩ := exec_lift hprint
    obtain ⟨-, rfl⟩ := exec_pure hdone
    refine ⟨?_, fun other hother => World.set_stored_of_ne hother ..⟩
    rw [World.set_stored_self, applySet_updating]
    rfl

theorem exec_domains {domains : List Obj} (hids : (domains.map Obj.id).Nodup)
    (h : Exec (does view) (anyOf (domains.map (reconcileDomain hostname acmeProviderId))) w (.ok b)
      w') :
    (∀ d ∈ domains, ∃ r, planDomainSans d [hostname] acmeProviderId = .ok r) ∧
      w'.stored .domain = (w.stored .domain).map
        (updateObj (domainUpdates hostname acmeProviderId domains)) ∧
      ∀ other, other ≠ .domain → w'.stored other = w.stored other := by
  induction domains generalizing w b with
  | nil =>
    obtain ⟨-, rfl⟩ := exec_pure h
    have hsame : ∀ o ∈ w'.stored .domain, updateObj [] o = o := fun _ _ => rfl
    exact ⟨nofun, (List.map_congr_left hsame |>.trans (List.map_id' _)).symm, fun _ _ => rfl⟩
  | cons d domains ih =>
    rw [List.map_cons, List.nodup_cons] at hids
    obtain ⟨changed, mid, hfirst, hrest⟩ := exec_bind_ok
      (p := reconcileDomain hostname acmeProviderId d) h
    obtain ⟨others, mid', hothers, hdone⟩ := exec_bind_ok
      (p := anyOf (domains.map (reconcileDomain hostname acmeProviderId))) hrest
    obtain ⟨-, rfl⟩ := exec_pure hdone
    obtain ⟨r, hr, hstored, hframe⟩ := exec_reconcileDomain hfirst
    obtain ⟨hplans, hstored', hframe'⟩ := ih hids.2 hothers
    refine ⟨List.forall_mem_cons.mpr ⟨⟨r, hr⟩, hplans⟩, ?_, fun other hother => ?_⟩
    · rw [hstored', hstored, List.map_map]
      refine List.map_congr_left fun o _ => ?_
      have hcons : domainUpdates hostname acmeProviderId (d :: domains) =
          (domainUpdate hostname acmeProviderId d).toList ++
            domainUpdates hostname acmeProviderId domains := by
        rw [domainUpdates, List.filterMap_cons]
        cases domainUpdate hostname acmeProviderId d <;> rfl
      rw [Function.comp_apply, hcons]
      cases hupdate : domainUpdate hostname acmeProviderId d with
      | none => rfl
      | some update =>
        have hid : update.1 = d.id := by
          unfold domainUpdate at hupdate
          split at hupdate
          · cases hupdate
            rfl
          · cases hupdate
        exact updateObj_cons (fun hmem => hids.1 (hid ▸ domainUpdates_ids _ hmem)) o
    · exact (hframe' other hother).trans (hframe other hother)

variable {v : View}

theorem planDomains_eq_ok_iff {domains : List Obj} :
    planDomains hostname acmeProviderId domains = .ok args ↔
      (∀ d ∈ domains, ∃ r, planDomainSans d [hostname] acmeProviderId = .ok r) ∧
        args = ⟨domainUpdates hostname acmeProviderId domains, [], []⟩ := by
  rw [planDomains, bind_eq_ok_iff, ← mapM_succeeds_iff, ← exists_and_right]
  refine exists_congr fun values => and_congr_right fun _ => ?_
  exact ⟨fun h => by cases h; rfl, fun h => by rw [h]; rfl⟩

theorem sets_domains (hids : ((w.stored .domain).map Obj.id).Nodup)
    (h : Exec (does v.read) (reconcileDomains hostname acmeProviderId) w (.ok b) w') :
    Sets .domain (planDomains hostname acmeProviderId) w w' := by
  have hread : ((v.read .domain (w.stored .domain)).map Obj.id).Nodup := by
    have hsame : ∀ o ∈ w.stored .domain, (Obj.id ∘ v.shown .domain) o = o.id :=
      fun o _ => v.id .domain o
    rwa [View.read, List.map_map, List.map_congr_left hsame]
  obtain ⟨hplans, hstored, hframe⟩ := exec_domains hread (exec_get h)
  rw [View.read, List.forall_mem_map] at hplans
  refine ⟨⟨⟨domainUpdates hostname acmeProviderId (w.stored .domain), [], []⟩, [], ?_, ?_, ?_⟩,
    hframe⟩
  · refine planDomains_eq_ok_iff.mpr ⟨fun d hd => ?_, rfl⟩
    rw [← planDomainSans_shown v]
    exact hplans d hd
  · exact ⟨rfl, List.nodup_nil, nofun⟩
  · rw [hstored, domainUpdates_read]
    simp [applySet]

/-- `_reconcile_acme_provider` sets what is planned for the providers, and returns the id of the
one it manages then. -/
theorem sets_provider {id : Option Str} (hids : ((w.stored .acmeProvider).map Obj.id).Nodup)
    (h : Exec (does v.read) reconcileAcmeProvider w (.ok (b, id)) w') :
    Sets .acmeProvider (fun providers => .ok (planAcmeProvider providers).1) w w' ∧
      ∃ provider, planAcmeProvider (w'.stored .acmeProvider) = (.none, some provider) ∧
        id = some provider := by
  have hset := exec_get h
  rw [planAcmeProvider_read] at hset
  unfold setProvider at hset
  cases hempty : (planAcmeProvider (w.stored .acmeProvider)).1.isEmpty with
  | true =>
    rw [if_pos hempty] at hset
    obtain ⟨hb, rfl⟩ := exec_pure hset
    cases hb
    obtain ⟨hfresh, hnone⟩ := freshIds_none (w'.stored .acmeProvider) hempty
    obtain ⟨provider, hplan, hid⟩ := provider_settles hids hfresh
    rw [hnone, applySet_none] at hplan
    refine ⟨sets_of_none rfl hempty, provider, hplan, ?_⟩
    rcases hid with ⟨hid, -⟩ | ⟨-, hid⟩
    · exact hid
    · cases hid
  | false =>
    rw [if_neg (by simp [hempty])] at hset
    obtain ⟨ids, mid, hcall, hrest⟩ := exec_bind_ok hset
    obtain ⟨hfresh, rfl⟩ := exec_call_ok hcall
    obtain ⟨id', mid', hprovider, hdone⟩ := exec_bind_ok hrest
    obtain ⟨hid', rfl⟩ := exec_lift hprovider
    obtain ⟨hb, rfl⟩ := exec_pure hdone
    cases hb
    obtain ⟨provider, hplan, hid⟩ := provider_settles hids hfresh
    refine ⟨sets_of_set rfl hfresh, provider, ?_, ?_⟩
    · rw [World.set_stored_self]
      exact hplan
    · unfold providerId at hid'
      rcases hid with ⟨hplanned, hcreate⟩ | ⟨hcreate, rfl⟩
      · rw [if_pos (by rw [hcreate]; rfl)] at hid'
        cases hid'
        exact hplanned
      · rw [if_neg (by simpa using hcreate)] at hid'
        cases hid'
        rfl

/-- Programs in turn, each of which sets what is planned for its kind. -/
inductive SetsAll : List (Kind × (List Obj → Except Failure SetArgs)) → World → World → Prop where
  | nil {w : World} : SetsAll [] w w
  | cons {kind : Kind} {plan : List Obj → Except Failure SetArgs} {rest} {w mid w' : World}
      (h : Sets kind plan w mid) (hrest : SetsAll rest mid w') : SetsAll ((kind, plan) :: rest) w w'

theorem SetsAll.reached {steps : List (Kind × (List Obj → Except Failure SetArgs))}
    (h : SetsAll steps w w') (hkinds : (steps.map Prod.fst).Nodup) :
    (∀ step ∈ steps, Reached step.2 (w.stored step.1) (w'.stored step.1)) ∧
      ∀ kind, kind ∉ steps.map Prod.fst → w'.stored kind = w.stored kind := by
  induction h with
  | nil => exact ⟨nofun, fun _ _ => rfl⟩
  | @cons kind plan rest w mid w' hfirst _ ih =>
    rw [List.map_cons, List.nodup_cons] at hkinds
    obtain ⟨hreached, hframe⟩ := ih hkinds.2
    refine ⟨List.forall_mem_cons.mpr ⟨?_, fun step hstep => ?_⟩, fun other hother => ?_⟩
    · rw [hframe kind hkinds.1]
      exact hfirst.1
    · have hne : step.1 ≠ kind := by
        rintro rfl
        exact hkinds.1 (List.mem_map.mpr ⟨step, hstep, rfl⟩)
      rw [← hfirst.2 step.1 hne]
      exact hreached step hstep
    · rw [List.map_cons, List.mem_cons, not_or] at hother
      rw [hframe other hother.2, hfirst.2 other hother.1]

theorem exec_anyOf_cons {p : Run Bool} {ps : List (Run Bool)}
    (h : Exec (does view) (anyOf (p :: ps)) w (.ok b) w') :
    ∃ changed mid others, Exec (does view) p w (.ok changed) mid ∧
      Exec (does view) (anyOf ps) mid (.ok others) w' := by
  obtain ⟨changed, mid, hfirst, hrest⟩ := exec_bind_ok h
  obtain ⟨others, mid', hothers, hdone⟩ := exec_bind_ok (p := anyOf ps) hrest
  obtain ⟨-, rfl⟩ := exec_pure hdone
  exact ⟨changed, mid, others, hfirst, hothers⟩

/-- The plans of a run, for a provider. -/
def plans (hostname provider : Str) : List (Kind × (List Obj → Except Failure SetArgs)) :=
  [(.acmeProvider, fun providers => .ok (planAcmeProvider providers).1),
    (.networkListener, planListenerChanges),
    (.domain, planDomains hostname (some provider)),
    (.http, fun objects => .ok (planHttpChange objects)),
    (.metrics, fun objects => .ok (planMetricsChange objects)),
    (.tracer, fun objects => .ok (planTracerChange objects)),
    (.security, planSecurityList),
    (.allowedIp, fun current => planAllowedIps current allowedIps)]

theorem map_fst_plans (hostname provider : Str) : (plans hostname provider).map Prod.fst =
    [.acmeProvider, .networkListener, .domain, .http, .metrics, .tracer, .security, .allowedIp] :=
  rfl

theorem sets_reconcile (hacme : ((w.stored .acmeProvider).map Obj.id).Nodup)
    (hdomain : ((w.stored .domain).map Obj.id).Nodup)
    (h : Exec (does v.read) (reconcile hostname) w (.ok b) w') :
    ∃ provider, planAcmeProvider (w'.stored .acmeProvider) = (.none, some provider) ∧
      SetsAll (plans hostname provider) w w' := by
  obtain ⟨⟨acmeChanged, id⟩, w₁, hprovider, hrest⟩ := exec_bind_ok h
  obtain ⟨hset₁, provider, hplan, rfl⟩ := sets_provider hacme hprovider
  obtain ⟨_, w₂, _, hlisteners, hrest⟩ := exec_anyOf_cons hrest
  have hset₂ : Sets .networkListener planListenerChanges w₁ w₂ :=
    sets_kind (planListenerChanges_read v) hlisteners
  obtain ⟨_, _, _, hpure, hrest⟩ := exec_anyOf_cons hrest
  rw [(exec_pure hpure).2] at hrest
  obtain ⟨_, w₃, _, hdomains, hrest⟩ := exec_anyOf_cons hrest
  have hsame : w₂.stored .domain = w.stored .domain := by
    rw [hset₂.2 .domain (by decide), hset₁.2 .domain (by decide)]
  have hset₃ := sets_domains (hsame ▸ hdomain) hdomains
  obtain ⟨_, w₄, _, hhttp, hrest⟩ := exec_anyOf_cons hrest
  have hset₄ := sets_plain (planHttpChange_read v) hhttp
  obtain ⟨_, w₅, _, hmetrics, hrest⟩ := exec_anyOf_cons hrest
  have hset₅ := sets_plain (planMetricsChange_read v) hmetrics
  obtain ⟨_, w₆, _, htracer, hrest⟩ := exec_anyOf_cons hrest
  have hset₆ := sets_plain (planTracerChange_read v) htracer
  obtain ⟨_, w₇, _, hsecurity, hrest⟩ := exec_anyOf_cons hrest
  have hset₇ : Sets .security planSecurityList w₆ w₇ := sets_kind (planSecurityList_read v) hsecurity
  obtain ⟨_, w₈, _, hallowed, hrest⟩ := exec_anyOf_cons hrest
  have hset₈ : Sets .allowedIp (fun current => planAllowedIps current allowedIps) w₇ w₈ :=
    sets_kind (planAllowedIps_read v) hallowed
  obtain ⟨-, rfl⟩ := exec_pure hrest
  have hothers : SetsAll (plans hostname provider).tail w₁ w' :=
    .cons hset₂ <| .cons hset₃ <| .cons hset₄ <| .cons hset₅ <| .cons hset₆ <|
      .cons hset₇ <| .cons hset₈ .nil
  refine ⟨provider, ?_, .cons hset₁ hothers⟩
  have hkinds : (plans hostname provider).tail.map Prod.fst =
      [.networkListener, .domain, .http, .metrics, .tracer, .security, .allowedIp] := rfl
  rw [(hothers.reached (by rw [hkinds]; decide)).2 .acmeProvider (by rw [hkinds]; decide)]
  exact hplan

end Reached

section Convergence

def DistinctIds (config : Config) : Prop := ∀ kind, ((config kind).map Obj.id).Nodup

/-- The objects of each kind have their targets. -/
structure Converged (hostname : Str) (before after : Config) : Prop where
  listener : ∀ managed ∈ managedListeners, ∀ o,
    byName (after .networkListener) managed.1 = some o → HasFields o managed.2
  created : ∀ managed ∈ managedListeners, managed.1 ∈ createIfMissing →
    byName (after .networkListener) managed.1 ≠ none
  removed : ∀ name ∈ removedListenerNames, Unrepeated (before .networkListener) name →
    ∀ o ∈ after .networkListener, ¬ Named name o
  provider : ∃ provider, managedProvider (after .acmeProvider) = some provider ∧
    HasFields provider acmeProviderTarget ∧
    ∀ d ∈ after .domain, Automatic (certOf d) → Covers (certOf d) hostname provider.id
  sans : ∀ d ∈ before .domain, ∃ d' ∈ after .domain, d'.id = d.id ∧
    ∀ san ∈ sansOf (certOf d), san ∈ sansOf (certOf d')
  http : ∃ o, (after .http).head? = some o ∧ HasFields o httpTarget
  metrics : ∃ o, (after .metrics).head? = some o ∧
    prometheusIsReconciled (o.get "prometheus") = true
  tracer : ∀ o, (after .tracer).head? = some o → (o.get "@type").isString "Stdout".toList = true
  security : ∃ o, (after .security).head? = some o ∧ HasFields o securityTarget
  allowedIp : ∀ pair ∈ allowedIps, ∃ o ∈ after .allowedIp, (o.get "address").isString pair.1 = true

variable {v : View} {hostname provider : Str} {w w' w'' : World} {b b' : Bool} {o : Obj}
  {objects : List Obj} {target : Dict}

theorem hasFields_of_none (h : updateDiff o target = .none) : HasFields o target :=
  hasFields_of_isEmpty (by rw [h]; rfl)

theorem provider_of_plan (h : planAcmeProvider objects = (.none, some provider)) :
    ∃ o, managedProvider objects = some o ∧ o.id = provider ∧ HasFields o acmeProviderTarget := by
  unfold planAcmeProvider at h
  cases hfind : managedProvider objects with
  | none => rw [hfind] at h; cases h
  | some o =>
    rw [hfind, Prod.mk.injEq, Option.some.injEq] at h
    exact ⟨o, rfl, h.2, hasFields_of_none h.1⟩

theorem http_of_plan (h : planHttpChange objects = .none) :
    ∃ o, objects.head? = some o ∧ HasFields o httpTarget := by
  cases objects with
  | nil => cases h
  | cons o rest => exact ⟨o, rfl, hasFields_of_none h⟩

theorem metrics_of_plan (h : planMetricsChange objects = .none) :
    ∃ o, objects.head? = some o ∧ prometheusIsReconciled (o.get "prometheus") = true := by
  cases objects with
  | nil => cases h
  | cons o rest =>
    rw [planMetricsChange] at h
    split at h
    · exact ⟨o, rfl, ‹_›⟩
    · cases h

theorem tracer_of_plan (h : planTracerChange objects = .none) (hhead : objects.head? = some o) :
    (o.get "@type").isString "Stdout".toList = true := by
  cases objects with
  | nil => cases hhead
  | cons o' rest =>
    cases hhead
    rw [planTracerChange] at h
    split at h
    · assumption
    · cases h

theorem security_of_plan (h : planSecurityList objects = .ok .none) :
    ∃ o, objects.head? = some o ∧ HasFields o securityTarget := by
  cases objects with
  | nil => cases h
  | cons o rest =>
    rw [planSecurityList, Except.ok.injEq] at h
    exact ⟨o, rfl, hasFields_of_none h⟩

theorem allowedIps_of_plan {target : List (Str × Str)} (h : planAllowedIps objects target = .ok .none)
    {pair : Str × Str} (hpair : pair ∈ target) :
    ∃ o ∈ objects, (o.get "address").isString pair.1 = true := by
  obtain ⟨-, hargs⟩ := planAllowedIps_eq_ok_iff.mp h
  have habsent : absentIps objects target = [] :=
    List.map_eq_nil_iff.mp (congrArg SetArgs.create hargs).symm
  have hpresent := List.filter_eq_nil_iff.mp habsent pair hpair
  rw [Bool.not_eq_true', Bool.not_eq_false, List.any_eq_true] at hpresent
  exact hpresent

theorem domains_reached (hids : (objects.map Obj.id).Nodup) {after : List Obj}
    (h : Reached (planDomains hostname (some provider)) objects after) :
    (∀ d ∈ after, planDomainSans d [hostname] (some provider) = .ok none) ∧
      ∀ d ∈ objects, ∃ d' ∈ after, d'.id = d.id ∧
        ∀ san ∈ sansOf (certOf d), san ∈ sansOf (certOf d') := by
  obtain ⟨args, ids, hplan, hfresh, rfl⟩ := h
  obtain ⟨hplans, rfl⟩ := planDomains_eq_ok_iff.mp hplan
  have hset : applySet ⟨domainUpdates hostname (some provider) objects, [], []⟩ ids objects =
      objects.map (updateObj (domainUpdates hostname (some provider) objects)) := by
    simp [applySet]
  rw [hset]
  constructor
  · rw [List.forall_mem_map]
    intro d hd
    obtain ⟨r, hr⟩ := hplans d hd
    exact domains_settle hids hd hr
  · intro d hd
    obtain ⟨r, hr⟩ := hplans d hd
    refine ⟨_, List.mem_map_of_mem hd, updateObj_id, fun san hsan => ?_⟩
    rw [updateObj_domainUpdates hids hd hr]
    rcases planDomainSans_cases hr with ⟨rfl, -⟩ | ⟨-, sans, -, hkept, -, rfl⟩
    · exact hsan
    · have hcert : Dict.get? (Dict.update d.fields
          [entry "certificateManagement" (certificateFor provider sans)])
          "certificateManagement".toList = some (certificateFor provider sans) :=
        Dict.get?_update_of_mem (by simp) (List.mem_singleton.mpr rfl)
      exact ((certOf_certificateFor
        (d := { d with fields := Dict.update d.fields _ }) hcert).2.1 san).mpr (hkept san hsan)

theorem converged_of_setsAll (hids : DistinctIds w.stored)
    (hprovider : planAcmeProvider (w'.stored .acmeProvider) = (.none, some provider))
    (hall : SetsAll (plans hostname provider) w w') : Converged hostname w.stored w'.stored := by
  have hreached := (hall.reached (by rw [map_fst_plans]; decide)).1
  simp only [plans, List.forall_mem_cons] at hreached
  obtain ⟨-, hlisteners, hdomains, hhttp, hmetrics, htracer, hsecurity, hallowed, -⟩ := hreached
  obtain ⟨args, ids, hplan, hfresh, hafter⟩ := hlisteners
  obtain ⟨-, rfl⟩ := planListenerChanges_eq_ok_iff.mp hplan
  obtain ⟨_, httpIds, ⟨⟩, hhttpFresh, hhttpAfter⟩ := hhttp
  obtain ⟨_, metricsIds, ⟨⟩, hmetricsFresh, hmetricsAfter⟩ := hmetrics
  obtain ⟨_, tracerIds, ⟨⟩, -, htracerAfter⟩ := htracer
  obtain ⟨_, securityIds, hsecurityPlan, -, hsecurityAfter⟩ := hsecurity
  obtain ⟨_, allowedIds, hallowedPlan, hallowedFresh, hallowedAfter⟩ := hallowed
  obtain ⟨hsettled, hkept⟩ := domains_reached (hids .domain) hdomains
  obtain ⟨managed, hmanaged, rfl, hfields⟩ := provider_of_plan hprovider
  refine { listener := ?_, created := ?_, removed := ?_, provider := ⟨managed, hmanaged, hfields, ?_⟩,
           sans := hkept, http := ?_, metrics := ?_, tracer := ?_, security := ?_, allowedIp := ?_ }
  · rw [hafter]
    exact fun managed hmanaged o hfind => listener_reached (hids .networkListener) hmanaged hfind
  · rw [hafter]
    exact fun managed hmanaged hmay =>
      listener_created (hids .networkListener) hfresh.1 hmanaged hmay
  · rw [hafter]
    exact fun name hname hunrepeated => byName_eq_none_iff.mp
      (listener_removed (hids .networkListener) hname hunrepeated)
  · intro d hd hauto
    rcases planDomainSans_cases (hsettled d hd) with ⟨-, hcovers⟩ | ⟨-, sans, -, -, -, hnone⟩
    · exact hcovers hauto
    · cases hnone
  · exact http_of_plan (hhttpAfter ▸ http_settles (hids .http) hhttpFresh)
  · exact metrics_of_plan (hmetricsAfter ▸ metrics_settles (hids .metrics) hmetricsFresh)
  · exact fun o => tracer_of_plan (htracerAfter ▸ tracer_settles (hids .tracer))
  · exact security_of_plan (hsecurityAfter ▸ security_settles (hids .security) hsecurityPlan)
  · exact fun pair hpair => allowedIps_of_plan
      (hallowedAfter ▸ allowedIps_settle hallowedPlan hallowedFresh) hpair

theorem nothingPlanned_of_setsAll (hids : DistinctIds w.stored)
    (hprovider : planAcmeProvider (w'.stored .acmeProvider) = (.none, some provider))
    (hall : SetsAll (plans hostname provider) w w')
    (hunrepeated : ∀ name ∈ removedListenerNames, Unrepeated (w.stored .networkListener) name) :
    nothingPlanned hostname (fun kind => v.read kind (w'.stored kind)) = true := by
  have hreached := (hall.reached (by rw [map_fst_plans]; decide)).1
  simp only [plans, List.forall_mem_cons] at hreached
  obtain ⟨-, hlisteners, hdomains, hhttp, hmetrics, htracer, hsecurity, hallowed, -⟩ := hreached
  obtain ⟨args, ids, hplan, hfresh, hafter⟩ := hlisteners
  obtain ⟨_, httpIds, ⟨⟩, hhttpFresh, hhttpAfter⟩ := hhttp
  obtain ⟨_, metricsIds, ⟨⟩, hmetricsFresh, hmetricsAfter⟩ := hmetrics
  obtain ⟨_, tracerIds, ⟨⟩, -, htracerAfter⟩ := htracer
  obtain ⟨_, securityIds, hsecurityPlan, -, hsecurityAfter⟩ := hsecurity
  obtain ⟨_, allowedIds, hallowedPlan, hallowedFresh, hallowedAfter⟩ := hallowed
  have hdomainSettled : ∀ d ∈ v.read .domain (w'.stored .domain),
      domainSettled hostname (some provider) d = true := by
    rw [View.read, List.forall_mem_map]
    intro d hd
    rw [domainSettled, planDomainSans_shown, (domains_reached (hids .domain) hdomains).1 d hd]
  rw [nothingPlanned, planAcmeProvider_read, planListenerChanges_read, planHttpChange_read,
    planMetricsChange_read, planTracerChange_read, planSecurityList_read, planAllowedIps_read,
    hprovider, hafter, listeners_settle (hids .networkListener) hplan hfresh hunrepeated,
    hhttpAfter, http_settles (hids .http) hhttpFresh, hmetricsAfter,
    metrics_settles (hids .metrics) hmetricsFresh, htracerAfter, tracer_settles (hids .tracer),
    hsecurityAfter, security_settles (hids .security) hsecurityPlan, hallowedAfter,
    allowedIps_settle hallowedPlan hallowedFresh, List.all_eq_true.mpr hdomainSettled]
  rfl

end Convergence

end Configuration
end SharedInfra.Mail
