import SharedInfra.Mail.ConfigureRun
import SharedInfra.Effects.Moves

/-!
# What the plans of the mail configuration reach

For each kind of object, what is stored after the `/set` call that was planned for it: the
objects have their targets, the same planner finds nothing more to set, and nothing else is
touched.
-/

namespace SharedInfra.Mail
namespace Configuration

open Python Effects

section Fields

variable {d target : Dict} {o : Obj} {ids : List Str} {objects : List Obj}

def HasFields (o : Obj) (target : Dict) : Prop := fieldDiff o.fields target = []

theorem fieldDiff_update (htarget : (target.map Prod.fst).Nodup) (d : Dict) :
    fieldDiff (Dict.update d (fieldDiff d target)) target = [] := by
  have hnodup : ((fieldDiff d target).map Prod.fst).Nodup :=
    htarget.sublist (List.filter_sublist.map _)
  rw [fieldDiff, List.filter_eq_nil_iff]
  intro field hfield
  rw [Bool.not_eq_true', Bool.not_eq_false]
  by_cases hsame : Val.same (Dict.get d field.1) field.2 = true
  · have hname : field.1 ∉ (fieldDiff d target).map Prod.fst := by
      intro hmem
      obtain ⟨other, hother, hname⟩ := List.mem_map.mp hmem
      obtain ⟨hother, hdiff⟩ := List.mem_filter.mp hother
      rw [List.inj_on_of_nodup_map htarget hother hfield hname, hsame] at hdiff
      cases hdiff
    rw [Dict.get, Dict.get?_update_of_not_mem hname]
    exact hsame
  · have hmem : (field.1, field.2) ∈ fieldDiff d target :=
      List.mem_filter.mpr ⟨hfield, by simpa using hsame⟩
    rw [Dict.get, Dict.get?_update_of_mem hnodup hmem]
    exact Val.same_refl _

theorem fieldDiff_names : (fieldDiff d target).map Prod.fst ⊆ target.map Prod.fst :=
  (List.filter_sublist.map _).subset

theorem HasFields.same (h : HasFields o target) {field : Str × Val} (hfield : field ∈ target) :
    Val.same (Dict.get o.fields field.1) field.2 = true := by
  have hsame := List.filter_eq_nil_iff.mp h field hfield
  simpa using hsame

theorem updateDiff_of_hasFields (h : HasFields o target) : updateDiff o target = .none := by
  rw [updateDiff, h]

theorem hasFields_of_isEmpty (h : (updateDiff o target).isEmpty = true) : HasFields o target := by
  unfold updateDiff at h
  split at h
  · assumption
  · cases h

theorem create_updateDiff (o : Obj) (target : Dict) : (updateDiff o target).create = [] := by
  unfold updateDiff
  split <;> rfl

theorem updateDiff_of_not_hasFields (h : ¬ HasFields o target) :
    updateDiff o target = .updating o.id (fieldDiff o.fields target) := by
  unfold updateDiff
  split
  · exact absurd ‹_› h
  · rfl

end Fields

section Set

variable {args : SetArgs} {ids : List Str} {objects : List Obj} {o : Obj} {id : Str}
  {fields : Dict} {updates : List (Str × Dict)}

theorem updateObj_id : (updateObj updates o).id = o.id := by
  unfold updateObj
  split <;> rfl

theorem get?_updateObj {name : Str}
    (h : ∀ update ∈ updates, update.1 = o.id → name ∉ update.2.map Prod.fst) :
    Dict.get? (updateObj updates o).fields name = Dict.get? o.fields name := by
  unfold updateObj
  cases hlookup : updates.lookup o.id with
  | none => rfl
  | some fields =>
    obtain ⟨before, after, rfl, -⟩ := List.lookup_eq_some_iff.mp hlookup
    exact Dict.get?_update_of_not_mem (h (o.id, fields) (by simp) rfl)

theorem updateObj_of_not_mem (h : o.id ∉ updates.map Prod.fst) : updateObj updates o = o := by
  unfold updateObj
  rw [List.lookup_eq_none_iff.mpr fun update hmem => by
    rw [bne_iff_ne]
    rintro heq
    exact h (heq ▸ List.mem_map_of_mem hmem)]

theorem updateObj_of_mem (hmem : (o.id, fields) ∈ updates)
    (hunique : ∀ other, (o.id, other) ∈ updates → other = fields) :
    updateObj updates o = { o with fields := Dict.update o.fields fields } := by
  unfold updateObj
  cases hlookup : updates.lookup o.id with
  | none => exact absurd (List.lookup_eq_none_iff.mp hlookup _ hmem) (by simp)
  | some other =>
    obtain ⟨before, after, rfl, -⟩ := List.lookup_eq_some_iff.mp hlookup
    rw [hunique other (by simp)]

@[simp] theorem applySet_none (ids : List Str) (objects : List Obj) :
    applySet .none ids objects = objects := by
  have hsame : ∀ o ∈ objects, updateObj [] o = o := fun o _ => rfl
  simp [applySet, SetArgs.none, List.map_congr_left hsame]

@[simp] theorem applySet_updating (ids : List Str) (objects : List Obj) :
    applySet (.updating id fields) ids objects = objects.map (updateObj [(id, fields)]) := by
  simp [applySet, SetArgs.updating]

@[simp] theorem applySet_creating (key : Str) (objects : List Obj) :
    applySet (.creating key fields) [id] objects =
      objects ++ [({ id := id, fields := fields } : Obj)] := by
  have hsame : ∀ o ∈ objects, updateObj [] o = o := fun o _ => rfl
  simp [applySet, SetArgs.creating, List.map_congr_left hsame]

theorem freshIds_creating {key : Str} (h : FreshIds objects (.creating key fields) ids) :
    ∃ id, ids = [id] := List.length_eq_one_iff.mp h.1

end Set

section Singletons

variable {objects : List Obj} {target : Dict} {o : Obj} {ids : List Str}

theorem map_updateObj_head {rest : List Obj} {fields : Dict}
    (hids : ((o :: rest).map Obj.id).Nodup) :
    (o :: rest).map (updateObj [(o.id, fields)]) =
      { o with fields := Dict.update o.fields fields } :: rest := by
  rw [List.map_cons, List.nodup_cons] at hids
  have hrest : ∀ other ∈ rest, updateObj [(o.id, fields)] other = other := by
    intro other hother
    refine updateObj_of_not_mem fun hmem => hids.1 ?_
    have hid : other.id = o.id := by simpa using hmem
    exact hid ▸ List.mem_map_of_mem hother
  rw [List.map_cons, List.map_congr_left hrest, List.map_id',
    updateObj_of_mem (List.mem_singleton.mpr rfl) (by simp)]

theorem applySet_updateDiff_head {rest : List Obj} (htarget : (target.map Prod.fst).Nodup)
    (hids : ((o :: rest).map Obj.id).Nodup) (ids : List Str) :
    ∃ o', applySet (updateDiff o target) ids (o :: rest) = o' :: rest ∧ HasFields o' target := by
  by_cases h : HasFields o target
  · exact ⟨o, by rw [updateDiff_of_hasFields h, applySet_none], h⟩
  · refine ⟨{ o with fields := Dict.update o.fields (fieldDiff o.fields target) }, ?_,
      fieldDiff_update htarget o.fields⟩
    rw [updateDiff_of_not_hasFields h, applySet_updating, map_updateObj_head hids]

theorem httpTarget_nodup : (httpTarget.map Prod.fst).Nodup := by decide

theorem metricsTarget_nodup : (metricsTarget.map Prod.fst).Nodup := by decide

theorem securityTarget_nodup : (securityTarget.map Prod.fst).Nodup := by decide

theorem http_settles (hids : (objects.map Obj.id).Nodup)
    (hfresh : FreshIds objects (planHttpChange objects) ids) :
    planHttpChange (applySet (planHttpChange objects) ids objects) = .none := by
  cases objects with
  | nil =>
    obtain ⟨id, rfl⟩ := freshIds_creating hfresh
    have htarget : fieldDiff httpTarget httpTarget = [] := by decide
    rw [planHttpChange, applySet_creating]
    exact updateDiff_of_hasFields (o := ⟨id, httpTarget⟩) htarget
  | cons o rest =>
    obtain ⟨o', hset, hfields⟩ := applySet_updateDiff_head httpTarget_nodup hids ids
    rw [planHttpChange, hset]
    exact updateDiff_of_hasFields hfields

theorem metrics_settles (hids : (objects.map Obj.id).Nodup)
    (hfresh : FreshIds objects (planMetricsChange objects) ids) :
    planMetricsChange (applySet (planMetricsChange objects) ids objects) = .none := by
  cases objects with
  | nil =>
    obtain ⟨id, rfl⟩ := freshIds_creating hfresh
    have htarget : prometheusIsReconciled
        (Dict.get (metricsCreateDefaults ++ metricsTarget) "prometheus".toList) = true := by decide
    rw [planMetricsChange, applySet_creating]
    exact if_pos (e := .updating id metricsTarget) htarget
  | cons o rest =>
    by_cases hreconciled : prometheusIsReconciled (o.get "prometheus") = true
    · rw [planMetricsChange, if_pos hreconciled, applySet_none]
      exact if_pos hreconciled
    · rw [planMetricsChange, if_neg hreconciled, applySet_updating, map_updateObj_head hids]
      have hset := Dict.get?_update_of_mem (d := o.fields) metricsTarget_nodup
        (List.mem_singleton.mpr rfl)
      refine if_pos ?_
      rw [Obj.get, Dict.get, hset]
      decide

theorem tracerTarget_nodup (level : Val) : ((tracerTarget level).map Prod.fst).Nodup := by
  simp only [tracerTarget, entry, List.map_cons, List.map_nil]
  decide

theorem tracer_settles (hids : (objects.map Obj.id).Nodup) :
    planTracerChange (applySet (planTracerChange objects) ids objects) = .none := by
  cases objects with
  | nil => rw [planTracerChange, applySet_none]; rfl
  | cons o rest =>
    by_cases hstdout : (o.get "@type").isString "Stdout".toList = true
    · rw [planTracerChange, if_pos hstdout, applySet_none]
      exact if_pos hstdout
    · rw [planTracerChange, if_neg hstdout, applySet_updating, map_updateObj_head hids]
      generalize (Dict.get? o.fields "level".toList).getD (text "info") = level
      have hset := Dict.get?_update_of_mem (d := o.fields) (tracerTarget_nodup level)
        (List.mem_cons_self ..)
      refine if_pos ?_
      rw [Obj.get, Dict.get, hset]
      rfl

theorem security_settles {args : SetArgs} (hids : (objects.map Obj.id).Nodup)
    (hplan : planSecurityList objects = .ok args) :
    planSecurityList (applySet args ids objects) = .ok .none := by
  cases objects with
  | nil => cases hplan
  | cons o rest =>
    cases hplan
    obtain ⟨o', hset, hfields⟩ := applySet_updateDiff_head securityTarget_nodup hids ids
    rw [planSecurityChange, hset, planSecurityList, planSecurityChange,
      updateDiff_of_hasFields hfields]

end Singletons

section AllowedIps

variable {objects : List Obj} {args : SetArgs} {ids : List Str} {target : List (Str × Str)}

theorem keyField_eq_ok {name : String} {o : Obj} {v : Val}
    (h : keyField name o = .ok v) : Dict.get? o.fields name.toList = some v := by
  unfold keyField at h
  cases hget : Dict.get? o.fields name.toList with
  | none => rw [hget] at h; cases h
  | some v' =>
    rw [hget] at h
    dsimp only at h
    split at h
    · cases h
      rfl
    · cases h

def Keyed (name : String) (o : Obj) : Prop := ∃ v, keyField name o = .ok v

theorem forall_keyed_iff {name : String} : (∀ o ∈ objects, Keyed name o) ↔
    ∃ values, objects.mapM (keyField name) = .ok values := mapM_succeeds_iff.symm

theorem any_isString {values : List Val} {name : String}
    (h : objects.mapM (keyField name) = .ok values) (s : Str) :
    values.any (fun v => v.isString s) = objects.any fun o => (o.get name).isString s := by
  have hpairs := mapM_eq_ok_iff.mp h
  clear h
  induction hpairs with
  | nil => rfl
  | cons hkey _ ih =>
    rw [List.any_cons, List.any_cons, ih, Obj.get, Dict.get, keyField_eq_ok hkey]
    rfl

def absentIps (objects : List Obj) (target : List (Str × Str)) : List (Str × Str) :=
  target.filter fun pair => !objects.any fun o => (o.get "address").isString pair.1

def allowedIpFields (pair : Str × Str) : Dict :=
  [entry "address" (.string pair.1), entry "reason" (.string pair.2)]

theorem planAllowedIps_eq_ok_iff : planAllowedIps objects target = .ok args ↔
    (∀ o ∈ objects, Keyed "address" o) ∧
      args = ⟨[], (absentIps objects target).map fun pair => (pair.1, allowedIpFields pair), []⟩ := by
  rw [planAllowedIps, bind_eq_ok_iff, forall_keyed_iff, ← exists_and_right]
  refine exists_congr fun values => and_congr_right fun hpresent => ?_
  have hany : (fun pair : Str × Str => !values.any fun v => v.isString pair.1) =
      fun pair => !objects.any fun o => (o.get "address").isString pair.1 := by
    funext pair
    rw [any_isString hpresent]
  rw [absentIps, ← hany]
  exact ⟨fun h => by cases h; rfl, fun h => by rw [h]; rfl⟩

theorem applySet_create_only (create : List (Str × Dict)) (ids : List Str) (objects : List Obj) :
    applySet ⟨[], create, []⟩ ids objects =
      objects ++ (ids.zip create).map fun new => ⟨new.1, new.2.2⟩ := by
  have hsame : ∀ o ∈ objects, updateObj [] o = o := fun o _ => rfl
  simp [applySet, List.map_congr_left hsame]

theorem exists_id_of_create {create : List (Str × Dict)} (hlength : ids.length = create.length)
    {new : Str × Dict} (hnew : new ∈ create) : ∃ id, (id, new) ∈ ids.zip create := by
  have hsnd : (ids.zip create).map Prod.snd = create := List.map_snd_zip (by rw [hlength])
  rw [← hsnd] at hnew
  obtain ⟨⟨id, _⟩, hmem, rfl⟩ := List.mem_map.mp hnew
  exact ⟨id, hmem⟩

theorem keyed_allowedIpFields (id : Str) (pair : Str × Str) :
    Keyed "address" ⟨id, allowedIpFields pair⟩ := ⟨.string pair.1, rfl⟩

theorem allowedIps_settle (hplan : planAllowedIps objects target = .ok args)
    (hfresh : FreshIds objects args ids) :
    planAllowedIps (applySet args ids objects) target = .ok .none := by
  obtain ⟨hkeyed, rfl⟩ := planAllowedIps_eq_ok_iff.mp hplan
  rw [applySet_create_only, planAllowedIps_eq_ok_iff]
  refine ⟨List.forall_mem_append.mpr ⟨hkeyed, ?_⟩, ?_⟩
  · rw [List.forall_mem_map]
    intro new hnew
    obtain ⟨pair, -, hpair⟩ := List.mem_map.mp (List.of_mem_zip hnew).2
    rw [← hpair]
    exact keyed_allowedIpFields _ _
  · have habsent : absentIps (objects ++ (ids.zip
        ((absentIps objects target).map fun pair => (pair.1, allowedIpFields pair))).map
          fun new => (⟨new.1, new.2.2⟩ : Obj)) target = [] := by
      rw [absentIps, List.filter_eq_nil_iff]
      intro pair hpair
      rw [Bool.not_eq_true', Bool.not_eq_false, List.any_append, Bool.or_eq_true]
      by_cases hpresent : (objects.any fun o => (o.get "address").isString pair.1) = true
      · exact .inl hpresent
      · have hmissing : pair ∈ absentIps objects target :=
          List.mem_filter.mpr ⟨hpair, by simpa using hpresent⟩
        obtain ⟨id, hid⟩ := exists_id_of_create hfresh.1 (List.mem_map_of_mem hmissing)
        refine .inr (List.any_eq_true.mpr ⟨_, List.mem_map_of_mem hid, ?_⟩)
        exact Val.isString_iff.mpr rfl
    rw [habsent]
    rfl

end AllowedIps

section Provider

variable {objects : List Obj} {ids : List Str} {o : Obj} {p : Obj → Bool}

theorem acmeProviderTarget_nodup : (acmeProviderTarget.map Prod.fst).Nodup := by decide

theorem find?_map_updateObj {fields : Dict} (hids : (objects.map Obj.id).Nodup)
    (hfind : objects.find? p = some o)
    (hp : p { o with fields := Dict.update o.fields fields } = true) :
    (objects.map (updateObj [(o.id, fields)])).find? p =
      some { o with fields := Dict.update o.fields fields } := by
  obtain ⟨-, before, after, rfl, hbefore⟩ := List.find?_eq_some_iff_append.mp hfind
  rw [List.map_append, List.nodup_append] at hids
  have hsame : ∀ other ∈ before, updateObj [(o.id, fields)] other = other := by
    intro other hother
    refine updateObj_of_not_mem fun hmem => ?_
    have hid : other.id = o.id := by simpa using hmem
    exact hids.2.2 _ (List.mem_map_of_mem hother) _ (by simp) hid
  have hself : updateObj [(o.id, fields)] o = { o with fields := Dict.update o.fields fields } :=
    updateObj_of_mem (List.mem_singleton.mpr rfl) (by simp)
  rw [List.map_append, List.map_congr_left hsame, List.map_id', List.map_cons, hself,
    List.find?_append, List.find?_eq_none.mpr fun x hx => by simpa using hbefore x hx,
    Option.none_or, List.find?_cons_of_pos hp]

theorem directory_of_hasFields (h : HasFields o acmeProviderTarget) :
    (o.get "directory").isString acmeDirectory.toList = true :=
  h.same (List.mem_cons_self ..)

theorem provider_settles (hids : (objects.map Obj.id).Nodup)
    (hfresh : FreshIds objects (planAcmeProvider objects).1 ids) :
    ∃ id, planAcmeProvider (applySet (planAcmeProvider objects).1 ids objects) = (.none, some id) ∧
      ((planAcmeProvider objects).2 = some id ∧ (planAcmeProvider objects).1.create = [] ∨
        (planAcmeProvider objects).1.create ≠ [] ∧ ids = [id]) := by
  unfold planAcmeProvider at hfresh ⊢
  cases hfind : managedProvider objects with
  | none =>
    rw [hfind] at hfresh
    obtain ⟨id, rfl⟩ := freshIds_creating hfresh
    have htarget : HasFields ⟨id, acmeProviderTarget⟩ acmeProviderTarget := by
      have hself : fieldDiff acmeProviderTarget acmeProviderTarget = [] := by decide
      exact hself
    have hfound : managedProvider (objects ++ [(⟨id, acmeProviderTarget⟩ : Obj)]) =
        some ⟨id, acmeProviderTarget⟩ := by
      rw [managedProvider, List.find?_append, ← managedProvider, hfind, Option.none_or]
      exact List.find?_cons_of_pos (directory_of_hasFields htarget)
    refine ⟨id, ?_, .inr ⟨nofun, rfl⟩⟩
    simp only [applySet_creating, hfound, updateDiff_of_hasFields htarget]
  | some o =>
    refine ⟨o.id, ?_, .inl ⟨rfl, ?_⟩⟩
    · by_cases h : HasFields o acmeProviderTarget
      · simp only [updateDiff_of_hasFields h, applySet_none, hfind]
      · have htarget : HasFields
            { o with fields := Dict.update o.fields (fieldDiff o.fields acmeProviderTarget) }
            acmeProviderTarget := fieldDiff_update acmeProviderTarget_nodup o.fields
        have hfound := find?_map_updateObj hids hfind (directory_of_hasFields htarget)
        rw [← managedProvider] at hfound
        simp only [updateDiff_of_not_hasFields h, applySet_updating, hfound,
          updateDiff_of_hasFields htarget]
    · exact create_updateDiff o acmeProviderTarget

end Provider

section Domains

variable {hostname id : Str} {acmeProviderId : Option Str} {d : Obj} {domains : List Obj}
  {sans : List Str} {cert fields : Dict}

def domainUpdate (hostname : Str) (acmeProviderId : Option Str) (d : Obj) :
    Option (Str × Dict) :=
  match planDomainSans d [hostname] acmeProviderId with
  | .ok (some fields) => some (d.id, fields)
  | _ => none

/-- The updates that the loop over the domains makes. -/
def domainUpdates (hostname : Str) (acmeProviderId : Option Str) (domains : List Obj) :
    List (Str × Dict) :=
  domains.filterMap (domainUpdate hostname acmeProviderId)

def sansOf (cert : Dict) : List Str :=
  match getDict cert "subjectAlternativeNames" with
  | .ok sans => names sans
  | .error _ => []

/-- The certificate of a domain, as far as it is a dict. -/
def certOf (d : Obj) : Dict :=
  match getDict d.fields "certificateManagement" with
  | .ok cert => cert
  | .error _ => []

/-- A certificate that is managed automatically. -/
def Automatic (cert : Dict) : Prop :=
  (Dict.get cert "@type".toList).isString "Automatic".toList = true

/-- A certificate that covers the host and uses the provider. -/
def Covers (cert : Dict) (hostname id : Str) : Prop :=
  hostname ∈ sansOf cert ∧ (Dict.get cert "acmeProviderId".toList).isString id = true

theorem mem_names_map (sans : List Str) {san : Str} :
    san ∈ names (sans.map fun san => (san, .bool true)) ↔ san ∈ sans := by
  rw [names, List.mem_dedup, List.map_map]
  exact iff_of_eq (congrArg (san ∈ ·) (List.map_id' sans))

theorem getDict_of_get? {d fields : Dict} {name : String}
    (h : Dict.get? d name.toList = some (.object fields)) : getDict d name = .ok fields := by
  rw [getDict, h]

theorem certOf_certificateFor
    (h : Dict.get? d.fields "certificateManagement".toList = some (certificateFor id sans)) :
    Automatic (certOf d) ∧ (∀ san, san ∈ sansOf (certOf d) ↔ san ∈ sans) ∧
      (Dict.get (certOf d) "acmeProviderId".toList).isString id = true := by
  rw [certificateFor] at h
  rw [certOf, getDict_of_get? h]
  exact ⟨Val.isString_iff.mpr rfl, fun san => mem_names_map sans, Val.isString_iff.mpr rfl⟩

theorem planDomainSans_automatic {required : List Str}
    (hcert : getDict d.fields "certificateManagement" = .ok cert) (h : Automatic cert) :
    planDomainSans d required (some id) = planSans cert required id := by
  rw [planDomainSans, hcert]
  refine if_neg ?_
  rw [Bool.not_eq_true', Bool.not_eq_false]
  exact h

theorem planDomainSans_manual {required : List Str}
    (hcert : getDict d.fields "certificateManagement" = .ok cert) (h : ¬ Automatic cert) :
    planDomainSans d required acmeProviderId = .ok none := by
  rw [planDomainSans, hcert]
  refine if_pos ?_
  rw [Bool.not_eq_true', ← Bool.not_eq_true]
  exact h

theorem planDomainSans_cases {r : Option Dict}
    (h : planDomainSans d [hostname] (some id) = .ok r) :
    (r = none ∧ (Automatic (certOf d) → Covers (certOf d) hostname id)) ∨
      (Automatic (certOf d) ∧ ∃ sans, hostname ∈ sans ∧ (∀ san ∈ sansOf (certOf d), san ∈ sans) ∧
        (∀ san ∈ sans, san = hostname ∨ san ∈ sansOf (certOf d)) ∧
        r = some [entry "certificateManagement" (certificateFor id sans)]) := by
  obtain ⟨cert, hcert, -⟩ := bind_eq_ok_iff.mp h
  rw [certOf, hcert]
  by_cases htype : Automatic cert
  · rw [planDomainSans_automatic hcert htype] at h
    obtain ⟨listed, hlisted, hplan⟩ := bind_eq_ok_iff.mp h
    have hsans : sansOf cert = names listed := by rw [sansOf, hlisted]
    dsimp only at hplan ⊢
    split at hplan
    · rename_i hnothing
      cases hplan
      rw [Bool.and_eq_true, List.isEmpty_iff, List.filter_eq_nil_iff, Bool.not_not] at hnothing
      refine .inl ⟨rfl, fun _ => ⟨?_, hnothing.2⟩⟩
      have hmem := hnothing.1 hostname (List.mem_singleton.mpr rfl)
      rw [hsans]
      simpa using hmem
    · cases hplan
      refine .inr ⟨htype, _, ?_, fun san hsan => ?_, fun san hsan => ?_, rfl⟩
      · by_cases hmem : hostname ∈ names listed
        · exact List.mem_append_left _ hmem
        · exact List.mem_append_right _ (List.mem_filter.mpr ⟨by simp, by simpa using hmem⟩)
      · exact List.mem_append_left _ (hsans ▸ hsan)
      · rcases List.mem_append.mp hsan with hold | hnew
        · exact .inr (hsans ▸ hold)
        · exact .inl (List.mem_singleton.mp (List.mem_of_mem_filter hnew))
  · rw [planDomainSans_manual hcert htype] at h
    cases h
    exact .inl ⟨rfl, fun h => absurd h htype⟩

theorem planDomainSans_of_covers
    (h : Dict.get? d.fields "certificateManagement".toList = some (certificateFor id sans))
    (hmem : hostname ∈ sans) : planDomainSans d [hostname] (some id) = .ok none := by
  rw [certificateFor] at h
  have hlisted : (names (sans.map fun san => (san, Val.bool true))).contains hostname = true :=
    List.contains_iff_mem.mpr ((mem_names_map sans).mpr hmem)
  have hmissing : [hostname].filter
      (fun san => !(names (sans.map fun san => (san, Val.bool true))).contains san) = [] := by
    rw [List.filter_cons_of_neg (by simpa using hlisted), List.filter_nil]
  have hid : (Val.string id).isString id = true := Val.isString_iff.mpr rfl
  refine (planDomainSans_automatic (getDict_of_get? h) (Val.isString_iff.mpr rfl)).trans ?_
  have hsans : getDict [entry "@type" (text "Automatic"), entry "acmeProviderId" (.string id),
      entry "subjectAlternativeNames" (.object (sans.map fun san => (san, .bool true)))]
      "subjectAlternativeNames" = .ok (sans.map fun san => (san, .bool true)) := rfl
  rw [planSans, hsans]
  refine if_pos ?_
  rw [hmissing, Bool.not_not]
  exact hid

theorem updateObj_domainUpdates (hids : (domains.map Obj.id).Nodup) (hd : d ∈ domains)
    {r : Option Dict} (hplan : planDomainSans d [hostname] acmeProviderId = .ok r) :
    updateObj (domainUpdates hostname acmeProviderId domains) d =
      match r with
      | none => d
      | some fields => { d with fields := Dict.update d.fields fields } := by
  have hmem : ∀ fields, (d.id, fields) ∈ domainUpdates hostname acmeProviderId domains ↔
      r = some fields := by
    intro fields
    rw [domainUpdates, List.mem_filterMap]
    constructor
    · rintro ⟨other, hother, hupdate⟩
      unfold domainUpdate at hupdate
      split at hupdate
      · rename_i fields' hfields
        rw [Option.some.injEq, Prod.mk.injEq] at hupdate
        obtain ⟨hid, rfl⟩ := hupdate
        cases List.inj_on_of_nodup_map hids hother hd hid
        cases hplan.symm.trans hfields
        rfl
      · cases hupdate
    · rintro rfl
      refine ⟨d, hd, ?_⟩
      rw [domainUpdate, hplan]
  cases r with
  | none =>
    refine updateObj_of_not_mem fun hin => ?_
    obtain ⟨⟨_, fields⟩, hfields, rfl⟩ := List.mem_map.mp hin
    cases (hmem fields).mp hfields
  | some fields =>
    refine updateObj_of_mem ((hmem fields).mpr rfl) fun other hother => ?_
    cases (hmem other).mp hother
    rfl

theorem domains_settle (hids : (domains.map Obj.id).Nodup) (hd : d ∈ domains)
    {r : Option Dict} (hplan : planDomainSans d [hostname] (some id) = .ok r) :
    planDomainSans (updateObj (domainUpdates hostname (some id) domains) d) [hostname] (some id) =
      .ok none := by
  rw [updateObj_domainUpdates hids hd hplan]
  rcases planDomainSans_cases hplan with ⟨rfl, -⟩ | ⟨-, sans, hmem, -, -, rfl⟩
  · exact hplan
  · refine planDomainSans_of_covers ?_ hmem
    exact Dict.get?_update_of_mem (by simp) (List.mem_singleton.mpr rfl)

end Domains

section Listeners

variable {listeners more : List Obj} {args : SetArgs} {ids : List Str} {o : Obj} {name : Str}
  {managed : Str × Dict} {fields : Dict} {id : Str}

/-- A listener has a name. -/
def Named (name : Str) (o : Obj) : Prop := (o.get "name").isString name = true

theorem named_iff : Named name o ↔ Dict.get o.fields "name".toList = .string name :=
  Val.isString_iff

theorem Named.unique {other : Str} (h : Named name o) (h' : Named other o) : name = other := by
  have hboth := (named_iff.mp h).symm.trans (named_iff.mp h')
  cases hboth
  rfl

theorem byName_eq_some (h : byName listeners name = some o) : o ∈ listeners ∧ Named name o :=
  ⟨List.mem_reverse.mp (List.mem_of_find?_eq_some h),
    List.find?_some (p := fun item : Obj => (item.get "name").isString name) h⟩

theorem byName_eq_none_iff : byName listeners name = none ↔ ∀ o ∈ listeners, ¬ Named name o := by
  rw [byName, List.find?_eq_none]
  simp only [List.mem_reverse]
  rfl

theorem byName_append : byName (listeners ++ more) name =
    (byName more name).or (byName listeners name) := by
  rw [byName, List.reverse_append, List.find?_append]
  rfl

theorem byName_map {f : Obj → Obj} (h : ∀ o, (f o).get "name" = o.get "name") :
    byName (listeners.map f) name = (byName listeners name).map f := by
  rw [byName, ← List.map_reverse, List.find?_map]
  simp only [Function.comp_def, h]
  rfl

theorem byName_filter {q : Obj → Bool} (h : ∀ o ∈ listeners, Named name o → q o = true) :
    byName (listeners.filter q) name = byName listeners name := by
  rw [byName, byName, ← List.filter_reverse, List.find?_filter]
  refine List.find?_congr fun o ho => ?_
  by_cases hname : (o.get "name").isString name = true
  · simp [hname, h o (List.mem_reverse.mp ho) hname]
  · simp [hname]

theorem planListenerChanges_eq_ok_iff : planListenerChanges listeners = .ok args ↔
    (∀ o ∈ listeners, Keyed "name" o) ∧
      args = ⟨managedListeners.filterMap (listenerUpdate listeners),
        managedListeners.filterMap (listenerCreate listeners),
        removedListenerNames.filterMap fun name => (byName listeners name).map Obj.id⟩ := by
  rw [planListenerChanges, bind_eq_ok_iff, forall_keyed_iff, ← exists_and_right]
  refine exists_congr fun values => and_congr_right fun _ => ?_
  exact ⟨fun h => by cases h; rfl, fun h => by rw [h]; rfl⟩

theorem listenerUpdate_eq_some_iff {update : Str × Dict} :
    listenerUpdate listeners managed = some update ↔
      ∃ o, byName listeners managed.1 = some o ∧ ¬ HasFields o managed.2 ∧
        update = (o.id, fieldDiff o.fields managed.2) := by
  unfold listenerUpdate
  cases hfind : byName listeners managed.1 with
  | none => simp
  | some o =>
    dsimp only
    constructor
    · intro h
      split at h
      · cases h
      · rename_i hdiff
        cases h
        exact ⟨o, rfl, hdiff, rfl⟩
    · rintro ⟨o', ho', hdiff, rfl⟩
      cases ho'
      split
      · exact absurd ‹_› hdiff
      · rfl

theorem listenerCreate_eq_some_iff {new : Str × Dict} :
    listenerCreate listeners managed = some new ↔
      byName listeners managed.1 = none ∧ managed.1 ∈ createIfMissing ∧
        new = (managed.1, entry "name" (.string managed.1) :: managed.2) := by
  unfold listenerCreate
  split
  · rename_i h
    rw [Bool.and_eq_true, Option.isNone_iff_eq_none, List.contains_iff_mem] at h
    rw [Option.some.injEq]
    exact ⟨fun heq => ⟨h.1, h.2, heq.symm⟩, fun heq => heq.2.2.symm⟩
  · rename_i h
    refine iff_of_false nofun fun heq => h ?_
    rw [Bool.and_eq_true, Option.isNone_iff_eq_none, List.contains_iff_mem]
    exact ⟨heq.1, heq.2.1⟩

theorem managedListeners_nodup : (managedListeners.map Prod.fst).Nodup := by decide

theorem managed_target_nodup : ∀ managed ∈ managedListeners, (managed.2.map Prod.fst).Nodup := by
  decide

theorem name_not_managed : ∀ managed ∈ managedListeners,
    "name".toList ∉ managed.2.map Prod.fst := by
  decide

theorem managed_not_removed : ∀ managed ∈ managedListeners,
    managed.1 ∉ removedListenerNames := by
  decide

theorem created_hasFields : ∀ managed ∈ managedListeners,
    fieldDiff (entry "name" (.string managed.1) :: managed.2) managed.2 = [] := by
  decide

abbrev listenerUpdates (listeners : List Obj) : List (Str × Dict) :=
  managedListeners.filterMap (listenerUpdate listeners)

theorem mem_listenerUpdates_iff : (id, fields) ∈ listenerUpdates listeners ↔
    ∃ managed ∈ managedListeners, ∃ o, byName listeners managed.1 = some o ∧
      ¬ HasFields o managed.2 ∧ id = o.id ∧ fields = fieldDiff o.fields managed.2 := by
  rw [listenerUpdates, List.mem_filterMap]
  refine exists_congr fun managed => and_congr_right fun _ => ?_
  rw [listenerUpdate_eq_some_iff]
  simp only [Prod.mk.injEq]

theorem get?_name_updateObj (o : Obj) :
    Dict.get? (updateObj (listenerUpdates listeners) o).fields "name".toList =
      Dict.get? o.fields "name".toList := by
  refine get?_updateObj ?_
  rintro ⟨id, fields⟩ hupdate -
  obtain ⟨managed, hmanaged, o, -, -, -, rfl⟩ := mem_listenerUpdates_iff.mp hupdate
  exact fun hname => name_not_managed managed hmanaged (fieldDiff_names hname)

theorem name_updateObj (o : Obj) :
    (updateObj (listenerUpdates listeners) o).get "name" = o.get "name" := by
  rw [Obj.get, Obj.get, Dict.get, Dict.get, get?_name_updateObj]

theorem updateObj_listener (hids : (listeners.map Obj.id).Nodup)
    (hmanaged : managed ∈ managedListeners) (hfind : byName listeners managed.1 = some o) :
    HasFields (updateObj (listenerUpdates listeners) o) managed.2 := by
  obtain ⟨ho, hname⟩ := byName_eq_some hfind
  have hmem : ∀ fields, (o.id, fields) ∈ listenerUpdates listeners ↔
      ¬ HasFields o managed.2 ∧ fields = fieldDiff o.fields managed.2 := by
    intro fields
    rw [mem_listenerUpdates_iff]
    constructor
    · rintro ⟨managed', hmanaged', o', hfind', hdiff, hid, rfl⟩
      obtain ⟨ho', hname'⟩ := byName_eq_some hfind'
      cases List.inj_on_of_nodup_map hids ho ho' hid
      cases List.inj_on_of_nodup_map managedListeners_nodup hmanaged hmanaged' (hname.unique hname')
      exact ⟨hdiff, rfl⟩
    · rintro ⟨hdiff, rfl⟩
      exact ⟨managed, hmanaged, o, hfind, hdiff, rfl, rfl⟩
  by_cases h : HasFields o managed.2
  · rw [updateObj_of_not_mem]
    · exact h
    · intro hin
      obtain ⟨⟨_, fields⟩, hfields, rfl⟩ := List.mem_map.mp hin
      exact ((hmem fields).mp hfields).1 h
  · rw [updateObj_of_mem ((hmem _).mpr ⟨h, rfl⟩) fun other hother => ((hmem other).mp hother).2]
    exact fieldDiff_update (managed_target_nodup managed hmanaged) o.fields

theorem mem_created {create : List (Str × Dict)}
    (h : o ∈ (ids.zip create).map fun new => (⟨new.1, new.2.2⟩ : Obj)) :
    ∃ new ∈ create, o.fields = new.2 := by
  obtain ⟨new, hnew, rfl⟩ := List.mem_map.mp h
  exact ⟨new.2, (List.of_mem_zip hnew).2, rfl⟩

/-- What is stored of the listeners after the plan for them. -/
abbrev listenersAfter (ids : List Str) (listeners : List Obj) : List Obj :=
  applySet ⟨listenerUpdates listeners, managedListeners.filterMap (listenerCreate listeners),
    removedListenerNames.filterMap fun name => (byName listeners name).map Obj.id⟩ ids listeners

theorem removed_iff (hids : (listeners.map Obj.id).Nodup) (ho : o ∈ listeners) :
    (removedListenerNames.filterMap fun name => (byName listeners name).map Obj.id).contains o.id =
        true ↔ ∃ name ∈ removedListenerNames, byName listeners name = some o := by
  rw [List.contains_iff_mem, List.mem_filterMap]
  refine exists_congr fun name => and_congr_right fun _ => ?_
  rw [Option.map_eq_some_iff]
  constructor
  · rintro ⟨o', hfind, hid⟩
    cases List.inj_on_of_nodup_map hids (byName_eq_some hfind).1 ho hid
    exact hfind
  · intro hfind
    exact ⟨o, hfind, rfl⟩

theorem byName_listenersAfter : byName (listenersAfter ids listeners) name =
    (byName ((ids.zip (managedListeners.filterMap (listenerCreate listeners))).map
      fun new => (⟨new.1, new.2.2⟩ : Obj)) name).or
      ((byName (listeners.filter fun o => !(removedListenerNames.filterMap fun name =>
        (byName listeners name).map Obj.id).contains o.id) name).map
          (updateObj (listenerUpdates listeners))) := by
  rw [listenersAfter, applySet, byName_append, byName_map name_updateObj]

theorem byName_created (hfind : byName ((ids.zip (managedListeners.filterMap
      (listenerCreate listeners))).map fun new => (⟨new.1, new.2.2⟩ : Obj)) name = some o) :
    byName listeners name = none ∧ ∃ managed ∈ managedListeners, managed.1 = name ∧
      HasFields o managed.2 := by
  obtain ⟨ho, hname⟩ := byName_eq_some hfind
  obtain ⟨new, hnew, hfields⟩ := mem_created ho
  obtain ⟨managed, hmanaged, hcreate⟩ := List.mem_filterMap.mp hnew
  obtain ⟨hnone, -, rfl⟩ := listenerCreate_eq_some_iff.mp hcreate
  have hname' : Named managed.1 o := by
    rw [named_iff, hfields]
    rfl
  refine ⟨hname'.unique hname ▸ hnone, managed, hmanaged, hname'.unique hname, ?_⟩
  rw [HasFields, hfields]
  exact created_hasFields managed hmanaged

theorem listener_reached (hids : (listeners.map Obj.id).Nodup)
    (hmanaged : managed ∈ managedListeners)
    (hfind : byName (listenersAfter ids listeners) managed.1 = some o) :
    HasFields o managed.2 := by
  have hstays : byName (listeners.filter fun o => !(removedListenerNames.filterMap fun name =>
      (byName listeners name).map Obj.id).contains o.id) managed.1 =
      byName listeners managed.1 := by
    refine byName_filter fun o ho hname => ?_
    rw [Bool.not_eq_true', ← Bool.not_eq_true, removed_iff hids ho]
    rintro ⟨name, hremoved, hfound⟩
    rw [← hname.unique (byName_eq_some hfound).2] at hremoved
    exact managed_not_removed managed hmanaged hremoved
  rw [byName_listenersAfter, hstays, Option.or_eq_some_iff] at hfind
  rcases hfind with hcreated | ⟨-, hold⟩
  · obtain ⟨-, managed', hmanaged', hname, hfields⟩ := byName_created hcreated
    cases List.inj_on_of_nodup_map managedListeners_nodup hmanaged' hmanaged hname
    exact hfields
  · obtain ⟨o', hfound, rfl⟩ := Option.map_eq_some_iff.mp hold
    exact updateObj_listener hids hmanaged hfound

theorem listener_created (hids : (listeners.map Obj.id).Nodup)
    (hlength : ids.length = (managedListeners.filterMap (listenerCreate listeners)).length)
    (hmanaged : managed ∈ managedListeners) (hcreate : managed.1 ∈ createIfMissing) :
    byName (listenersAfter ids listeners) managed.1 ≠ none := by
  rw [ne_eq, byName_eq_none_iff]
  intro hnone
  by_cases hfind : byName listeners managed.1 = none
  · have hnew := List.mem_filterMap.mpr ⟨managed, hmanaged, listenerCreate_eq_some_iff.mpr
      ⟨hfind, hcreate, rfl⟩⟩
    obtain ⟨id, hmem⟩ := exists_id_of_create hlength hnew
    refine hnone _ (List.mem_append_right _ (List.mem_map_of_mem hmem)) ?_
    rw [named_iff]
    rfl
  · obtain ⟨o, hfind⟩ := Option.ne_none_iff_exists'.mp hfind
    obtain ⟨ho, hname⟩ := byName_eq_some hfind
    refine hnone (updateObj (listenerUpdates listeners) o) ?_ ?_
    · refine List.mem_append_left _ (List.mem_map_of_mem (List.mem_filter.mpr ⟨ho, ?_⟩))
      rw [Bool.not_eq_true', ← Bool.not_eq_true, removed_iff hids ho]
      rintro ⟨name, hremoved, hfound⟩
      rw [← hname.unique (byName_eq_some hfound).2] at hremoved
      exact managed_not_removed managed hmanaged hremoved
    · rw [Named, name_updateObj]
      exact hname

def Unrepeated (listeners : List Obj) (name : Str) : Prop :=
  ∀ o ∈ listeners, ∀ o' ∈ listeners, Named name o → Named name o' → o = o'

theorem listener_removed (hids : (listeners.map Obj.id).Nodup)
    (hremoved : name ∈ removedListenerNames) (hunrepeated : Unrepeated listeners name) :
    byName (listenersAfter ids listeners) name = none := by
  rw [byName_listenersAfter, Option.or_eq_none_iff]
  constructor
  · rw [Option.eq_none_iff_forall_ne_some]
    intro o hfind
    obtain ⟨-, managed, hmanaged, rfl, -⟩ := byName_created hfind
    exact managed_not_removed managed hmanaged hremoved
  · rw [Option.map_eq_none_iff, byName_eq_none_iff]
    intro o ho hname
    obtain ⟨ho, hstays⟩ := List.mem_filter.mp ho
    rw [Bool.not_eq_true', ← Bool.not_eq_true, removed_iff hids ho] at hstays
    refine hstays ⟨name, hremoved, ?_⟩
    cases hfind : byName listeners name with
    | none => exact absurd hname (byName_eq_none_iff.mp hfind o ho)
    | some o' =>
      obtain ⟨ho', hname'⟩ := byName_eq_some hfind
      rw [hunrepeated o ho o' ho' hname hname']

theorem keyed_listenersAfter (hkeyed : ∀ o ∈ listeners, Keyed "name" o) :
    ∀ o ∈ listenersAfter ids listeners, Keyed "name" o := by
  intro o ho
  rcases List.mem_append.mp ho with hold | hnew
  · obtain ⟨o', ho', rfl⟩ := List.mem_map.mp hold
    obtain ⟨v, hv⟩ := hkeyed o' (List.mem_of_mem_filter ho')
    refine ⟨v, ?_⟩
    rw [keyField, get?_name_updateObj]
    exact hv
  · obtain ⟨new, hnew, hfields⟩ := mem_created hnew
    obtain ⟨managed, -, hcreate⟩ := List.mem_filterMap.mp hnew
    obtain ⟨-, -, rfl⟩ := listenerCreate_eq_some_iff.mp hcreate
    refine ⟨.string managed.1, ?_⟩
    rw [keyField, hfields]
    rfl

theorem listeners_settle (hids : (listeners.map Obj.id).Nodup)
    (hplan : planListenerChanges listeners = .ok args) (hfresh : FreshIds listeners args ids)
    (hunrepeated : ∀ name ∈ removedListenerNames, Unrepeated listeners name) :
    planListenerChanges (applySet args ids listeners) = .ok .none := by
  obtain ⟨hkeyed, rfl⟩ := planListenerChanges_eq_ok_iff.mp hplan
  rw [planListenerChanges_eq_ok_iff]
  refine ⟨keyed_listenersAfter hkeyed, ?_⟩
  have hupdate : managedListeners.filterMap (listenerUpdate (listenersAfter ids listeners)) = [] := by
    rw [List.filterMap_eq_nil_iff]
    intro managed hmanaged
    rw [Option.eq_none_iff_forall_ne_some]
    intro update hupdate
    obtain ⟨o, hfind, hdiff, -⟩ := listenerUpdate_eq_some_iff.mp hupdate
    exact hdiff (listener_reached hids hmanaged hfind)
  have hcreate : managedListeners.filterMap (listenerCreate (listenersAfter ids listeners)) = [] := by
    rw [List.filterMap_eq_nil_iff]
    intro managed hmanaged
    rw [Option.eq_none_iff_forall_ne_some]
    intro new hnew
    obtain ⟨hnone, hmay, -⟩ := listenerCreate_eq_some_iff.mp hnew
    exact listener_created hids hfresh.1 hmanaged hmay hnone
  have hdestroy : (removedListenerNames.filterMap fun name =>
      (byName (listenersAfter ids listeners) name).map Obj.id) = [] := by
    rw [List.filterMap_eq_nil_iff]
    intro name hname
    rw [listener_removed hids hname (hunrepeated name hname), Option.map_none]
  rw [hupdate, hcreate, hdestroy]
  rfl

end Listeners

end Configuration
end SharedInfra.Mail
