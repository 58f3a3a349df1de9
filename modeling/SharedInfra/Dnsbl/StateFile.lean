import SharedInfra.Dnsbl.CheckSafety
import SharedInfra.Mail.SecretLines
import SharedInfra.Python.JsonReader
import SharedInfra.Python.Utf8
import SharedInfra.Sequences.FirstMatch

/-!
# The state file of the blocklist check

`_load_state` and `_save_state` of `check_dnsbl_blocklist.py`, and a run of `main` from the state
file it finds to the one it leaves.  A run completes exactly on a file that is `Readable`: of what
reading one raises only `FileNotFoundError`, `OSError` and `JSONDecodeError` are caught, and
`build_alert` needs an object.
-/

namespace SharedInfra.Dnsbl

open Python Mail Effects Sequences

/-- The state file, as a run finds it. -/
inductive StateFile where
  | absent
  | unreadable
  | content (bytes : Bytes)

inductive LoadFault where
  | unicode
  | json (fault : JsonFault)

/-- What the `except` clauses of `_load_state` make of the reading. -/
def startFresh : Except JsonFault Json → Except LoadFault Json
  | .ok value => .ok value
  | .error .decode => .ok (.object [])
  | .error fault => .error (.json fault)

/-- `json.load` of a file opened as text. -/
def loadText (limits : JsonLimits) (text : Str) : Except JsonFault Json :=
  loads limits (universalNewlines text)

def loadState (limits : JsonLimits) : StateFile → Except LoadFault Json
  | .absent => .ok (.object [])
  | .unreadable => .ok (.object [])
  | .content bytes =>
    match utf8Decode bytes with
    | none => .error .unicode
    | some text => startFresh (loadText limits text)

def textOf : Option Json → Option Str
  | some (.string text) => some text
  | _ => none

/-- The texts a loaded object has for the zones; `previous_state.get` looks at nothing else, and no
other value is equal to a verdict. -/
def previousTexts (members : List (Str × Json)) : List (Str × Str) :=
  dnsbls.filterMap fun spec =>
    (textOf (Json.member members spec.key)).map fun text => (spec.key, text)

/-- What the lookups of a run come to. -/
abbrev Outcomes := DnsblSpec → Asked → ResolutionOutcome

def resultOf (outcomes : Outcomes) (spec : DnsblSpec) : CheckResult :=
  evaluateDnsbl spec (outcomes spec .sentinel) (outcomes spec .target)

/-- The results of `run_checks`. -/
def resultsOf (outcomes : Outcomes) : List CheckResult := dnsbls.map (resultOf outcomes)

def stateOf (outcomes : Outcomes) : List (Str × Str) :=
  (resultsOf outcomes).map fun result => (result.spec.key, result.verdict.value)

/-- `_save_state`: the bytes of the file. -/
def saveState (state : List (Str × Str)) : Bytes :=
  utf8Encode (dumpTexts (sortByKey state) ++ ['\n'])

/-- How a run ends: its alerts, none where it crashes, and the state file. -/
structure RunEnd where
  alerts : Option (List Alert)
  file : StateFile

/-- The exit status. -/
def RunEnd.exit (done : RunEnd) : Nat := if done.alerts.any List.isEmpty then 0 else 1

/-- What `build_alert` has of the state; none where it is not loaded or is no object. -/
def previousState (limits : JsonLimits) (file : StateFile) : Option (List (Str × Str)) :=
  match loadState limits file with
  | .ok (.object members) => some (previousTexts members)
  | _ => none

/-- A run of `main` behind the lookups. -/
def runFrom (limits : JsonLimits) (file : StateFile) (outcomes : Outcomes) : RunEnd :=
  match previousState limits file with
  | none => ⟨none, file⟩
  | some state =>
    let checked := buildAlert state (resultsOf outcomes)
    ⟨some checked.2, .content (saveState checked.1)⟩

def Recorded (limits : JsonLimits) (file : StateFile) (key : Str) : Prop :=
  ∃ bytes text members, file = .content bytes ∧ utf8Decode bytes = some text ∧
    loadText limits text = .ok (.object members) ∧
    Json.member members key = some (.string Verdict.listed.value)

/-- A state file that is missing, that cannot be opened, or whose bytes are UTF-8 and either no JSON
or a JSON object. -/
inductive Readable (limits : JsonLimits) : StateFile → Prop
  | absent : Readable limits .absent
  | unreadable : Readable limits .unreadable
  | noJson {bytes : Bytes} {text : Str} (htext : utf8Decode bytes = some text)
      (hload : loadText limits text = .error .decode) : Readable limits (.content bytes)
  | object {bytes : Bytes} {text : Str} {members : List (Str × Json)}
      (htext : utf8Decode bytes = some text)
      (hload : loadText limits text = .ok (.object members)) : Readable limits (.content bytes)

structure Unharmed (limits : JsonLimits) (file : StateFile) (outcomes : Outcomes)
    (alerts : List Alert) : Prop where
  completes : (runFrom limits file outcomes).alerts = some alerts
  saves : (runFrom limits file outcomes).file = .content (saveState (stateOf outcomes))
  exit : (runFrom limits file outcomes).exit = 0 ↔
    ∀ result ∈ resultsOf outcomes, result.verdict = .notListed
  still : ∀ result ∈ resultsOf outcomes, result.verdict = .listed →
    (.stillListed result.spec result.addresses ∈ alerts ↔ Recorded limits file result.spec.key)
  new : ∀ result ∈ resultsOf outcomes, result.verdict = .listed →
    (.newListing result.spec result.addresses ∈ alerts ↔ ¬ Recorded limits file result.spec.key)

section Alerts

variable {members : List (Str × Json)} {state : List (Str × Str)} {spec : DnsblSpec}
  {result : CheckResult} {codes : List Str} {outcomes : Outcomes}

theorem lookup_texts (f : Str → Option Str) (key text : Str) (specs : List DnsblSpec) :
    (specs.filterMap fun spec => (f spec.key).map fun text => (spec.key, text)).lookup key =
        some text ↔
      (∃ spec ∈ specs, spec.key = key) ∧ f key = some text := by
  induction specs with
  | nil => simp
  | cons spec specs ih =>
    by_cases hkey : spec.key = key
    · subst hkey
      cases htext : f spec.key with
      | none => simp [htext, ih]
      | some text' => simp [htext]
    · have hne : (key == spec.key) = false := beq_false_of_ne (Ne.symm hkey)
      cases htext : f spec.key <;> simp [htext, ih, hkey, List.lookup_cons, hne]

theorem lookup_previousTexts (hspec : spec ∈ dnsbls) :
    (previousTexts members).lookup spec.key = some Verdict.listed.value ↔
      Json.member members spec.key = some (.string Verdict.listed.value) := by
  have htext : ∀ value text, textOf value = some text ↔ value = some (.string text) := by
    intro value text
    rcases value with _ | _ | _ | _ | _ | _ | _ <;> simp [textOf]
  have hlookup := lookup_texts (fun key => textOf (Json.member members key)) spec.key
    Verdict.listed.value dnsbls
  rw [htext] at hlookup
  exact hlookup.trans (and_iff_right ⟨spec, hspec, rfl⟩)

theorem alertOf_eq_stillListed (h : alertOf state result = some (.stillListed spec codes)) :
    state.lookup spec.key = some Verdict.listed.value := by
  rw [alertOf] at h
  split_ifs at h with hlisted hrecorded
  · cases h
    exact hrecorded
  · cases h
  · cases h

theorem alertOf_eq_newListing (h : alertOf state result = some (.newListing spec codes)) :
    state.lookup spec.key ≠ some Verdict.listed.value := by
  rw [alertOf] at h
  split_ifs at h with hlisted hrecorded
  · cases h
  · cases h
    exact hrecorded
  · cases h

variable {results : List CheckResult}

theorem stillListed_mem_iff (hresult : result ∈ results) (hlisted : result.verdict = .listed) :
    .stillListed result.spec result.addresses ∈ (buildAlert state results).2 ↔
      state.lookup result.spec.key = some Verdict.listed.value := by
  rw [buildAlert, List.mem_filterMap]
  constructor
  · rintro ⟨other, -, hother⟩
    exact alertOf_eq_stillListed hother
  · intro hrecorded
    exact ⟨result, hresult, by rw [alertOf, if_pos hlisted, if_pos hrecorded]⟩

theorem newListing_mem_iff (hresult : result ∈ results) (hlisted : result.verdict = .listed) :
    .newListing result.spec result.addresses ∈ (buildAlert state results).2 ↔
      state.lookup result.spec.key ≠ some Verdict.listed.value := by
  rw [buildAlert, List.mem_filterMap]
  constructor
  · rintro ⟨other, -, hother⟩
    exact alertOf_eq_newListing hother
  · intro hrecorded
    exact ⟨result, hresult, by rw [alertOf, if_pos hlisted, if_neg hrecorded]⟩

theorem alerts_eq_nil_iff :
    (buildAlert state results).2 = [] ↔ ∀ result ∈ results, result.verdict = .notListed := by
  rw [buildAlert, List.filterMap_eq_nil_iff]
  exact forall₂_congr fun result _ => alertOf_eq_none_iff

theorem spec_resultOf : (resultOf outcomes spec).spec = spec := by
  rw [resultOf, evaluateDnsbl]
  dsimp only
  split_ifs <;> rfl

theorem spec_mem_of_result (hresult : result ∈ resultsOf outcomes) : result.spec ∈ dnsbls := by
  obtain ⟨spec, hspec, rfl⟩ := List.mem_map.mp hresult
  rwa [spec_resultOf]

end Alerts

section Runs

variable {limits : JsonLimits} {file : StateFile} {outcomes : Outcomes} {alerts : List Alert}
  {members : List (Str × Json)} {key : Str}

theorem loadState_eq_object : (∃ members, loadState limits file = .ok (.object members)) ↔
    Readable limits file := by
  constructor
  · rintro ⟨members, hload⟩
    cases file with
    | absent => exact .absent
    | unreadable => exact .unreadable
    | content bytes =>
      rw [loadState] at hload
      cases htext : utf8Decode bytes with
      | none =>
        rw [htext] at hload
        cases hload
      | some text =>
        rw [htext] at hload
        cases hloaded : loadText limits text with
        | ok value =>
          dsimp only at hload
          rw [hloaded] at hload
          cases hload
          exact .object htext hloaded
        | error fault =>
          dsimp only at hload
          rw [hloaded] at hload
          cases fault with
          | decode => exact .noJson htext hloaded
          | recursion => cases hload
          | digits => cases hload
  · intro hreadable
    cases hreadable with
    | absent => exact ⟨[], rfl⟩
    | unreadable => exact ⟨[], rfl⟩
    | noJson htext hload =>
      refine ⟨[], ?_⟩
      rw [loadState, htext]
      dsimp only
      rw [hload, startFresh]
    | @object bytes text members htext hload =>
      refine ⟨members, ?_⟩
      rw [loadState, htext]
      dsimp only
      rw [hload, startFresh]

theorem member_listed_iff (hload : loadState limits file = .ok (.object members)) :
    Json.member members key = some (.string Verdict.listed.value) ↔ Recorded limits file key := by
  have hfresh : ¬ Json.member [] key = some (.string Verdict.listed.value) := by
    intro h
    cases h
  cases file with
  | absent =>
    cases hload
    exact iff_of_false hfresh fun h => by obtain ⟨_, _, _, hfile, -⟩ := h; cases hfile
  | unreadable =>
    cases hload
    exact iff_of_false hfresh fun h => by obtain ⟨_, _, _, hfile, -⟩ := h; cases hfile
  | content bytes =>
    rw [loadState] at hload
    cases htext : utf8Decode bytes with
    | none =>
      rw [htext] at hload
      cases hload
    | some text =>
      rw [htext] at hload
      dsimp only at hload
      constructor
      · intro hmember
        cases hloaded : loadText limits text with
        | ok value =>
          rw [hloaded] at hload
          cases hload
          exact ⟨bytes, text, members, rfl, htext, hloaded, hmember⟩
        | error fault =>
          rw [hloaded] at hload
          cases fault with
          | decode =>
            cases hload
            exact absurd hmember hfresh
          | recursion => cases hload
          | digits => cases hload
      · rintro ⟨bytes', text', members', hfile, htext', hloaded, hmember⟩
        cases hfile
        cases htext.symm.trans htext'
        rw [hloaded] at hload
        cases hload
        exact hmember

theorem runFrom_eq (outcomes : Outcomes) (hload : loadState limits file = .ok (.object members)) :
    runFrom limits file outcomes =
      ⟨some (buildAlert (previousTexts members) (resultsOf outcomes)).2,
        .content (saveState (buildAlert (previousTexts members) (resultsOf outcomes)).1)⟩ := by
  rw [runFrom, previousState, hload]

theorem exists_object (h : (runFrom limits file outcomes).alerts = some alerts) :
    ∃ members, loadState limits file = .ok (.object members) := by
  cases hstate : previousState limits file with
  | none =>
    rw [runFrom, hstate] at h
    cases h
  | some state =>
    rw [previousState] at hstate
    split at hstate
    next members hload => exact ⟨members, hload⟩
    next => cases hstate

theorem unharmed_of_object (hload : loadState limits file = .ok (.object members)) :
    Unharmed limits file outcomes (buildAlert (previousTexts members) (resultsOf outcomes)).2 := by
  have hrun := runFrom_eq outcomes hload
  refine ⟨by rw [hrun], by rw [hrun]; rfl, ?_, fun result hresult hlisted => ?_,
    fun result hresult hlisted => ?_⟩
  · have hnil : (buildAlert (previousTexts members) (resultsOf outcomes)).2 = [] ↔ _ :=
      alerts_eq_nil_iff
    rw [hrun, ← hnil, RunEnd.exit]
    simp
  · rw [stillListed_mem_iff hresult hlisted, lookup_previousTexts (spec_mem_of_result hresult),
      member_listed_iff hload]
  · rw [newListing_mem_iff hresult hlisted, ne_eq,
      lookup_previousTexts (spec_mem_of_result hresult), member_listed_iff hload]

theorem unharmed_iff : (∃ alerts, Unharmed limits file outcomes alerts) ↔ Readable limits file := by
  rw [← loadState_eq_object]
  constructor
  · rintro ⟨alerts, hunharmed⟩
    exact exists_object hunharmed.completes
  · rintro ⟨members, hload⟩
    exact ⟨_, unharmed_of_object hload⟩

end Runs

section Histories

variable {limits : JsonLimits} {file : StateFile} {outcomes : Outcomes} {alerts : List Alert}
  {state : List (Str × Str)} {spec : DnsblSpec} {result : CheckResult} {key : Str}

theorem plain_key : ∀ spec ∈ dnsbls, IsPlainText spec.key := by decide

theorem plain_verdict (verdict : Verdict) : IsPlainText verdict.value := by
  cases verdict <;> decide

theorem verdict_value_injective {verdict other : Verdict} (h : verdict.value = other.value) :
    verdict = other := by
  cases verdict <;> cases other <;> first | rfl | exact absurd h (by decide)

theorem key_injective {other : DnsblSpec} (hspec : spec ∈ dnsbls) (hother : other ∈ dnsbls)
    (h : spec.key = other.key) : spec = other :=
  List.inj_on_of_nodup_map (f := DnsblSpec.key) (by decide) hspec hother h

theorem loadState_saveState (h : ∀ entry ∈ state, IsPlainText entry.1 ∧ IsPlainText entry.2) :
    loadState limits (.content (saveState state)) =
      .ok (.object (textMembers (sortByKey state))) := by
  have hsorted : ∀ entry ∈ sortByKey state, IsPlainText entry.1 ∧ IsPlainText entry.2 :=
    fun entry hentry => h entry (mem_sortByKey.mp hentry)
  have hreturn : '\r' ∉ dumpTexts (sortByKey state) ++ ['\n'] := by
    rw [List.mem_append, not_or]
    exact ⟨noReturn_dumpTexts hsorted, by decide⟩
  rw [loadState, saveState, utf8Decode_encode]
  dsimp only
  rw [loadText, universalNewlines_of_not_mem hreturn, loads_dumpTexts hsorted, startFresh]

theorem mem_stateOf_iff (hspec : spec ∈ dnsbls) {value : Str} :
    (spec.key, value) ∈ stateOf outcomes ↔ value = (resultOf outcomes spec).verdict.value := by
  rw [stateOf, resultsOf, List.map_map, List.mem_map]
  constructor
  · rintro ⟨other, hother, hentry⟩
    obtain ⟨hkey, rfl⟩ := Prod.mk.inj hentry
    rw [spec_resultOf] at hkey
    rw [key_injective hspec hother hkey.symm]
  · rintro rfl
    exact ⟨spec, hspec, by rw [Function.comp_apply, spec_resultOf]⟩

theorem recorded_after (hdone : (runFrom limits file outcomes).alerts = some alerts)
    (hspec : spec ∈ dnsbls) :
    Recorded limits (runFrom limits file outcomes).file spec.key ↔
      (resultOf outcomes spec).verdict = .listed := by
  obtain ⟨members, hload⟩ := exists_object hdone
  have hsaves : (runFrom limits file outcomes).file = _ := (unharmed_of_object hload).saves
  have hplain : ∀ entry ∈ stateOf outcomes, IsPlainText entry.1 ∧ IsPlainText entry.2 := by
    intro entry hentry
    obtain ⟨result, hresult, rfl⟩ := List.mem_map.mp hentry
    exact ⟨plain_key _ (spec_mem_of_result hresult), plain_verdict _⟩
  have hsorted : ∀ value, (spec.key, value) ∈ sortByKey (stateOf outcomes) ↔
      value = (resultOf outcomes spec).verdict.value := fun value => by
    rw [mem_sortByKey, mem_stateOf_iff hspec]
  rw [hsaves, ← member_listed_iff (loadState_saveState hplain), member_textMembers hsorted]
  constructor
  · intro hvalue
    exact verdict_value_injective (Json.string.inj (Option.some.inj hvalue))
  · intro hlisted
    rw [hlisted]

end Histories

section Main

variable {run : CheckRun} {ip : Str} {outcomes : Outcomes}

theorem runChecks_eq (h : ∀ spec asked, lookUp (ipOf ip asked) spec.zone (run.lookups spec asked) =
    .ok (outcomes spec asked)) (previousState : List (Str × Str)) :
    runChecks run ip dnsbls previousState =
      .ok (buildAlert previousState (resultsOf outcomes)) := by
  have hzone : ∀ spec, checkZone run ip spec = .ok (resultOf outcomes spec) := fun spec =>
    bind_eq_ok_iff.mpr ⟨_, h spec .sentinel, bind_eq_ok_iff.mpr ⟨_, h spec .target, rfl⟩⟩
  have hresults : ∀ zones : List DnsblSpec,
      zones.mapM (checkZone run ip) = .ok (zones.map (resultOf outcomes)) := by
    intro zones
    rw [mapM_eq_ok_iff]
    induction zones with
    | nil => exact .nil
    | cons spec zones ih => exact .cons (hzone spec) ih
  rw [runChecks, hresults]
  rfl

theorem main_eq_exit {limits : JsonLimits} {file : StateFile} (hstatus : run.status = false)
    (htarget : run.target = some ip) (hsaves : run.saves = true)
    (hstate : run.previousState = previousState limits file)
    (h : ∀ spec asked, lookUp (ipOf ip asked) spec.zone (run.lookups spec asked) =
      .ok (outcomes spec asked)) :
    main run = (runFrom limits file outcomes).exit := by
  rw [main, hstatus, htarget, hstate, hsaves, runFrom]
  cases previousState limits file with
  | none => rfl
  | some state =>
    dsimp only
    rw [runChecks_eq h]
    rfl

end Main

/-- A run completes, saves and reports as the results and the file have it exactly where the state
file is readable, and what a completed run leaves has as listed what that run found listed. -/
theorem unharmed_iff_readable (limits : JsonLimits) (file : StateFile) (outcomes : Outcomes) :
    ((∃ alerts, Unharmed limits file outcomes alerts) ↔ Readable limits file) ∧
      ((runFrom limits file outcomes).alerts.isSome → ∀ spec ∈ dnsbls,
        (Recorded limits (runFrom limits file outcomes).file spec.key ↔
          (resultOf outcomes spec).verdict = .listed)) := by
  refine ⟨unharmed_iff, fun hdone spec hspec => ?_⟩
  obtain ⟨alerts, halerts⟩ := Option.isSome_iff_exists.mp hdone
  exact recorded_after halerts hspec

/-- A file that holds an empty array. -/
theorem array_stops_the_check :
    ¬ ∃ alerts, Unharmed ⟨1000, 4300, by decide⟩ (.content [91, 93])
      (fun _ _ => ⟨true, [], none⟩) alerts := by
  rintro ⟨alerts, hunharmed⟩
  cases hunharmed.completes

end SharedInfra.Dnsbl
