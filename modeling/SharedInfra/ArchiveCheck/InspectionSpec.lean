import SharedInfra.ArchiveCheck.Inspection

/-!
# Which archives are evidence

A passphrase-wrapped export (`Wrapped`) without a plaintext key is what
`inspect_archive` accepts, and the files on which it raises nothing but an `ArchiveError`
are the `CalmFile`s (`inspected`).
-/

namespace SharedInfra.ArchiveCheck

open Python

section Keys

/-- A key somewhere in a value. -/
inductive KeyIn (name : PyStr) : Value → Prop where
  | here {members : List (PyStr × Value)} {value : Value} (h : (name, value) ∈ members) :
      KeyIn name (.object members)
  | member {members : List (PyStr × Value)} {key : PyStr} {value : Value}
      (h : (key, value) ∈ members) (hvalue : KeyIn name value) : KeyIn name (.object members)
  | item {items : List Value} {value : Value} (h : value ∈ items) (hvalue : KeyIn name value) :
      KeyIn name (.array items)

variable {name : PyStr}

theorem keyIn_object_iff {members : List (PyStr × Value)} : KeyIn name (.object members) ↔
    ∃ member ∈ members, member.1 = name ∨ KeyIn name member.2 := by
  constructor
  · intro h
    cases h with
    | here h => exact ⟨_, h, .inl rfl⟩
    | member h hvalue => exact ⟨_, h, .inr hvalue⟩
  · rintro ⟨⟨key, value⟩, hmem, rfl | hvalue⟩
    · exact .here hmem
    · exact .member hmem hvalue

theorem keyIn_array_iff {items : List Value} : KeyIn name (.array items) ↔
    ∃ item ∈ items, KeyIn name item := by
  constructor
  · intro h
    cases h with
    | item h hvalue => exact ⟨_, h, hvalue⟩
  · exact fun ⟨item, hmem, hvalue⟩ => .item hmem hvalue

mutual

theorem countKey_eq_zero_iff : ∀ v : Value, countKey name v = 0 ↔ ¬ KeyIn name v
  | .null => ⟨fun _ => nofun, fun _ => rfl⟩
  | .bool _ => ⟨fun _ => nofun, fun _ => rfl⟩
  | .number _ _ => ⟨fun _ => nofun, fun _ => rfl⟩
  | .string _ => ⟨fun _ => nofun, fun _ => rfl⟩
  | .array items => by
    rw [countKey, countKeyItems_eq_zero_iff items, keyIn_array_iff]
    push Not
    rfl
  | .object members => by
    rw [countKey, countKeyMembers_eq_zero_iff members, keyIn_object_iff]
    push Not
    rfl

theorem countKeyMembers_eq_zero_iff : ∀ members : List (PyStr × Value),
    countKeyMembers name members = 0 ↔ ∀ member ∈ members, member.1 ≠ name ∧ ¬ KeyIn name member.2
  | [] => ⟨fun _ => nofun, fun _ => rfl⟩
  | (key, value) :: members => by
    rw [countKeyMembers, List.forall_mem_cons, ← countKeyMembers_eq_zero_iff members,
      ← countKey_eq_zero_iff value]
    by_cases hkey : key = name <;> simp [hkey]

theorem countKeyItems_eq_zero_iff : ∀ items : List Value,
    countKeyItems name items = 0 ↔ ∀ item ∈ items, ¬ KeyIn name item
  | [] => ⟨fun _ => nofun, fun _ => rfl⟩
  | item :: items => by
    rw [countKeyItems, List.forall_mem_cons, ← countKeyItems_eq_zero_iff items,
      ← countKey_eq_zero_iff item]
    simp

end

end Keys

section Shapes

variable (interpreter : Interpreter) (file : Option Bytes)

def Document (document : Value) : Prop :=
  ∃ bytes content, file = some bytes ∧ utf8Decode bytes = some content ∧
    interpreter.loads (universalNewlines content) = .value document

def Export (deployment providers : List (PyStr × Value)) : Prop :=
  ∃ archive, Document interpreter file (.object archive) ∧
    getMember archive "deployment" = some (.object deployment) ∧
    getMember deployment "secrets_providers" = some (.object providers)

def Wrapped (deployment : List (PyStr × Value)) (salt : PyStr) : Prop :=
  ∃ providers state, Export interpreter file deployment providers ∧
    getMember providers "type" = some (.string (text "passphrase")) ∧
    getMember providers "state" = some (.object state) ∧
    getMember state "salt" = some (.string salt) ∧ salt ≠ []

def Usable : Prop :=
  ∃ deployment salt, Wrapped interpreter file deployment salt ∧
    ¬ KeyIn (text "plaintext") (.object deployment)

/-- A file on which `inspect_archive` raises nothing but an `ArchiveError`. -/
structure CalmFile : Prop where
  utf8 : ∀ bytes, file = some bytes → (utf8Decode bytes).isSome
  loads : ∀ bytes content what, file = some bytes → utf8Decode bytes = some content →
    interpreter.loads (universalNewlines content) ≠ .raised what
  kind : ∀ deployment providers, Export interpreter file deployment providers →
    getMember providers "type" ≠ some (.string (text "passphrase")) →
      depth ((getMember providers "type").getD .null) ≤ interpreter.textLimit
  state : ∀ deployment providers state, Export interpreter file deployment providers →
    getMember providers "type" = some (.string (text "passphrase")) →
      getMember providers "state" = some state → state.truthy = true →
        ∃ members, state = .object members
  nesting : ∀ deployment salt, Wrapped interpreter file deployment salt →
    depth (.object deployment) ≤ interpreter.countLimit

variable {interpreter file} {document document' : Value}
  {deployment deployment' providers providers' : List (PyStr × Value)} {salt salt' : PyStr}

theorem Document.unique (h : Document interpreter file document)
    (h' : Document interpreter file document') : document = document' := by
  obtain ⟨bytes, content, rfl, hcontent, hloads⟩ := h
  obtain ⟨bytes', content', hbytes, hcontent', hloads'⟩ := h'
  cases hbytes
  cases hcontent.symm.trans hcontent'
  exact Loaded.value.inj (hloads.symm.trans hloads')

theorem Export.unique (h : Export interpreter file deployment providers)
    (h' : Export interpreter file deployment' providers') :
    deployment = deployment' ∧ providers = providers' := by
  obtain ⟨archive, hdocument, hdeployment, hproviders⟩ := h
  obtain ⟨archive', hdocument', hdeployment', hproviders'⟩ := h'
  cases hdocument.unique hdocument'
  cases hdeployment.symm.trans hdeployment'
  cases hproviders.symm.trans hproviders'
  exact ⟨rfl, rfl⟩

theorem Wrapped.unique (h : Wrapped interpreter file deployment salt)
    (h' : Wrapped interpreter file deployment' salt') : deployment = deployment' ∧ salt = salt' := by
  obtain ⟨providers, state, hexport, -, hstate, hsalt, -⟩ := h
  obtain ⟨providers', state', hexport', -, hstate', hsalt', -⟩ := h'
  obtain ⟨rfl, rfl⟩ := hexport.unique hexport'
  cases hstate.symm.trans hstate'
  cases hsalt.symm.trans hsalt'
  exact ⟨rfl, rfl⟩

theorem inspectArchive_document (h : Document interpreter file document) :
    inspectArchive interpreter file = inspectDocument interpreter document := by
  obtain ⟨bytes, content, rfl, hcontent, hloads⟩ := h
  simp only [inspectArchive, hcontent, hloads]

theorem Document.utf8 (h : Document interpreter file document) :
    ∀ bytes, file = some bytes → (utf8Decode bytes).isSome := by
  obtain ⟨bytes, content, rfl, hcontent, -⟩ := h
  rintro _ ⟨⟩
  rw [hcontent]
  rfl

theorem Document.loads (h : Document interpreter file document) :
    ∀ bytes content what, file = some bytes → utf8Decode bytes = some content →
      interpreter.loads (universalNewlines content) ≠ .raised what := by
  obtain ⟨bytes, content, rfl, hcontent, hloads⟩ := h
  rintro _ content' what ⟨⟩ hcontent' hraised
  cases hcontent.symm.trans hcontent'
  cases hloads.symm.trans hraised

theorem Export.exists_document (h : Export interpreter file deployment providers) :
    ∃ document, Document interpreter file document := by
  obtain ⟨archive, hdocument, -⟩ := h
  exact ⟨_, hdocument⟩

theorem not_usable_of_no_export (hnone : ∀ deployment providers,
    ¬ Export interpreter file deployment providers) : ¬ Usable interpreter file := by
  rintro ⟨deployment, salt, ⟨providers, state, hexport, -⟩, -⟩
  exact hnone deployment providers hexport

theorem CalmFile.of_no_export
    (hutf8 : ∀ bytes, file = some bytes → (utf8Decode bytes).isSome)
    (hloads : ∀ bytes content what, file = some bytes → utf8Decode bytes = some content →
      interpreter.loads (universalNewlines content) ≠ .raised what)
    (hnone : ∀ deployment providers, ¬ Export interpreter file deployment providers) :
    CalmFile interpreter file where
  utf8 := hutf8
  loads := hloads
  kind deployment providers hexport := absurd hexport (hnone deployment providers)
  state deployment providers _ hexport := absurd hexport (hnone deployment providers)
  nesting deployment _ := fun ⟨providers, _, hexport, _⟩ =>
    absurd hexport (hnone deployment providers)

def NamesProvider (interpreter : Interpreter) (file : Option Bytes) (detail : Detail) : Prop :=
  ∀ kind, detail = .otherProvider (.string kind) ↔ kind ≠ text "passphrase" ∧
    ∃ deployment providers, Export interpreter file deployment providers ∧
      getMember providers "type" = some (.string kind)

/-- What `inspect_archive` comes to: a usable archive, an `ArchiveError` for one that is not, or
another exception. -/
inductive Inspected (interpreter : Interpreter) (file : Option Bytes) : Prop where
  | usable {deployment : List (PyStr × Value)} {salt : PyStr} (hcalm : CalmFile interpreter file)
      (hwrapped : Wrapped interpreter file deployment salt)
      (hplaintext : ¬ KeyIn (text "plaintext") (.object deployment))
      (h : inspectArchive interpreter file = .ok ⟨salt, (resourcesOf deployment).1,
        countKey (text "ciphertext") (.object deployment),
        (namesFromUrn (resourcesOf deployment).2).1, (namesFromUrn (resourcesOf deployment).2).2⟩)
  | refused {detail : Detail} (hcalm : CalmFile interpreter file)
      (hunusable : ¬ Usable interpreter file) (hnames : NamesProvider interpreter file detail)
      (h : inspectArchive interpreter file = .error (.archiveError detail))
  | raised {what : Raised} (hcalm : ¬ CalmFile interpreter file)
      (h : inspectArchive interpreter file = .error (.raised what))

theorem namesProvider_of_no_export {detail : Detail}
    (hnone : ∀ deployment providers, ¬ Export interpreter file deployment providers)
    (hdetail : ∀ kind, detail ≠ .otherProvider kind) : NamesProvider interpreter file detail :=
  fun _ => ⟨fun h => absurd h (hdetail _),
    fun ⟨_, deployment, providers, hexport, _⟩ => absurd hexport (hnone deployment providers)⟩

theorem namesProvider_of_passphrase {detail : Detail}
    (hexport : Export interpreter file deployment providers)
    (hkind : getMember providers "type" = some (.string (text "passphrase")))
    (hdetail : ∀ kind, detail ≠ .otherProvider kind) : NamesProvider interpreter file detail := by
  refine fun kind => ⟨fun h => absurd h (hdetail _), ?_⟩
  rintro ⟨hother, deployment', providers', hexport', hkind'⟩
  obtain ⟨-, rfl⟩ := hexport.unique hexport'
  cases hkind.symm.trans hkind'
  exact absurd rfl hother

theorem inspected_of_no_export {detail : Detail} (hdetail : ∀ kind, detail ≠ .otherProvider kind)
    (hdocument : Document interpreter file document)
    (hnone : ∀ deployment providers, ¬ Export interpreter file deployment providers)
    (h : inspectDocument interpreter document = .error (.archiveError detail)) :
    Inspected interpreter file :=
  .refused (.of_no_export hdocument.utf8 hdocument.loads hnone) (not_usable_of_no_export hnone)
    (namesProvider_of_no_export hnone hdetail) ((inspectArchive_document hdocument).trans h)

theorem inspected_of_other_provider (hexport : Export interpreter file deployment providers)
    (hkind : getMember providers "type" ≠ some (.string (text "passphrase")))
    (h : inspectArchive interpreter file =
      .error (refuseProvider interpreter ((getMember providers "type").getD .null))) :
    Inspected interpreter file := by
  obtain ⟨document, hdocument⟩ := hexport.exists_document
  rw [refuseProvider] at h
  split_ifs at h with hdepth
  · refine .refused ⟨hdocument.utf8, hdocument.loads, ?_, ?_, ?_⟩ ?_ ?_ h
    · intro deployment' providers' hexport' _
      obtain ⟨-, rfl⟩ := hexport.unique hexport'
      exact hdepth
    · intro deployment' providers' state hexport' hpassphrase
      obtain ⟨-, rfl⟩ := hexport.unique hexport'
      exact absurd hpassphrase hkind
    · rintro deployment' salt ⟨providers', state, hexport', hpassphrase, -⟩
      obtain ⟨-, rfl⟩ := hexport.unique hexport'
      exact absurd hpassphrase hkind
    · rintro ⟨deployment', salt, ⟨providers', state, hexport', hpassphrase, -⟩, -⟩
      obtain ⟨-, rfl⟩ := hexport.unique hexport'
      exact absurd hpassphrase hkind
    · intro kind
      constructor
      · intro hdetail
        have hstring := Detail.otherProvider.inj hdetail
        cases hother : getMember providers "type" with
        | none =>
          rw [hother] at hstring
          cases hstring
        | some value =>
          rw [hother] at hstring hkind
          have hvalue : value = .string kind := hstring
          rw [hvalue] at hother hkind
          exact ⟨fun hsame => hkind (by rw [hsame]), deployment, providers, hexport, hother⟩
      · rintro ⟨-, deployment', providers', hexport', hkind'⟩
        obtain ⟨-, rfl⟩ := hexport.unique hexport'
        rw [hkind']
        rfl
  · exact .raised (fun hcalm => hdepth (hcalm.kind _ _ hexport hkind)) h

theorem inspected_of_no_salt (hexport : Export interpreter file deployment providers)
    (hkind : getMember providers "type" = some (.string (text "passphrase")))
    (hstate : ∀ state, getMember providers "state" = some state → state.truthy = true →
      ∃ members, state = .object members)
    (hnone : ∀ deployment salt, ¬ Wrapped interpreter file deployment salt)
    (h : inspectArchive interpreter file = .error (.archiveError .noSalt)) :
    Inspected interpreter file := by
  obtain ⟨document, hdocument⟩ := hexport.exists_document
  refine .refused ⟨hdocument.utf8, hdocument.loads, ?_, ?_, ?_⟩ ?_
    (namesProvider_of_passphrase hexport hkind (by intro _ hdetail; cases hdetail)) h
  · intro deployment' providers' hexport' hother
    obtain ⟨-, rfl⟩ := hexport.unique hexport'
    exact absurd hkind hother
  · intro deployment' providers' state hexport' _
    obtain ⟨-, rfl⟩ := hexport.unique hexport'
    exact hstate state
  · exact fun deployment salt hwrapped => absurd hwrapped (hnone deployment salt)
  · exact fun ⟨deployment, salt, hwrapped, _⟩ => hnone deployment salt hwrapped

theorem inspected_of_wrapped (hwrapped : Wrapped interpreter file deployment salt)
    (h : inspectArchive interpreter file = inspectSalted interpreter deployment salt) :
    Inspected interpreter file := by
  obtain ⟨providers, state, hexport, hkind, hstate, -⟩ := id hwrapped
  obtain ⟨document, hdocument⟩ := hexport.exists_document
  by_cases hdepth : depth (.object deployment) ≤ interpreter.countLimit
  · have hcalm : CalmFile interpreter file := by
      refine ⟨hdocument.utf8, hdocument.loads, ?_, ?_, ?_⟩
      · intro deployment' providers' hexport' hother
        obtain ⟨-, rfl⟩ := hexport.unique hexport'
        exact absurd hkind hother
      · intro deployment' providers' state' hexport' _ hstate' _
        obtain ⟨-, rfl⟩ := hexport.unique hexport'
        cases hstate.symm.trans hstate'
        exact ⟨state, rfl⟩
      · intro deployment' salt' hwrapped'
        obtain ⟨rfl, -⟩ := hwrapped.unique hwrapped'
        exact hdepth
    simp only [inspectSalted, countChecked, if_pos hdepth] at h
    by_cases hplaintext : countKey (text "plaintext") (.object deployment) = 0
    · refine .usable hcalm hwrapped ((countKey_eq_zero_iff _).mp hplaintext) ?_
      rw [h]
      exact if_neg (not_not.mpr hplaintext)
    · refine .refused hcalm ?_ (namesProvider_of_passphrase hexport hkind (by intro _ hdetail; cases hdetail))
        (h.trans (if_pos hplaintext))
      rintro ⟨deployment', salt', hwrapped', hnone⟩
      obtain ⟨rfl, -⟩ := hwrapped.unique hwrapped'
      exact hplaintext ((countKey_eq_zero_iff _).mpr hnone)
  · have hraised : inspectSalted interpreter deployment salt = .error (.raised .recursionError) := by
      simp only [inspectSalted, countChecked, if_neg hdepth]
      rfl
    exact .raised (fun hcalm => hdepth (hcalm.nesting _ _ hwrapped)) (h.trans hraised)

theorem inspected_of_passphrase (hexport : Export interpreter file deployment providers)
    (hkind : getMember providers "type" = some (.string (text "passphrase")))
    (h : inspectArchive interpreter file = inspectWrapped interpreter deployment providers) :
    Inspected interpreter file := by
  have hwrapped_state : ∀ deployment' salt, Wrapped interpreter file deployment' salt →
      ∃ state, getMember providers "state" = some (.object state) ∧
        getMember state "salt" = some (.string salt) ∧ salt ≠ [] := by
    rintro deployment' salt ⟨providers', state, hexport', -, hstate, hsalt⟩
    obtain ⟨-, rfl⟩ := hexport.unique hexport'
    exact ⟨state, hstate, hsalt⟩
  have hnoSalt : (∀ state, getMember providers "state" = some state → state.truthy = true →
      ∃ members, state = .object members) → (∀ deployment' salt,
      ¬ Wrapped interpreter file deployment' salt) → ∀ found, found = (.ok none : Except Refusal _) ∨
      (∃ salt, found = .ok (some salt) ∧ ∀ s, salt = .string s → s = []) →
      inspectArchive interpreter file = (found >>= inspectSalt interpreter deployment) →
      Inspected interpreter file := by
    intro hobject hnone found hfound hfile
    refine inspected_of_no_salt hexport hkind hobject hnone (hfile.trans ?_)
    obtain rfl | ⟨salt, rfl, hempty⟩ := hfound
    · rfl
    · cases salt with
      | string s => exact if_pos (hempty s rfl)
      | _ => rfl
  cases hstate : getMember providers "state" with
  | none =>
    rw [inspectWrapped, hstate] at h
    refine hnoSalt ?_ ?_ _ (.inl rfl) h
    · intro state hsome
      cases hstate.symm.trans hsome
    · intro deployment' salt hwrapped
      obtain ⟨state, hsome, -⟩ := hwrapped_state deployment' salt hwrapped
      cases hstate.symm.trans hsome
  | some state =>
    rw [inspectWrapped, hstate, saltOf] at h
    by_cases htruthy : state.truthy = true
    · rw [if_pos htruthy] at h
      cases state with
      | object members =>
        have hobject : ∀ state', getMember providers "state" = some state' →
            state'.truthy = true → ∃ members, state' = .object members := by
          intro state' hsome _
          cases hstate.symm.trans hsome
          exact ⟨members, rfl⟩
        have hsame : ∀ deployment' salt, Wrapped interpreter file deployment' salt →
            getMember members "salt" = some (.string salt) ∧ salt ≠ [] := by
          intro deployment' salt hwrapped
          obtain ⟨members', hsome, hsalt⟩ := hwrapped_state deployment' salt hwrapped
          cases hstate.symm.trans hsome
          exact hsalt
        rw [Value.get] at h
        cases hsalt : getMember members "salt" with
        | none =>
          rw [hsalt] at h
          refine hnoSalt hobject (fun deployment' salt hwrapped => ?_) _ (.inl rfl) h
          cases hsalt.symm.trans (hsame deployment' salt hwrapped).1
        | some salt =>
          rw [hsalt] at h
          by_cases hempty : ∀ s, salt = .string s → s = []
          · refine hnoSalt hobject (fun deployment' salt' hwrapped => ?_) _
              (.inr ⟨salt, rfl, hempty⟩) h
            obtain ⟨hsome, hne⟩ := hsame deployment' salt' hwrapped
            exact hne (hempty salt' (Option.some.inj (hsalt.symm.trans hsome)))
          · push Not at hempty
            obtain ⟨s, rfl, hne⟩ := hempty
            exact inspected_of_wrapped ⟨providers, members, hexport, hkind, hstate, hsalt, hne⟩
              (h.trans (if_neg hne))
      | _ =>
        refine .raised (fun hcalm => ?_) h
        obtain ⟨members, hobject⟩ := hcalm.state _ _ _ hexport hkind hstate htruthy
        cases hobject
    · rw [if_neg htruthy] at h
      refine hnoSalt ?_ ?_ _ (.inl rfl) h
      · intro state' hsome htrue
        cases hstate.symm.trans hsome
        exact absurd htrue htruthy
      · intro deployment' salt hwrapped
        obtain ⟨members, hsome, hsalt, -⟩ := hwrapped_state deployment' salt hwrapped
        cases hstate.symm.trans hsome
        cases members with
        | nil => cases hsalt
        | cons => exact htruthy rfl

theorem inspected_of_export (hexport : Export interpreter file deployment providers)
    (h : inspectArchive interpreter file = inspectProviders interpreter deployment providers) :
    Inspected interpreter file := by
  by_cases hkind : getMember providers "type" = some (.string (text "passphrase"))
  · refine inspected_of_passphrase hexport hkind (h.trans ?_)
    rw [inspectProviders, hkind]
    exact if_pos rfl
  · refine inspected_of_other_provider hexport hkind (h.trans ?_)
    rw [inspectProviders]
    cases hother : getMember providers "type" with
    | none => rfl
    | some kind =>
      cases kind with
      | string s => exact if_neg fun hsame => hkind (by rw [hother, hsame])
      | _ => rfl

def objectAt (members : List (PyStr × Value)) (name : Str) (found : List (PyStr × Value)) : Prop :=
  getMember members name = some (.object found)

theorem inspectDocument_cases (interpreter : Interpreter) (document : Value) :
    (∃ archive deployment providers, document = .object archive ∧
      objectAt archive "deployment" deployment ∧
      objectAt deployment "secrets_providers" providers ∧
      inspectDocument interpreter document = inspectProviders interpreter deployment providers) ∨
    (∀ archive deployment providers, document = .object archive →
      objectAt archive "deployment" deployment →
        ¬ objectAt deployment "secrets_providers" providers) ∧
      ∃ detail, (∀ kind, detail ≠ .otherProvider kind) ∧
        inspectDocument interpreter document = .error (.archiveError detail) := by
  unfold inspectDocument
  split
  · rename_i archive
    split
    · rename_i deployment hdeployment
      split
      · rename_i providers hproviders
        exact .inl ⟨archive, deployment, providers, rfl, hdeployment, hproviders, rfl⟩
      · rename_i hother
        refine .inr ⟨?_, _, (by intro _ hdetail; cases hdetail), rfl⟩
        rintro _ deployment' providers ⟨⟩ hdeployment' hproviders
        cases hdeployment.symm.trans hdeployment'
        exact hother providers hproviders
    · rename_i hother
      refine .inr ⟨?_, _, (by intro _ hdetail; cases hdetail), rfl⟩
      rintro _ deployment providers ⟨⟩ hdeployment
      exact absurd hdeployment (hother deployment)
  · rename_i hother
    exact .inr ⟨fun archive _ _ hobject => absurd hobject (hother archive), _,
      (by intro _ hdetail; cases hdetail), rfl⟩

theorem inspected_of_document (hdocument : Document interpreter file document) :
    Inspected interpreter file := by
  obtain ⟨archive, deployment, providers, rfl, hdeployment, hproviders, h⟩ | ⟨hnone, detail, hdetail, h⟩ :=
    inspectDocument_cases interpreter document
  · exact inspected_of_export ⟨archive, hdocument, hdeployment, hproviders⟩
      ((inspectArchive_document hdocument).trans h)
  · refine inspected_of_no_export hdetail hdocument ?_ h
    rintro deployment providers ⟨archive, hdocument', hdeployment, hproviders⟩
    exact hnone archive deployment providers (hdocument.unique hdocument') hdeployment hproviders

theorem inspected (interpreter : Interpreter) (file : Option Bytes) :
    Inspected interpreter file := by
  cases hfile : file with
  | none =>
    have hnone : ∀ deployment providers, ¬ Export interpreter none deployment providers := by
      rintro deployment providers ⟨archive, ⟨bytes, content, hbytes, -⟩, -⟩
      cases hbytes
    exact .refused (.of_no_export nofun nofun hnone) (not_usable_of_no_export hnone)
      (namesProvider_of_no_export hnone (by intro _ hdetail; cases hdetail)) rfl
  | some bytes =>
    cases hcontent : utf8Decode bytes with
    | none =>
      have hraised : inspectArchive interpreter (some bytes) =
          .error (.raised .unicodeDecodeError) := by
        simp only [inspectArchive, hcontent]
      refine .raised (fun hcalm => ?_) hraised
      have hsome := hcalm.utf8 bytes rfl
      rw [hcontent] at hsome
      cases hsome
    | some content =>
      cases hloads : interpreter.loads (universalNewlines content) with
      | value document => exact inspected_of_document ⟨bytes, content, rfl, hcontent, hloads⟩
      | raised what =>
        have hraised : inspectArchive interpreter (some bytes) = .error (.raised what) := by
          simp only [inspectArchive, hcontent, hloads]
        exact .raised (fun hcalm => hcalm.loads bytes content what rfl hcontent hloads) hraised
      | decodeError =>
        have hrefused : inspectArchive interpreter (some bytes) =
            .error (.archiveError .notJson) := by
          simp only [inspectArchive, hcontent, hloads]
        have hnone : ∀ deployment providers,
            ¬ Export interpreter (some bytes) deployment providers := by
          rintro deployment providers ⟨archive, ⟨bytes', content', ⟨⟩, hcontent', hloads'⟩, -⟩
          cases hcontent.symm.trans hcontent'
          cases hloads.symm.trans hloads'
        refine .refused (.of_no_export ?_ ?_ hnone) (not_usable_of_no_export hnone)
          (namesProvider_of_no_export hnone (by intro _ hdetail; cases hdetail)) hrefused
        · rintro _ ⟨⟩
          rw [hcontent]
          rfl
        · rintro _ content' what ⟨⟩ hcontent' hraised
          cases hcontent.symm.trans hcontent'
          cases hloads.symm.trans hraised

end Shapes

end SharedInfra.ArchiveCheck
