import SharedInfra.ChannelKey.SoleConvergence

/-!
# How a whole run ends

A run is refused before it changes anything (`along_refused`), only reads
(`along_quiet`: every check run, and a run with nothing to do), or converges
(`along_converge`).
-/

namespace SharedInfra.ChannelKey

open Python Effects Prog

section Checks

variable (m : Machine) (rootUid : Nat) (w : Place)

/-- What the file system itself promises of a directory. -/
structure Place.Sound : Prop where
  fresh : ∀ name n, w.at_ name = some n → n < w.next
  oneName : ∀ name other n, w.at_ name = some n → w.at_ other = some n →
    (w.files n).nlink = 1 → other = name
  absent : w.directory = none → ∀ name, w.at_ name = none

/-- The parent passes `check_parent`. -/
def ParentPasses : Prop :=
  ∃ info, m.parent = .ok info ∧ info.kind = .directory ∧ info.uid = rootUid ∧
    info.mode &&& 0o022 = 0

def EntriesPass : Prop :=
  (∀ name n, w.at_ name = some n → OwnName w name) ∧
    ∀ n, w.at_ keyName = some n → ∃ seed, KeyPasses w n seed

def EarlyPasses : Prop :=
  ParentPasses m rootUid ∧ ∀ info, w.directory = some info → info.kind = .directory ∧ EntriesPass w

/-- Nothing is to be done but perhaps for the public file. -/
structure SoleKept (s : Settings) : Prop where
  key : KeyDone s w
  directory : directoryAdopts s w = false
  clean : leftovers w = []

end Checks

section Ends

variable {m : Machine} {b : Prop} {s : Settings} {sha512 : Bytes → Bytes} {seed : Bytes}
  {w v : Place} {rootUid : Nat} {checkMode : Bool} {result : Result}

theorem leftovers_eq_nil_iff : leftovers w = [] ↔ Clean w := by
  rw [List.eq_nil_iff_forall_not_mem]
  simp only [mem_leftovers, not_and, not_not, Clean]
  refine ⟨fun h name n hn => ?_, fun h name ⟨n, hn⟩ hkey => (h name n hn).resolve_left hkey⟩
  by_cases hkey : name = keyName
  · exact Or.inl hkey
  · exact Or.inr (h name ⟨n, hn⟩ hkey)

theorem along_checkParent : (checkParent s rootUid).Along m.handle (Quiet w) (fun r v =>
    (ParentPasses m rootUid ∧ v = w ∧ r = .ok ()) ∨
      (¬ ParentPasses m rootUid ∧ Refused w r v)) w := by
  refine along_ask_bind ⟨rfl, rfl⟩ ?_
  simp only [Machine.handle]
  cases hparent : m.parent with
  | error e =>
    refine Or.inr ⟨fun hpasses => ?_, rfl, _, _, rfl⟩
    obtain ⟨info, hinfo, -⟩ := hpasses
    rw [hparent] at hinfo
    cases hinfo
  | ok info =>
    simp only
    split_ifs with hbad
    · refine Or.inr ⟨fun hpasses => ?_, rfl, _, _, rfl⟩
      obtain ⟨info', hinfo, hkind, huid, hmode⟩ := hpasses
      rw [hparent] at hinfo
      obtain rfl := Except.ok.inj hinfo
      exact hbad.elim (absurd hkind) (Or.rec (absurd huid) (absurd hmode))
    · simp only [not_or, not_not] at hbad
      exact Or.inl ⟨⟨info, hparent, hbad⟩, rfl, rfl⟩

theorem along_makeDirectory_there {info : Info} (h : w.directory = some info) :
    (makeDirectory s checkMode).Along m.handle (Quiet w) (fun r v =>
      (info.kind = .directory ∧ v = w ∧ r = .ok (true, false)) ∨
        (info.kind ≠ .directory ∧ Refused w r v)) w := by
  refine along_ask_bind ⟨rfl, rfl⟩ ?_
  simp only [Machine.handle, h, Option.isSome_some, if_true]
  refine Along.bind (Q := fun r v => (info.kind = .directory ∧ v = w ∧ r = .ok ()) ∨
    (info.kind ≠ .directory ∧ Refused w r v)) ?_ (fun _ v hpost => ?_) fun e v hpost => ?_
  · refine along_ask_bind ⟨rfl, rfl⟩ ?_
    simp only [Machine.handle, h]
    by_cases hkind : info.kind = .directory
    · rw [if_pos hkind]
      exact Or.inl ⟨hkind, rfl, rfl⟩
    · rw [if_neg hkind]
      exact Or.inr ⟨hkind, rfl, _, _, rfl⟩
  · rcases hpost with ⟨hkind, rfl, -⟩ | ⟨_, _, _, _, he⟩
    · exact Or.inl ⟨hkind, rfl, rfl⟩
    · cases he
  · rcases hpost with ⟨_, _, he⟩ | ⟨hkind, hv, code, path, he⟩
    · cases he
    · exact Or.inr ⟨hkind, hv, code, path, by rw [Except.error.inj he]⟩

theorem along_refused_entries (h : ¬ EntriesPass w) :
    (convergeInDirectory sha512 s checkMode result).Along m.handle (Quiet w) (Refused w) w := by
  refine Along.bind along_listDirectory (fun temps v hpost => ?_) fun e v hpost => ?_
  · rcases hpost with ⟨hnames, rfl, -⟩ | ⟨_, _, _, _, he⟩
    swap
    · cases he
    refine Along.bind along_inspectKey (fun found u hpost => ?_) fun e u hpost => ?_
    · obtain ⟨rfl, hinspects⟩ := hpost
      cases hinspects with
      | absent habsent =>
        refine absurd ⟨hnames, fun n hn => ?_⟩ h
        rw [habsent] at hn
        cases hn
      | passes hkey hpasses =>
        refine absurd ⟨hnames, fun n hn => ?_⟩ h
        obtain rfl := Option.some.inj (hkey.symm.trans hn)
        exact ⟨_, hpasses⟩
    · obtain ⟨rfl, hinspects⟩ := hpost
      cases hinspects with
      | refused _ _ => exact ⟨rfl, _, _, rfl⟩
  · rcases hpost with ⟨_, _, he⟩ | ⟨_, hv, code, path, he⟩
    · cases he
    · exact ⟨hv, code, path, by rw [Except.error.inj he]⟩

variable (sha512 s checkMode) in
theorem along_refused (h : ¬ EarlyPasses m rootUid w) :
    (converge sha512 s checkMode rootUid).Along m.handle (Quiet w) (Refused w) w := by
  refine Along.bind along_checkParent (fun _ v hpost => ?_) fun e v hpost => ?_
  swap
  · rcases hpost with ⟨_, _, he⟩ | ⟨_, hv, code, path, he⟩
    · cases he
    · exact ⟨hv, code, path, by rw [Except.error.inj he]⟩
  rcases hpost with ⟨hparent, rfl, -⟩ | ⟨_, _, _, _, he⟩
  swap
  · cases he
  cases hdirectory : v.directory with
  | none =>
    refine absurd ⟨hparent, fun info hinfo => ?_⟩ h
    rw [hdirectory] at hinfo
    cases hinfo
  | some info =>
    refine Along.bind (along_makeDirectory_there hdirectory) (fun pair u hpost => ?_)
      fun e u hpost => ?_
    · rcases hpost with ⟨hkind, rfl, hpair⟩ | ⟨_, _, _, _, he⟩
      · obtain rfl := Except.ok.inj hpair
        have hentries : ¬ EntriesPass u := fun hentries => h ⟨hparent, fun info' hinfo => by
          rw [hdirectory] at hinfo
          obtain rfl := Option.some.inj hinfo
          exact ⟨hkind, hentries⟩⟩
        refine Along.finally_ (along_refused_entries hentries) fun r place hpost => ?_
        obtain ⟨rfl, hr⟩ := hpost
        exact along_sys (v := place) rfl ⟨rfl, rfl⟩ ⟨rfl, rfl, hr⟩
      · cases he
    · rcases hpost with ⟨_, _, he⟩ | ⟨_, hv, code, path, he⟩
      · cases he
      · exact ⟨hv, code, path, by rw [Except.error.inj he]⟩

end Ends

section Quiet

variable {m : Machine} {s : Settings} {sha512 : Bytes → Bytes} {seed : Bytes} {w : Place}
  {rootUid : Nat} {checkMode : Bool} {result : Result}

theorem along_tidy_quiet {info : Info} (h : w.directory = some info)
    (hidle : checkMode = true ∨ (directoryAdopts s w = false ∧ leftovers w = [])) :
    (tidy s checkMode (leftovers w) result).Along m.handle (Quiet w)
      (fun r v => v = w ∧ r = .ok (tidyResult s w result)) w := by
  have hstat : m.handle w .statDirectory = (.ok info, w) := by
    simp only [Machine.handle, h]
  have hadopts : directoryAdopts s w =
      decide (info.uid ≠ s.uid ∨ info.gid ≠ s.gid ∨ info.mode ≠ dirMode) := by
    rw [directoryAdopts, h]
  refine along_sys_bind hstat ⟨rfl, rfl⟩ ?_
  have hnone : (decide (info.uid ≠ s.uid ∨ info.gid ≠ s.gid ∨ info.mode ≠ dirMode) &&
      !checkMode) = false := by
    rw [← hadopts]
    rcases hidle with rfl | ⟨hfalse, -⟩
    · exact Bool.and_false _
    · rw [hfalse]
      rfl
  have hclear : onlyIf (!checkMode) (forEach (leftovers w) fun name => sys (.unlinkEntry name)) =
      (pure () : KeyProg Unit) := by
    rcases hidle with rfl | ⟨-, hnil⟩
    · rfl
    · rw [hnil, onlyIf]
      split_ifs <;> rfl
  simp only [hnone, onlyIf] at hclear ⊢
  rw [hclear]
  exact ⟨rfl, by rw [tidyResult, hadopts]⟩

/-- What a run that only reads tells of a key that is there. -/
inductive Tells (m : Machine) (sha512 : Bytes → Bytes) (s : Settings) (seed : Bytes) (w : Place)
    (result : Result) : Except KeyError Result → Prop
  | free (h : ¬ Blocked w m) : Tells m sha512 s seed w result (.ok { result with
      publicKey := some (b64encode (derivePublic sha512 seed))
      publicChanged := result.publicChanged || !currentPublic w s (derivePublic sha512 seed) })
  | blocked {code : Code} {path : Str} (h : Blocked w m) :
      Tells m sha512 s seed w result (.error (.refusal code path))

theorem along_publish_quiet
    (hidle : checkMode = true ∨ Blocked w m ∨
      (currentPublic w s (derivePublic sha512 seed) = true ∧ result.changed = false)) :
    (publish s checkMode (derivePublic sha512 seed) result).Along m.handle (Quiet w)
      (fun r v => v = w ∧ Tells m sha512 s seed w result r) w := by
  refine Along.bind (along_publicIsCurrent length_derivePublic) (fun current v hpost => ?_)
    fun e v hpost => ?_
  swap
  · obtain ⟨rfl, ⟨hblocked, code, path, he⟩ | ⟨_, he⟩⟩ := hpost
    · obtain rfl := Except.error.inj he
      exact ⟨rfl, .blocked hblocked⟩
    · cases he
  obtain ⟨rfl, ⟨_, _, _, he⟩ | ⟨hfree, he⟩⟩ := hpost
  · cases he
  obtain rfl := Except.ok.inj he
  rcases hidle with rfl | hblocked | ⟨hcurrent, hunchanged⟩
  · simp only [Bool.not_true, Bool.and_false, Bool.false_and, onlyIf]
    exact ⟨rfl, .free hfree⟩
  · exact absurd hblocked hfree
  · have hquiet : Result.changed { result with
        publicKey := some (b64encode (derivePublic sha512 seed))
        publicChanged := result.publicChanged || !true } = false := by
      simpa [Result.changed] using hunchanged
    have hlast : ∀ result : Result, result.changed = false → (do
        onlyIf (!true && !checkMode) (writePublic s (derivePublic sha512 seed))
        onlyIf (!checkMode && result.changed) (sys .syncDirectory)
        pure result : KeyProg Result).Along m.handle (Quiet v)
          (fun r u => u = v ∧ r = .ok result) v := by
      intro result hresult
      rw [hresult, Bool.and_false]
      exact ⟨rfl, rfl⟩
    rw [hcurrent]
    refine (hlast _ hquiet).weaken fun r u hpost => ?_
    obtain ⟨rfl, rfl⟩ := hpost
    have htells : Tells m sha512 s seed u result _ := .free hfree
    rw [hcurrent] at htells
    exact ⟨rfl, htells⟩

theorem along_adoptKey_quiet {n : Nat} (hn : w.at_ keyName = some n)
    (hidle : checkMode = true ∨ (keyAdopts s w = false ∧ (Blocked w m ∨
      (currentPublic w s (derivePublic sha512 seed) = true ∧ result.changed = false)))) :
    (adoptKey s checkMode n ⟨derivePublic sha512 seed, (w.files n).uid, (w.files n).gid,
        (w.files n).mode⟩ result).Along m.handle (Quiet w) (fun r v => v = w ∧
      Tells m sha512 s seed w { result with adopted := result.adopted || keyAdopts s w } r) w := by
  have hadopts : keyAdopts s w = decide ((w.files n).uid ≠ s.uid ∨ (w.files n).gid ≠ s.gid ∨
      (w.files n).mode ≠ keyMode) := by
    simp only [keyAdopts, hn]
  have hnone : (decide ((w.files n).uid ≠ s.uid ∨ (w.files n).gid ≠ s.gid ∨
      (w.files n).mode ≠ keyMode) && !checkMode) = false := by
    rw [← hadopts]
    rcases hidle with rfl | ⟨hfalse, -⟩
    · exact Bool.and_false _
    · rw [hfalse]
      rfl
  have hidle' : checkMode = true ∨ Blocked w m ∨
      (currentPublic w s (derivePublic sha512 seed) = true ∧
        Result.changed { result with adopted := result.adopted || keyAdopts s w } = false) := by
    refine hidle.imp_right fun hrest => hrest.2.imp_right fun hpublic => ⟨hpublic.1, ?_⟩
    rw [hrest.1, Bool.or_false]
    exact hpublic.2
  refine Along.finally_ (Q := fun r v => v = w ∧
    Tells m sha512 s seed w { result with adopted := result.adopted || keyAdopts s w } r) ?_
    fun r v hpost => ?_
  · simp only [hnone, onlyIf]
    rw [← hadopts]
    exact along_publish_quiet hidle'
  · obtain ⟨rfl, hpost⟩ := hpost
    exact along_sys (v := v) rfl ⟨rfl, rfl⟩ ⟨rfl, rfl, hpost⟩

/-- What a run that only reads ends with: `made` says whether the directory would be new. -/
inductive Foresees (m : Machine) (sha512 : Bytes → Bytes) (s : Settings) (w : Place) (made : Bool) :
    Except KeyError Result → Prop
  | absent (h : w.at_ keyName = none) :
      Foresees m sha512 s w made (.ok { report s w made with publicChanged := true })
  | there {n : Nat} {seed : Bytes} {r : Except KeyError Result} (h : w.at_ keyName = some n)
      (hkey : KeyPasses w n seed) (htells : Tells m sha512 s seed w (report s w made) r) :
      Foresees m sha512 s w made r

/-- A run with nothing to do: the rest is kept and the public file current, or in the way. -/
def Idle (m : Machine) (sha512 : Bytes → Bytes) (s : Settings) (w : Place) : Prop :=
  SoleKept w s ∧ (Blocked w m ∨ ∀ n seed, w.at_ keyName = some n → KeyPasses w n seed →
    currentPublic w s (derivePublic sha512 seed) = true)

theorem along_convergeInDirectory_quiet {info : Info} (h : w.directory = some info)
    (hentries : EntriesPass w) {made : Bool}
    (hidle : checkMode = true ∨ (Idle m sha512 s w ∧ made = false)) :
    (convergeInDirectory sha512 s checkMode { Result.new with directoryCreated := made }).Along
      m.handle (Quiet w) (fun r v => v = w ∧ Foresees m sha512 s w made r) w := by
  have htidy : checkMode = true ∨ (directoryAdopts s w = false ∧ leftovers w = []) :=
    hidle.imp_right fun ⟨⟨hkept, _⟩, _⟩ => ⟨hkept.directory, hkept.clean⟩
  refine Along.bind along_listDirectory (fun temps v hpost => ?_) fun e v hpost => ?_
  swap
  · rcases hpost with ⟨_, _, he⟩ | ⟨hnot, _⟩
    · cases he
    · exact absurd hentries.1 hnot
  rcases hpost with ⟨-, rfl, he⟩ | ⟨hnot, _⟩
  swap
  · exact absurd hentries.1 hnot
  obtain rfl := Except.ok.inj he
  refine Along.bind along_inspectKey (fun found u hpost => ?_) fun e u hpost => ?_
  swap
  · obtain ⟨rfl, hinspects⟩ := hpost
    cases hinspects with
    | refused hkey hnot => exact absurd (hentries.2 _ hkey) hnot
  obtain ⟨rfl, hinspects⟩ := hpost
  cases hinspects with
  | absent habsent =>
    refine Along.bind (along_tidy_quiet h htidy) (fun result place hpost => ?_)
      fun e place hpost => ?_
    swap
    · cases hpost.2
    obtain ⟨rfl, hresult⟩ := hpost
    obtain rfl := Except.ok.inj hresult
    have hcheck : checkMode = true := hidle.resolve_right fun ⟨⟨hkept, _⟩, _⟩ => by
      obtain ⟨n, hn⟩ := hkept.key.there
      rw [habsent] at hn
      cases hn
    subst hcheck
    refine ⟨rfl, ?_⟩
    have hforesees : Foresees m sha512 s place made _ := .absent habsent
    have hreport : ({ report s place made with publicChanged := true } : Result) =
        { tidyResult s place { Result.new with directoryCreated := made } with
          created := true, publicChanged := true } := by
      simp [report, tidyResult, Result.new, habsent, keyAdopts]
    rwa [hreport] at hforesees
  | passes hkey hpasses =>
    rename_i n seed
    refine Along.bind (Q := fun r v => v = u ∧ r = .ok (tidyResult s u
      { Result.new with directoryCreated := made })) ?_ (fun result place hpost => ?_)
      fun e place hpost => ?_
    · refine Along.catchWith (along_tidy_quiet h htidy) (fun result place hpost => hpost)
        fun e place hpost => ?_
      cases hpost.2
    · obtain ⟨rfl, hresult⟩ := hpost
      obtain rfl := Except.ok.inj hresult
      have hadopt : checkMode = true ∨ (keyAdopts s place = false ∧ (Blocked place m ∨
          (currentPublic place s (derivePublic sha512 seed) = true ∧ Result.changed
            (tidyResult s place { Result.new with directoryCreated := made }) = false))) := by
        refine hidle.imp_right fun ⟨⟨hkept, hpub⟩, hmade⟩ => ⟨hkept.key.adopts, ?_⟩
        refine hpub.imp_right fun hcurrent => ⟨hcurrent n seed hkey hpasses, ?_⟩
        subst hmade
        simp [Result.changed, tidyResult, Result.new, hkept.directory, hkept.clean]
      refine (along_adoptKey_quiet hkey hadopt).weaken fun r place' hpost => ⟨hpost.1, ?_⟩
      have hreport : report s place made = { tidyResult s place
          { Result.new with directoryCreated := made } with
            adopted := (tidyResult s place { Result.new with
              directoryCreated := made }).adopted || keyAdopts s place } := by
        simp [report, tidyResult, Result.new, hkey]
      rw [← hreport] at hpost
      exact .there hkey hpasses hpost.2
    · cases hpost.2

variable (s sha512 checkMode) in
theorem along_quiet (hearly : EarlyPasses m rootUid w) {info : Info} (h : w.directory = some info)
    (hidle : checkMode = true ∨ Idle m sha512 s w) :
    (converge sha512 s checkMode rootUid).Along m.handle (Quiet w)
      (fun r v => v = w ∧ Foresees m sha512 s w false r) w := by
  obtain ⟨hkind, hentries⟩ := hearly.2 info h
  refine Along.bind along_checkParent (fun _ v hpost => ?_) fun e v hpost => ?_
  swap
  · rcases hpost with ⟨_, _, he⟩ | ⟨hnot, _⟩
    · cases he
    · exact absurd hearly.1 hnot
  rcases hpost with ⟨-, rfl, -⟩ | ⟨hnot, _⟩
  swap
  · exact absurd hearly.1 hnot
  refine Along.bind (along_makeDirectory_there h) (fun pair u hpost => ?_) fun e u hpost => ?_
  swap
  · rcases hpost with ⟨_, _, he⟩ | ⟨hnot, _⟩
    · cases he
    · exact absurd hkind hnot
  rcases hpost with ⟨-, rfl, hpair⟩ | ⟨hnot, _⟩
  swap
  · exact absurd hkind hnot
  obtain rfl := Except.ok.inj hpair
  refine Along.finally_ (along_convergeInDirectory_quiet h hentries
    (hidle.imp_right fun hidle => ⟨hidle, rfl⟩)) fun r place hpost => ?_
  obtain ⟨rfl, hpost⟩ := hpost
  exact along_sys (v := place) rfl ⟨rfl, rfl⟩ ⟨rfl, rfl, hpost⟩

variable (s sha512) in
theorem along_quiet_absent (hearly : EarlyPasses m rootUid w) (h : w.directory = none) :
    (converge sha512 s true rootUid).Along m.handle (Quiet w) (fun r v => v = w ∧
      r = .ok { Result.new with created := true, publicChanged := true, directoryCreated := true })
      w := by
  refine Along.bind along_checkParent (fun _ v hpost => ?_) fun e v hpost => ?_
  swap
  · rcases hpost with ⟨_, _, he⟩ | ⟨hnot, _⟩
    · cases he
    · exact absurd hearly.1 hnot
  rcases hpost with ⟨-, rfl, -⟩ | ⟨hnot, _⟩
  swap
  · exact absurd hearly.1 hnot
  refine ⟨⟨rfl, rfl⟩, ?_⟩
  simp only [Machine.handle, h]
  exact ⟨rfl, rfl⟩

end Quiet

section Converge

variable {m : Machine} {b : Prop} {s : Settings} {sha512 : Bytes → Bytes} {seed : Bytes}
  {w v : Place} {rootUid : Nat}

def Opens (m : Machine) (b : Prop) (seed : Bytes) (w : Place) : Prop :=
  (w.directory = none ∧ ∀ name, w.at_ name = none) ∨ InOrder m b seed w

/-- The places of a whole run. -/
def Onward (m : Machine) (b : Prop) (seed : Bytes) (w v : Place) (_ : KeyOp) : Prop :=
  v = w ∨ Midway m b seed v

theorem Comes.congr {u : Place} {result : Result} {r : Except KeyError Result}
    (h : Comes m b sha512 s seed v result r u) (hsame : SamePublic w v) :
    Comes m b sha512 s seed w result r u := by
  cases h with
  | settled hfree hsettled =>
    rw [hsame.current]
    exact .settled (fun hblocked => hfree (hsame.blocked.mpr hblocked)) hsettled
  | blocked hblocked hkeyed => exact .blocked (hsame.blocked.mp hblocked) hkeyed

theorem Comes.midway {result : Result} {r : Except KeyError Result}
    (h : Comes m b sha512 s seed w result r v) : InOrder m b seed v := by
  cases h with
  | settled _ hsettled => exact hsettled.order
  | blocked _ hkeyed => exact hkeyed.order

theorem inOrder_of_empty {info : Info} (h : w.directory = some info)
    (hkind : info.kind = .directory) (hempty : ∀ name, w.at_ name = none) :
    InOrder m b seed w := by
  have hnone : ∀ {name n}, w.at_ name ≠ some n := fun h => by
    rw [hempty] at h
    cases h
  exact ⟨⟨info, h, hkind⟩, fun _ _ hn => absurd hn hnone, fun _ hn => absurd hn hnone,
    fun _ _ hn => absurd hn hnone, fun _ _ hn => absurd hn hnone, fun ⟨_, hn, _⟩ => absurd hn hnone⟩

theorem along_convergeOpened (hmidway : InOrder m b seed v) (hseed : Leaves m seed v)
    (made : Bool) : ((convergeInDirectory sha512 s false
      { Result.new with directoryCreated := made }).finally_ (sys .closeDirectory)).Along
        m.handle (Onward m b seed w) (Comes m b sha512 s seed v (report s v made)) v := by
  refine Along.finally_ ((along_convergeInDirectory hmidway hseed made).mono
    (fun _ _ h => Or.inr h) fun _ _ h => h) fun r u hpost => ?_
  exact along_sys (v := u) rfl (Or.inr (Or.inl hpost.midway)) ⟨rfl, hpost⟩

variable (sha512 s) in
theorem along_converge (hparent : ParentPasses m rootUid) (hopens : Opens m b seed w)
    (hseed : Leaves m seed w) : (converge sha512 s false rootUid).Along m.handle (Onward m b seed w)
      (Comes m b sha512 s seed w (report s w w.directory.isNone)) w := by
  have hquiet : ∀ u op, Quiet w u op → Onward m b seed w u op := fun _ _ h => Or.inl h.1
  refine Along.bind (along_checkParent.mono hquiet fun _ _ h => h) (fun _ v hpost => ?_)
    fun e v hpost => ?_
  swap
  · rcases hpost with ⟨_, _, he⟩ | ⟨hnot, _⟩
    · cases he
    · exact absurd hparent hnot
  rcases hpost with ⟨-, rfl, -⟩ | ⟨hnot, _⟩
  swap
  · exact absurd hparent hnot
  rcases hopens with ⟨hnone, hempty⟩ | horder
  · let info : Info := ⟨.directory, 2, 0, m.owner.1, m.owner.2, m.masked dirMode⟩
    let made : Place := { v with directory := some info }
    let owned : Place := made.changeDirectory fun info => { info with uid := s.uid, gid := s.gid }
    let ready : Place := owned.changeDirectory fun info => { info with mode := dirMode }
    have hmade : InOrder m b seed made := inOrder_of_empty rfl rfl hempty
    have howned : InOrder m b seed owned := hmade.changeDirectory fun _ => rfl
    have hready : InOrder m b seed ready := howned.changeDirectory fun _ => rfl
    refine Along.bind (Q := fun r u => r = .ok (true, true) ∧ u = ready) ?_
      (fun pair u hpost => ?_) fun e u hpost => ?_
    · refine ⟨Or.inl rfl, ?_⟩
      simp only [Machine.handle, hnone]
      refine ⟨Or.inl rfl, ?_⟩
      simp only [Machine.handle, hnone]
      refine Along.bind (Q := fun r u => r = .ok () ∧ u = made) ?_ (fun _ u hpost => ?_)
        fun e u hpost => ?_
      · exact ⟨Or.inr (Or.inl hmade), rfl, rfl⟩
      · obtain ⟨-, rfl⟩ := hpost
        exact along_sys_bind (v := owned) rfl (Or.inr (Or.inl hmade))
          (along_sys_bind (v := ready) rfl (Or.inr (Or.inl howned)) ⟨rfl, rfl⟩)
      · cases hpost.1
    · obtain ⟨hpair, rfl⟩ := hpost
      obtain rfl := Except.ok.inj hpair
      have hreport : report s ready true = report s v v.directory.isNone := by
        have hwanted : directoryAdopts s ready = false :=
          directoryAdopts_of_wanted rfl ⟨rfl, rfl, rfl⟩
        have hadopts : directoryAdopts s ready = directoryAdopts s v := by
          rw [hwanted, directoryAdopts, hnone]
        have hkey : keyAdopts s ready = keyAdopts s v := rfl
        rw [report, report, hadopts, hkey, hnone]
        rfl
      rw [← hreport]
      refine (along_convergeOpened hready (fun habsent => hseed habsent) true).weaken
        fun r u hpost => hpost.congr ⟨rfl, fun _ _ => Alike.rfl⟩
    · cases hpost.1
  · obtain ⟨info, hinfo, hkind⟩ := horder.directory
    refine Along.bind ((along_makeDirectory_there hinfo).mono hquiet fun _ _ h => h)
      (fun pair u hpost => ?_) fun e u hpost => ?_
    · rcases hpost with ⟨-, rfl, hpair⟩ | ⟨hnot, _⟩
      · obtain rfl := Except.ok.inj hpair
        rw [hinfo]
        exact along_convergeOpened horder hseed false
      · exact absurd hkind hnot
    · rcases hpost with ⟨_, _, he⟩ | ⟨hnot, _⟩
      · cases he
      · exact absurd hkind hnot

end Converge

end SharedInfra.ChannelKey
