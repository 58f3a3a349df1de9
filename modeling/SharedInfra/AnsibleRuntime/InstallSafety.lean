import SharedInfra.AnsibleRuntime.Install

/-!
# The parts of an install

What each function of the install keeps (`Safe`) and where it ends (`Ends`): it
returns what it says, or it raises with the world as said, such as with the link
where it was, which a calm run does not do.
-/

namespace SharedInfra.AnsibleRuntime

open Python Effects Prog

section Rules

variable {α β : Type}

/-- A result that is as said, or an exception in a run that is not calm, with the world as said. -/
def Ends (calm : Prop) (now : World → Prop) (q : α → World → Prop) : Except Failure α → World → Prop
  | .ok a, w => q a w
  | .error _, w => now w ∧ ¬calm

variable (sha256 : Bytes → Bytes) (requests : Set Request) (link : LinkNode) (lock : Bytes)
  (calm : Prop)

/-- Every call of the program keeps the invariant, and it ends as said. -/
abbrev Safe (now : World → Prop) (q : α → World → Prop) (p : InstallProg α) (w : World) : Prop :=
  p.KeepsAlone (Acts lock calm) (Sound sha256 requests link) (Ends calm now q) w

variable {sha256 requests link lock calm} {now : World → Prop} {w : World}

theorem Safe.bind {p : InstallProg α} {f : α → InstallProg β} {m : α → World → Prop}
    {q : β → World → Prop} (h : Safe sha256 requests link lock calm now m p w)
    (hnext : ∀ a w', m a w' → Safe sha256 requests link lock calm now q (f a) w') :
    Safe sha256 requests link lock calm now q (p >>= f) w :=
  Keeps.bind h hnext fun _ _ hends => hends

theorem Safe.mono {p : InstallProg α} {q q' : α → World → Prop}
    (h : Safe sha256 requests link lock calm now q p w) (hok : ∀ a w, q a w → q' a w) :
    Safe sha256 requests link lock calm now q' p w :=
  Keeps.mono h fun r w hends =>
    match r with
    | .ok a => hok a w hends
    | .error _ => hends

theorem safe_call {op : Op} {q : Val op → World → Prop}
    (hcan : calm → ∃ v w', Does w op (some v) w')
    (hraised : ∀ w', Does w op none w' → Sound sha256 requests link w' ∧ now w')
    (hvalue : ∀ v w', Acts lock calm w op (some v) w' → Sound sha256 requests link w' ∧ q v w') :
    Safe sha256 requests link lock calm now q (call op) w := by
  refine keepsAlone_ask_bind fun a w' hacts => ?_
  cases a with
  | some v => exact hvalue v w' hacts
  | none =>
    obtain ⟨hsound, hnow⟩ := hraised w' hacts.1
    refine ⟨hsound, hnow, fun hcalm => ?_⟩
    obtain ⟨v, w'', hdoes⟩ := hcan hcalm
    cases (hacts.2 hcalm).1 rfl _ _ hdoes

structure Looks (w : World) (op : Op) (answer : Val op) : Prop where
  can : Does w op (some answer) w
  raised : ∀ w', Does w op none w' → w' = w
  only : ∀ v w', Does w op (some v) w' → v = answer ∧ w' = w

theorem safe_look {op : Op} {answer : Val op} {q : Val op → World → Prop}
    (hlooks : Looks w op answer) (hsound : Sound sha256 requests link w) (hnow : now w)
    (hok : q answer w) : Safe sha256 requests link lock calm now q (call op) w := by
  refine safe_call (fun _ => ⟨_, _, hlooks.can⟩) (fun w' hraised => ?_) fun v w' hacts => ?_
  · obtain rfl := hlooks.raised w' hraised
    exact ⟨hsound, hnow⟩
  · obtain ⟨rfl, rfl⟩ := hlooks.only v w' hacts.1
    exact ⟨hsound, hok⟩

theorem safe_look_bind {op : Op} {answer : Val op} {f : Val op → InstallProg β}
    {q : β → World → Prop} (hlooks : Looks w op answer) (hsound : Sound sha256 requests link w)
    (hnow : now w) (hnext : Safe sha256 requests link lock calm now q (f answer) w) :
    Safe sha256 requests link lock calm now q (call op >>= f) w := by
  refine (safe_look (q := fun v w' => v = answer ∧ w' = w) hlooks hsound hnow
    ⟨rfl, rfl⟩).bind fun v w' hmid => ?_
  obtain ⟨rfl, rfl⟩ := hmid
  exact hnext

theorem safe_pure {a : α} {q : α → World → Prop} (h : q a w) :
    Safe sha256 requests link lock calm now q (pure a) w := h

theorem safe_refuseIf {condition : Bool} {reason : Reason} {q : Unit → World → Prop}
    (hnow : now w) (hcalm : calm → condition = false)
    (hok : condition = false → q () w) :
    Safe sha256 requests link lock calm now q (refuseIf condition reason) w := by
  cases condition with
  | false => exact hok rfl
  | true => exact ⟨hnow, fun h => absurd (hcalm h) (by simp)⟩

end Rules

section Looking

variable {w : World} {place : Place} {name : Str}

theorem looks_isFile : Looks w (.isFile place) (w.files place).isFile :=
  ⟨.isFile, fun _ h => by cases h; rfl, fun _ _ h => by cases h; exact ⟨rfl, rfl⟩⟩

theorem looks_isSymlink : Looks w (.isSymlink place) (w.files place).isSymlink :=
  ⟨.isSymlink, fun _ h => by cases h; rfl, fun _ _ h => by cases h; exact ⟨rfl, rfl⟩⟩

theorem looks_read {data : Bytes} (h : (w.files place).data = some data) :
    Looks w (.read place) data := by
  refine ⟨.read h, fun _ h => by cases h; rfl, fun v w' hdoes => ?_⟩
  cases hdoes with
  | read h' => exact ⟨Option.some.inj (h'.symm.trans h), rfl⟩

theorem looks_pipEnvironment : Looks w .pipEnvironment () :=
  ⟨.pipEnvironment, fun _ h => by cases h; rfl, fun _ _ h => by cases h; exact ⟨rfl, rfl⟩⟩

theorem looks_pipExecutable :
    Looks w (.pipExecutable name) ((w.venvs name).contents.any (·.pip)) :=
  ⟨.pipExecutable, fun _ h => by cases h; rfl, fun _ _ h => by cases h; exact ⟨rfl, rfl⟩⟩

theorem looks_playbookExecutable :
    Looks w (.playbookExecutable name) ((w.venvs name).contents.any (·.playbook)) :=
  ⟨.playbookExecutable, fun _ h => by cases h; rfl, fun _ _ h => by cases h; exact ⟨rfl, rfl⟩⟩

theorem looks_venvExists : Looks w (.venvExists name) (w.venvs name).lexists :=
  ⟨.venvExists, fun _ h => by cases h; rfl, fun _ _ h => by cases h; exact ⟨rfl, rfl⟩⟩

theorem looks_venvIsSymlink : Looks w (.venvIsSymlink name) (w.venvs name).isSymlink :=
  ⟨.venvIsSymlink, fun _ h => by cases h; rfl, fun _ _ h => by cases h; exact ⟨rfl, rfl⟩⟩

theorem looks_linkParentIsDirectory : Looks w .linkParentIsDirectory w.linkParent :=
  ⟨.linkParentIsDirectory, fun _ h => by cases h; rfl, fun _ _ h => by cases h; exact ⟨rfl, rfl⟩⟩

theorem looks_linkIsSymlink : Looks w .linkIsSymlink w.link.isSymlink :=
  ⟨.linkIsSymlink, fun _ h => by cases h; rfl, fun _ _ h => by cases h; exact ⟨rfl, rfl⟩⟩

end Looking

variable {sha256 : Bytes → Bytes} {requests : Set Request} {link : LinkNode} {now : World → Prop} {lock : Bytes}
  {calm : Prop} {w : World}

def Node.own : Node → Option Bytes
  | .file data => some data
  | _ => none

theorem safe_readOwn (place : Place) (hsound : Sound sha256 requests link w)
    (hnow : now w) :
    Safe sha256 requests link lock calm now (fun found w' => found = (w.files place).own ∧ w' = w)
      (readOwn place) w := by
  refine safe_look_bind looks_isFile hsound hnow ?_
  cases hnode : w.files place with
  | absent => exact ⟨rfl, rfl⟩
  | directory => exact ⟨rfl, rfl⟩
  | file data =>
    refine safe_look_bind looks_isSymlink hsound hnow ?_
    rw [hnode]
    have hdata : (w.files place).data = some data := by rw [hnode]; rfl
    refine safe_look_bind (looks_read hdata) hsound hnow ?_
    exact ⟨rfl, rfl⟩
  | symlink leadsTo =>
    cases leadsTo with
    | none => exact ⟨rfl, rfl⟩
    | some data =>
      refine safe_look_bind looks_isSymlink hsound hnow ?_
      rw [hnode]
      exact ⟨rfl, rfl⟩

/-- The worlds that differ in the temporary files only. -/
def Like (w w' : World) : Prop :=
  ∃ temps written, w' = { w with temps := temps, written := written }

theorem Like.refl (w : World) : Like w w := ⟨_, _, rfl⟩

theorem Like.trans {w₁ w₂ : World} (h : Like w w₁) (h' : Like w₁ w₂) : Like w w₂ := by
  obtain ⟨_, _, rfl⟩ := h
  obtain ⟨temps, written, rfl⟩ := h'
  exact ⟨temps, written, rfl⟩

theorem Like.sound {w' : World} (h : Like w w') (hsound : Sound sha256 requests link w) :
    Sound sha256 requests link w' := by
  obtain ⟨_, _, rfl⟩ := h
  exact hsound.congr rfl rfl rfl rfl rfl

theorem Like.put {w' : World} (h : Like w w') (place : Place) (data : Bytes)
    (temps : Finset (Place × Nat)) :
    Like (w.put place data) { w'.put place data with temps := temps } := by
  obtain ⟨_, written, rfl⟩ := h
  exact ⟨temps, written, rfl⟩

theorem safe_replace (place : Place) (data : Bytes) (n : Nat) {w₀ : World}
    (hlike : Like w₀ w) (hn : (place, n) ∈ w.temps) (hsound : Sound sha256 requests link w₀)
    (hdone : Sound sha256 requests link (w₀.put place data))
    (hnode : w₀.files place ≠ .directory) :
    Safe sha256 requests link lock calm (Like w₀) (fun _ w' => Like (w₀.put place data) w')
      (do
        call (.writeTemp place n data)
        call (.chmodTemp place n 0o644)
        call (.replaceTemp place n)) w := by
  have hkeeps : ∀ {w'}, Like w₀ w' → Sound sha256 requests link w' ∧ Like w₀ w' :=
    fun h => ⟨h.sound hsound, h⟩
  refine Safe.bind (m := fun _ w' => Like w₀ w' ∧ (place, n) ∈ w'.temps ∧
    w'.written (place, n) = data) ?_ fun _ w₁ hw₁ => ?_
  · refine safe_call (fun _ => ⟨_, _, .writeTemp⟩) (fun w' hraised => ?_) fun _ w' hacts => ?_
    · cases hraised with
      | raised => exact hkeeps hlike
      | writePart => exact hkeeps (hlike.trans ⟨_, _, rfl⟩)
    · cases hacts.1
      have hafter := hlike.trans ⟨w.temps, Function.update w.written (place, n) data, rfl⟩
      exact ⟨(hkeeps hafter).1, hafter, hn, Function.update_self _ _ _⟩
  · obtain ⟨hlike₁, hn₁, hwritten⟩ := hw₁
    refine Safe.bind (m := fun _ w' => w' = w₁) ?_ fun _ w₂ hw₂ => ?_
    · refine safe_call (fun _ => ⟨_, _, .chmodTemp⟩) (fun w' hraised => ?_) fun _ w' hacts => ?_
      · cases hraised
        exact hkeeps hlike₁
      · cases hacts.1
        exact ⟨(hkeeps hlike₁).1, rfl⟩
    · subst hw₂
      have hnode₁ : w₂.files place ≠ .directory := by
        obtain ⟨_, _, rfl⟩ := hlike₁
        exact hnode
      refine safe_call (fun _ => ⟨_, _, .replaceTemp hn₁ hnode₁⟩) (fun w' hraised => ?_)
        fun _ w' hacts => ?_
      · cases hraised
        exact hkeeps hlike₁
      · cases hacts.1
        rw [hwritten]
        have hafter := hlike₁.put place data (w₂.temps.erase (place, n))
        exact ⟨hafter.sound hdone, hafter⟩

theorem safe_writeFileAtomically (place : Place) (data : Bytes)
    (hsound : Sound sha256 requests link w)
    (hdone : Sound sha256 requests link (w.put place data))
    (hnow : ∀ w', Like w w' → now w')
    (hholds : calm → w.Holds place) (hnode : w.files place ≠ .directory) :
    Safe sha256 requests link lock calm now (fun _ w' => Like (w.put place data) w')
      (writeFileAtomically place data) w := by
  refine Safe.bind (m := fun n w' => Like w w' ∧ (place, n) ∈ w'.temps) ?_ ?_
  · refine safe_call (fun hcalm => ?_) (fun w' hraised => ?_) fun n w' hacts => ?_
    · obtain ⟨n, hn⟩ := Infinite.exists_notMem_finset (w.temps.image Prod.snd)
      refine ⟨n, _, .mkstemp (hholds hcalm) fun hmem => hn ?_⟩
      exact Finset.mem_image_of_mem Prod.snd hmem
    · cases hraised
      exact ⟨hsound, hnow w (Like.refl w)⟩
    · cases hacts.1
      exact ⟨Like.sound ⟨_, _, rfl⟩ hsound, ⟨_, _, rfl⟩, Finset.mem_insert_self _ _⟩
  · rintro n w₁ ⟨hw₁, hn⟩
    refine Keeps.resume (safe_replace place data n hw₁ hn hsound hdone hnode) fun r w₂ hends => ?_
    cases r with
    | ok _ => exact hends
    | error e =>
      -- The temporary file goes and the exception goes on.
      obtain ⟨hlike, hcalm⟩ := hends
      refine Safe.bind (m := fun _ w' => now w') ?_ fun _ w' hw' => ⟨hw', hcalm⟩
      refine safe_call (fun h => absurd h hcalm) (fun w' hraised => ?_) fun _ w' hacts => ?_
      · cases hraised
        exact ⟨hlike.sound hsound, hnow _ hlike⟩
      · cases hacts.1
        have hafter := hlike.trans ⟨w₂.temps.erase (place, n), w₂.written, rfl⟩
        exact ⟨hafter.sound hsound, hnow _ hafter⟩

theorem put_of_own {place : Place} {data : Bytes} (h : (w.files place).own = some data) :
    w.put place data = w := by
  have hnode : w.files place = .file data := by
    cases hnode : w.files place with
    | file found => rw [hnode] at h; cases h; rfl
    | _ => rw [hnode] at h; cases h
  rw [World.put, ← hnode, Function.update_eq_self]

theorem safe_copyLock (name : Str) (bytes : Bytes) (hsound : Sound sha256 requests link w)
    (hnow : ∀ w', Like w w' → now w') (hholds : calm → w.Holds (.requirements name)) :
    Safe sha256 requests link lock calm now
      (fun _ w' => Like (w.put (.requirements name) bytes) w') (copyLock name bytes) w := by
  refine (safe_readOwn _ hsound (hnow w (Like.refl w))).bind fun found w' hfound => ?_
  obtain ⟨rfl, rfl⟩ := hfound
  show Safe _ _ _ _ _ _ _ (ite _ _ _) _
  split_ifs with hsame
  · refine safe_pure ?_
    rw [put_of_own hsame]
    exact Like.refl w'
  · exact safe_writeFileAtomically _ _ hsound (hsound.put_requirements name bytes) hnow hholds
      (hsound.requirements name)

theorem safe_checkRoot (paths : Paths) (hsound : Sound sha256 requests link w)
    (hnow : ∀ root, now { w with root := root })
    (hready : calm → startsWith paths.root ['/'] = true ∧ ∀ info, w.root = some info →
      info.leadsToDirectory = true ∧ info.isDirectory = true ∧ info.ours = true ∧
        info.openToOthers = false) :
    Safe sha256 requests link lock calm now
      (fun _ w' => (∃ root, w' = { w with root := root }) ∧
        ∃ info, w'.root = some info ∧ info.leadsToDirectory = true)
      (checkRoot paths) w := by
  have hsame : now w := hnow w.root
  refine (safe_refuseIf (q := fun _ w' => w' = w) hsame (fun h => by simp [(hready h).1])
    fun _ => rfl).bind fun _ w₁ hw₁ => ?_
  subst hw₁
  -- The directory is there afterwards, whether it was made or found.
  refine Safe.bind (m := fun _ w' => (∃ root, w' = { w₁ with root := root }) ∧
    ∃ info, w'.root = some info ∧ info.leadsToDirectory = true ∧
      (calm → info.isDirectory = true ∧ info.ours = true ∧ info.openToOthers = false))
    ?_ fun _ w₂ hw₂ => ?_
  · refine safe_call (fun hcalm => ?_) (fun w' hraised => ?_) fun _ w' hacts => ?_
    · cases hroot : w₁.root with
      | none => exact ⟨_, _, .mkdirRoot hroot⟩
      | some info => exact ⟨_, _, .foundRoot hroot ((hready hcalm).2 info hroot).1⟩
    · cases hraised
      exact ⟨hsound, hsame⟩
    · cases hacts.1 with
      | mkdirRoot h =>
        exact ⟨hsound.congr rfl rfl rfl rfl rfl, ⟨_, rfl⟩, _, rfl, rfl, fun _ => ⟨rfl, rfl, rfl⟩⟩
      | foundRoot h hdir =>
        exact ⟨hsound, ⟨w₁.root, rfl⟩, _, h, hdir, fun hcalm => ((hready hcalm).2 _ h).2⟩
  · obtain ⟨⟨root, rfl⟩, info, hroot, hdir, hcalm⟩ := hw₂
    have hsound₂ : Sound sha256 requests link { w₁ with root := root } :=
      hsound.congr rfl rfl rfl rfl rfl
    have hlooks : Looks { w₁ with root := root } .lstatRoot info := by
      refine ⟨.lstatRoot hroot, fun _ h => by cases h; rfl, fun v w' hdoes => ?_⟩
      cases hdoes with
      | lstatRoot h => exact ⟨Option.some.inj (h.symm.trans hroot), rfl⟩
    refine safe_look_bind hlooks hsound₂ (hnow root) ?_
    refine safe_refuseIf (hnow root) (fun h => ?_) fun _ => ⟨⟨root, rfl⟩, info, hroot, hdir⟩
    obtain ⟨hisdir, hours, hopen⟩ := hcalm h
    rw [hisdir, hours, hopen]
    rfl

section Environments

variable {name : Str}

def IsFingerprint (name : Str) : Prop := ∀ c ∈ name, isHexDigit c = true

theorem isLineBreak_of_isHexDigit {c : Char} (h : isHexDigit c = true) :
    isLineBreak c = false := by
  have hrange : 48 ≤ c.toNat ∧ c.toNat ≤ 102 := by
    rw [isHexDigit, Bool.or_eq_true, Bool.and_eq_true, decide_eq_true_eq, decide_eq_true_eq] at h
    rcases h with hdigit | ⟨hlow, hhigh⟩
    · have hdigits := toNat_of_isDigit hdigit
      omega
    · exact ⟨Nat.le_trans (by decide) (UInt32.le_iff_toNat_le.mp hlow),
        UInt32.le_iff_toNat_le.mp hhigh⟩
  simp [isLineBreak]
  omega

theorem readText_markerText (h : IsFingerprint name) :
    (utf8Decode (markerText name)).map universalNewlines = some (name ++ ['\n']) := by
  rw [markerText, utf8Decode_encode, Option.map_some, universalNewlines_append fun c hc => ?_]
  · rfl
  · exact isLineBreak_of_isHexDigit (h c hc)

theorem safe_isMarked (hname : IsFingerprint name) (hsound : Sound sha256 requests link w)
    (hnow : now w) :
    Safe sha256 requests link lock calm now
      (fun marked w' => w' = w ∧ if marked then Marked w name else w.files (.marker name) = .absent)
      (isMarked name) w := by
  refine (safe_readOwn _ hsound hnow).bind fun found w' hfound => ?_
  obtain ⟨rfl, rfl⟩ := hfound
  rcases hsound.marker name with habsent | hmarked
  · rw [habsent]
    exact ⟨rfl, by simp⟩
  · have htext := readText_markerText hname
    have hnode : w'.files (.marker name) = .file (markerText name) := hmarked
    rw [hnode]
    obtain ⟨text, hdecode, hreads⟩ := Option.map_eq_some_iff.mp htext
    simp only [Node.own, hdecode, hreads, beq_self_eq_true]
    exact ⟨rfl, hmarked⟩

variable (sha256 requests link) in
/-- What holds while an environment without a marker is built. -/
structure Building (name : Str) (bytes : Bytes) (w₀ w : World) : Prop where
  sound : Sound sha256 requests link w
  requirements : w.files (.requirements name) = .file bytes
  marker : w.files (.marker name) = .absent
  link : w.link = w₀.link
  linkParent : w.linkParent = w₀.linkParent
  newLinks : w.newLinks = w₀.newLinks

variable {python : Str} {bytes : Bytes} {w₀ : World}

theorem Building.command {w' : World} {run : CommandRun} {node : VenvNode}
    (h : Building sha256 requests link name bytes w₀ w)
    (hcommand : ∀ other, other ≠ name → run.command ≠ .pip other)
    (hnode : Leaves (w.venvs name) node) (hfiles : w'.files = w.files)
    (hvenvs : w'.venvs = Function.update w.venvs name node) (hnew : w'.newLinks = w.newLinks)
    (hran : w'.ran = w.ran ++ [run]) (hlink : w'.link = w.link)
    (hparent : w'.linkParent = w.linkParent) :
    Building sha256 requests link name bytes w₀ w' where
  sound := h.sound.command h.marker hcommand hnode hfiles hvenvs hnew hran hlink
  requirements := by rw [hfiles, h.requirements]
  marker := by rw [hfiles, h.marker]
  link := hlink.trans h.link
  linkParent := hparent.trans h.linkParent
  newLinks := hnew.trans h.newLinks

theorem safe_runVenv (clear : Bool) (hbuild : Building sha256 requests link name bytes w₀ w) :
    Safe sha256 requests link lock calm (fun w' => w'.link = w₀.link)
      (fun status w' => Building sha256 requests link name bytes w₀ w' ∧
        (calm → status = (0 : Int) ∧ ∃ env, w'.venvs name = .directory env ∧ env.pip = true))
      (call (.run (.venv python name clear))) w := by
  have hplain := hbuild.sound.venv name
  refine safe_call (fun _ => ?_) (fun w' hraised => ?_) fun status w' hacts => ?_
  · have hleaves : Leaves (w.venvs name) (.directory ⟨true, false⟩) := by
      rw [Leaves, if_pos hplain]
      rfl
    exact ⟨(0 : Int), _, .runVenv hleaves (Or.inl rfl) (Finset.Subset.refl _)⟩
  · cases hraised
    exact ⟨hbuild.sound, hbuild.link⟩
  · obtain ⟨hdoes, hcalm⟩ := hacts
    cases hdoes with
    | runVenv hnode hmarker htemps =>
      rename_i marker temps
      -- There was no marker, so clearing takes none away.
      have hsame : marker = w.files (.marker name) := by
        rcases hmarker with habsent | hsame
        · rw [habsent, hbuild.marker]
        · exact hsame
      have hfiles : Function.update w.files (.marker name) marker = w.files := by
        rw [hsame, Function.update_eq_self]
      rename_i node
      have hafter : Building sha256 requests link name bytes w₀
          { w with
            venvs := Function.update w.venvs name node
            files := Function.update w.files (.marker name) marker
            temps := temps
            ran := w.ran ++ [⟨.venv python name clear, none, status⟩] } :=
        hbuild.command (by simp) hnode hfiles rfl rfl rfl rfl rfl
      exact ⟨hafter.sound, hafter, fun h => ((hcalm h).2 hplain).imp_left Option.some.inj⟩

theorem safe_runPip (hbuild : Building sha256 requests link name bytes w₀ w)
    (henv : calm → ∃ env, w.venvs name = .directory env) :
    Safe sha256 requests link lock calm (fun w' => w'.link = w₀.link)
      (fun status w' => Building sha256 requests link name bytes w₀ w' ∧
        lastPip w' name = some (some bytes, status) ∧
        (calm → status = (0 : Int) ∧ ∃ env, w'.venvs name = .directory env ∧ env.playbook = true))
      (call (.run (.pip name))) w := by
  have hread : (w.files (.requirements name)).data = some bytes := by
    rw [hbuild.requirements]
    rfl
  refine safe_call (fun _ => ?_) (fun w' hraised => ?_) fun status w' hacts => ?_
  · have hleaves : Leaves (w.venvs name) (.directory ⟨true, true⟩) := by
      rw [Leaves, if_pos (hbuild.sound.venv name)]
      rfl
    exact ⟨(0 : Int), _, .runPip hleaves⟩
  · cases hraised
    exact ⟨hbuild.sound, hbuild.link⟩
  · obtain ⟨hdoes, hcalm⟩ := hacts
    cases hdoes with
    | runPip hnode =>
      rename_i node
      have hafter : Building sha256 requests link name bytes w₀
          { w with
            venvs := Function.update w.venvs name node
            ran := w.ran ++ [⟨.pip name, (w.files (.requirements name)).data, status⟩] } :=
        hbuild.command (by simp [eq_comm]) hnode rfl rfl rfl rfl rfl rfl
      refine ⟨hafter.sound, hafter, ?_, fun h => ?_⟩
      · exact hread ▸ lastPip_of_pip rfl
      · exact ((hcalm h).2 (henv h)).imp_left Option.some.inj

theorem safe_refuseLinked (there : Bool) (hsound : Sound sha256 requests link w) (hnow : now w) :
    Safe sha256 requests link lock calm now (fun _ w' => w' = w) (refuseLinked name there) w := by
  have hplain : (w.venvs name).isSymlink = false := by
    have h := hsound.venv name
    cases hnode : w.venvs name with
    | symlink leadsTo =>
      rw [hnode] at h
      cases h
    | _ => rfl
  cases there with
  | false => exact rfl
  | true =>
    refine safe_look_bind looks_venvIsSymlink hsound hnow ?_
    rw [hplain]
    exact rfl

theorem safe_refuseStatus {status : Int} {reason : Reason} {q : Unit → World → Prop}
    (hnow : now w) (hcalm : calm → status = 0) (hok : status = 0 → q () w) :
    Safe sha256 requests link lock calm now q (refuseIf (status != 0) reason) w :=
  safe_refuseIf hnow (fun h => by simp [hcalm h]) fun h => hok (by simpa using h)

theorem safe_makeVenv (hbuild : Building sha256 requests link name bytes w₀ w) :
    Safe sha256 requests link lock calm (fun w' => w'.link = w₀.link)
      (fun _ w' => Building sha256 requests link name bytes w₀ w' ∧
        (calm → ∃ env, w'.venvs name = .directory env))
      (makeVenv python name) w := by
  refine safe_look_bind looks_venvExists hbuild.sound hbuild.link ?_
  refine (safe_refuseLinked _ hbuild.sound hbuild.link).bind fun _ w₁ hw₁ => ?_
  subst hw₁
  refine (safe_runVenv _ hbuild).bind fun status w₂ hw₂ => ?_
  obtain ⟨hbuild₂, hcalm⟩ := hw₂
  refine safe_refuseStatus hbuild₂.link (fun h => (hcalm h).1) fun _ => ⟨hbuild₂, fun h => ?_⟩
  obtain ⟨env, henv, _⟩ := (hcalm h).2
  exact ⟨env, henv⟩

theorem safe_ensurePip (hbuild : Building sha256 requests link name bytes w₀ w) :
    Safe sha256 requests link lock calm (fun w' => w'.link = w₀.link)
      (fun _ w' => Building sha256 requests link name bytes w₀ w' ∧
        (calm → ∃ env, w'.venvs name = .directory env))
      (ensurePip python name) w := by
  refine safe_look_bind looks_pipExecutable hbuild.sound hbuild.link ?_
  cases hpip : (w.venvs name).contents.any (·.pip) with
  | false => exact safe_makeVenv hbuild
  | true =>
    refine ⟨hbuild, fun _ => ?_⟩
    have hplain := hbuild.sound.venv name
    cases hnode : w.venvs name with
    | directory env => exact ⟨env, rfl⟩
    | absent => simp [hnode, VenvNode.contents] at hpip
    | file => simp [hnode, VenvNode.contents] at hpip
    | symlink leadsTo => simp [hnode, VenvNode.plain] at hplain

theorem safe_buildEnvironment (hverified : Verified sha256 requests bytes name)
    (hbuild : Building sha256 requests link name bytes w₀ w) :
    Safe sha256 requests link lock calm (fun w' => w'.link = w₀.link)
      (fun _ w' => Sound sha256 requests link w' ∧ Marked w' name ∧ w'.link = w₀.link ∧
        w'.linkParent = w₀.linkParent ∧ w'.newLinks = w₀.newLinks)
      (buildEnvironment python name) w := by
  refine safe_look_bind looks_pipEnvironment hbuild.sound hbuild.link ?_
  refine (safe_ensurePip hbuild).bind fun _ w₁ hw₁ => ?_
  obtain ⟨hbuild₁, henv⟩ := hw₁
  refine (safe_runPip hbuild₁ henv).bind fun status w₂ hw₂ => ?_
  obtain ⟨hbuild₂, hlast, hcalm⟩ := hw₂
  refine (safe_refuseStatus (q := fun _ w' => w' = w₂ ∧ status = (0 : Int)) hbuild₂.link
    (fun h => (hcalm h).1) fun h => ⟨rfl, h⟩).bind fun _ w₃ hw₃ => ?_
  obtain ⟨rfl, rfl⟩ := hw₃
  refine safe_look_bind looks_playbookExecutable hbuild₂.sound hbuild₂.link ?_
  refine (safe_refuseIf (q := fun _ w' => w' = w₃) hbuild₂.link (fun h => ?_)
    fun _ => rfl).bind fun _ w₄ hw₄ => ?_
  · obtain ⟨_, env, henv₃, hplaybook⟩ := hcalm h
    rw [henv₃]
    simp [VenvNode.contents, hplaybook]
  · subst hw₄
    have hearned : Earned sha256 requests w₄ name := ⟨bytes, hlast, hverified⟩
    have hlink : ∀ w', Like w₄ w' → w'.link = w₀.link := by
      rintro w' ⟨_, _, rfl⟩
      exact hbuild₂.link
    have hholds : calm → w₄.Holds (.marker name) := by
      intro h
      obtain ⟨_, env, henv₃, _⟩ := hcalm h
      rw [World.Holds, henv₃]
      rfl
    have hdone := hbuild₂.sound.put_marker hearned
    refine (safe_writeFileAtomically _ _ hbuild₂.sound hdone hlink hholds
      (by simp [hbuild₂.marker])).mono fun _ w' hlike => ?_
    have hsound := hlike.sound hdone
    obtain ⟨_, _, rfl⟩ := hlike
    exact ⟨hsound, put_self _, hbuild₂.link, hbuild₂.linkParent, hbuild₂.newLinks⟩

theorem safe_installEnvironment (hname : IsFingerprint name)
    (hverified : Verified sha256 requests bytes name) (hsound : Sound sha256 requests link w)
    (hbytes : w.files (.requirements name) = .file bytes) :
    Safe sha256 requests link lock calm (fun w' => w'.link = w.link)
      (fun installed w' => Sound sha256 requests link w' ∧ Marked w' name ∧ w'.link = w.link ∧
        w'.linkParent = w.linkParent ∧ w'.newLinks = w.newLinks ∧
        (Marked w name → installed = false ∧ w'.ran = w.ran))
      (installEnvironment python name) w := by
  have hlook : Safe sha256 requests link lock calm (fun w' => w'.link = w.link)
      (fun marked w' => w' = w ∧ if marked then Marked w name else w.files (.marker name) = .absent)
      (isMarked name) w := safe_isMarked hname hsound rfl
  refine hlook.bind fun marked w₁ hw₁ => ?_
  obtain ⟨rfl, hmarked⟩ := hw₁
  cases marked with
  | true =>
    have hm : Marked w₁ name := by simpa using hmarked
    exact ⟨hsound, hm, rfl, rfl, rfl, fun _ => ⟨rfl, rfl⟩⟩
  | false =>
    have habsent : w₁.files (.marker name) = .absent := by simpa using hmarked
    refine (safe_buildEnvironment hverified ⟨hsound, hbytes, habsent, rfl, rfl, rfl⟩).bind
      fun _ w₂ hw₂ => ?_
    obtain ⟨hsound₂, hm, hlink, hparent, hnew⟩ := hw₂
    refine ⟨hsound₂, hm, hlink, hparent, hnew, fun h => ?_⟩
    rw [Marked, habsent] at h
    cases h

end Environments

section Link

variable {name : Str} {l : LinkNode}

theorem safe_refuseDirectory (hsound : Sound sha256 requests link w) (hlink : w.link = l)
    (hready : calm → w.link ≠ .directory) :
    Safe sha256 requests link lock calm (fun w' => w'.link = l)
      (fun _ w' => w' = w ∧ w.link ≠ .directory) refuseDirectory w := by
  refine Safe.bind (m := fun directory w' => w' = w ∧
    (w.link.isSymlink = false → (directory = true ↔ w.link = .directory))) ?_ ?_
  · refine safe_call (fun _ => ?_) (fun w' hraised => ?_) fun directory w' hacts => ?_
    · by_cases h : w.link = .directory
      · exact ⟨true, _, .linkIsDirectory fun _ => iff_of_true rfl h⟩
      · exact ⟨false, _, .linkIsDirectory fun _ => iff_of_false (by simp) h⟩
    · cases hraised
      exact ⟨hsound, hlink⟩
    · cases hacts.1 with
      | linkIsDirectory h => exact ⟨hsound, rfl, h⟩
  · rintro directory w₁ ⟨rfl, hdirectory⟩
    cases directory with
    | false =>
      refine ⟨rfl, fun h => ?_⟩
      have hplain : w₁.link.isSymlink = false := by
        rw [h]
        rfl
      exact absurd ((hdirectory hplain).mpr h) (by simp)
    | true =>
      refine safe_look_bind looks_linkIsSymlink hsound hlink ?_
      refine safe_refuseIf hlink (fun h => ?_) fun h => ⟨rfl, ?_⟩
      · cases hsymlink : w₁.link.isSymlink with
        | true => rfl
        | false => exact absurd ((hdirectory hsymlink).mp rfl) (hready h)
      · intro hdir
        rw [hdir] at h
        cases h

theorem safe_unlinkNewLink (pid : Nat) (hsound : Sound sha256 requests link w)
    (hlink : w.link = l) :
    Safe sha256 requests link lock calm (fun w' => w'.link = l)
      (fun _ w' => Sound sha256 requests link w' ∧
        w' = { w with newLinks := Function.update w.newLinks pid .absent })
      (call (.unlinkNewLink pid)) w := by
  have hafter := hsound.setNewLink .absent pid nofun
  refine safe_call (fun _ => ⟨_, _, .unlinkNewLink (hsound.newLink pid)⟩) (fun w' hraised => ?_)
    fun _ w' hacts => ?_
  · cases hraised
    exact ⟨hsound, hlink⟩
  · cases hacts.1
    exact ⟨hafter, hafter, rfl⟩

theorem safe_pointLink (paths : Paths) (pid : Nat) (hsound : Sound sha256 requests link w)
    (hlink : w.link = l) (hmarked : Marked w name)
    (hready : calm → startsWith paths.link ['/'] = true ∧ w.linkParent = true ∧
      w.link ≠ .directory) :
    Safe sha256 requests link lock calm (fun w' => w'.link = l)
      (fun _ w' => Sound sha256 requests link w' ∧ w'.link = .symlink (.playbook name) ∧
        w'.ran = w.ran)
      (pointLink paths pid name) w := by
  refine (safe_refuseIf (q := fun _ w' => w' = w) hlink (fun h => by simp [(hready h).1])
    fun _ => rfl).bind fun _ w₁ hw₁ => ?_
  subst hw₁
  refine safe_look_bind looks_linkParentIsDirectory hsound hlink ?_
  refine (safe_refuseIf (q := fun _ w' => w' = w₁ ∧ w₁.linkParent = true) hlink
    (fun h => by simp [(hready h).2.1]) fun h => ⟨rfl, by simpa using h⟩).bind fun _ w₂ hw₂ => ?_
  obtain ⟨rfl, hparent⟩ := hw₂
  refine (safe_refuseDirectory hsound hlink fun h => (hready h).2.2).bind fun _ w₃ hw₃ => ?_
  obtain ⟨rfl, hnotdir⟩ := hw₃
  refine (safe_unlinkNewLink pid hsound hlink).bind fun _ w₄ hw₄ => ?_
  obtain ⟨hsound₄, hafter⟩ := hw₄
  refine Safe.bind (m := fun _ w' => Sound sha256 requests link w' ∧
    w' = { w₃ with newLinks := Function.update w₃.newLinks pid (.symlink (.playbook name)) })
    ?_ fun _ w₅ hw₅ => ?_
  · have hsound₅ := hsound.setNewLink (.symlink (.playbook name)) pid nofun
    have hdoes : Does w₄ (.symlinkNewLink pid name) (some ())
        { w₃ with newLinks := Function.update w₃.newLinks pid (.symlink (.playbook name)) } := by
      have h := @Does.symlinkNewLink w₄ pid name ?_ ?_
      · rw [hafter] at h ⊢
        simpa using h
      · rw [hafter]
        exact Function.update_self _ _ _
      · rw [hafter]
        exact hparent
    refine safe_call (fun _ => ⟨_, _, hdoes⟩) (fun w' hraised => ?_) fun _ w' hacts => ?_
    · cases hraised
      exact ⟨hsound₄, by rw [hafter]; exact hlink⟩
    · cases hacts.1
      rw [hafter]
      simp [hsound₅]
  · obtain ⟨hsound₅, rfl⟩ := hw₅
    have hmove : Safe sha256 requests link lock calm
        (fun w' => Sound sha256 requests link w' ∧ w'.link = l)
        (fun _ w' => Sound sha256 requests link w' ∧ w'.link = .symlink (.playbook name) ∧
          w'.ran = w₃.ran)
        (call (.replaceLink pid))
        { w₃ with newLinks := Function.update w₃.newLinks pid (.symlink (.playbook name)) } := by
      refine safe_call (fun _ => ⟨_, _, .replaceLink (by simp) hnotdir⟩) (fun w' hraised => ?_)
        fun _ w' hacts => ?_
      · cases hraised
        exact ⟨hsound₅, hsound₅, hlink⟩
      · cases hacts.1
        have hmoved := (hsound.setLink hmarked).setNewLink .absent pid nofun
        simp only [Function.update_self, Function.update_idem]
        exact ⟨hmoved, hmoved, trivial, trivial⟩
    refine Keeps.resume hmove fun r w₆ hends => ?_
    cases r with
    | ok _ => exact hends
    | error e =>
      obtain ⟨⟨hsound₆, hlink₆⟩, hcalm⟩ := hends
      refine Safe.bind (m := fun _ w' => w'.link = l) ?_ fun _ w' hw' => ⟨hw', hcalm⟩
      refine (safe_unlinkNewLink pid hsound₆ hlink₆).mono fun _ w' hw' => ?_
      rw [hw'.2]
      exact hlink₆

end Link

end SharedInfra.AnsibleRuntime
