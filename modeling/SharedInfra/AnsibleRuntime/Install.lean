import SharedInfra.AnsibleRuntime.InstallSteps
import SharedInfra.Python.Lines

/-!
# The install

`install` of `install_runtime.py` and the functions it calls, over the calls of
`InstallSteps`.  `sha256` is the digest of `hashlib.sha256`.
-/

namespace SharedInfra.AnsibleRuntime

open Python Effects Prog

/-- What an install ends with beside an outcome: a refusal, or any other exception. -/
inductive Failure where
  | refusal (refusal : Refusal)
  | fault

abbrev InstallProg (α : Type) := Prog Op Ans Failure α

structure Paths where
  root : Str
  link : Str

structure Request where
  lockSha256 : Str
  /-- Whether the run was asked to move the link. -/
  link : Bool
  expectFingerprint : Option Str
  python : Str
  pid : Nat

structure Outcome where
  fingerprint : Str
  venv : Str
  installed : Bool
  linked : Bool

section Values

/-- `bytes.hex()`. -/
def hexDigits (data : Bytes) : Str :=
  data.flatMap fun b => [Nat.digitChar (b.toNat / 16), Nat.digitChar (b.toNat % 16)]

variable (sha256 : Bytes → Bytes)

/-- `hashlib.sha256(data).hexdigest()`. -/
def hexdigest (data : Bytes) : Str := hexDigits (sha256 data)

def fingerprint (lock : Bytes) : Except Refusal Str :=
  match utf8Decode lock with
  | none => .error ⟨.lockNotText, []⟩
  | some text => .ok ((hexdigest sha256 (utf8Encode (rstrip text))).take 16)

end Values

/-- `str(root / f"venv-{name}")`. -/
def venvPath (paths : Paths) (name : Str) : Str := paths.root ++ "/venv-".toList ++ name

/-- `f"{name}\n".encode()`. -/
def markerText (name : Str) : Bytes := utf8Encode (name ++ ['\n'])

def call (op : Op) : InstallProg (Val op) := do
  match ← ask op with
  | some value => pure value
  | none => raise .fault

def refuse {α : Type} (reason : Reason) : InstallProg α := raise (.refusal ⟨reason, []⟩)

/-- `if condition: raise Refusal(reason)`. -/
def refuseIf (condition : Bool) (reason : Reason) : InstallProg Unit :=
  if condition then refuse reason else pure ()

def ofExcept {α : Type} : Except Refusal α → InstallProg α
  | .ok a => pure a
  | .error refusal => raise (.refusal refusal)

/-- `read_regular_file`, whose own refusals come with the call. -/
def readRegularFile : InstallProg Bytes := do
  match ← call .readLock with
  | .ok lock => pure lock
  | .error reason => refuse reason

def checkRoot (paths : Paths) : InstallProg Unit := do
  refuseIf (!startsWith paths.root ['/']) .root
  call .mkdirRoot
  let info : RootInfo ← call .lstatRoot
  refuseIf (!info.isDirectory || !info.ours || info.openToOthers) .root

def writeFileAtomically (place : Place) (data : Bytes) : InstallProg Unit := do
  let n ← call (.mkstemp place)
  catchWith (do
    call (.writeTemp place n data)
    call (.chmodTemp place n 0o644)
    call (.replaceTemp place n)) fun e => do
      call (.unlinkTemp place n)
      raise e

def readUnlinked (place : Place) : InstallProg (Option Bytes) := do
  let link : Bool ← call (.isSymlink place)
  if link then pure none
  else do
    let data ← call (.read place)
    pure (some data)

def readOwn (place : Place) : InstallProg (Option Bytes) := do
  let file : Bool ← call (.isFile place)
  if file then readUnlinked place else pure none

def copyLock (name : Str) (lock : Bytes) : InstallProg Unit := do
  let found ← readOwn (.requirements name)
  if found = some lock then pure () else writeFileAtomically (.requirements name) lock

/-- `marker.is_file() and not marker.is_symlink() and marker.read_text() == f"{name}\n"`. -/
def isMarked (name : Str) : InstallProg Bool := do
  match ← readOwn (.marker name) with
  | none => pure false
  | some data =>
    match utf8Decode data with
    | none => raise .fault
    | some text => pure (universalNewlines text == name ++ ['\n'])

def refuseLinked (name : Str) (there : Bool) : InstallProg Unit := do
  if there then do
    let link : Bool ← call (.venvIsSymlink name)
    refuseIf link .venv
  else pure ()

def makeVenv (python name : Str) : InstallProg Unit := do
  let there : Bool ← call (.venvExists name)
  refuseLinked name there
  let status : Int ← call (.run (.venv python name there))
  refuseIf (status != 0) .venv

/-- `if not os.access(pip_path, os.X_OK): ...`. -/
def ensurePip (python name : Str) : InstallProg Unit := do
  let pip : Bool ← call (.pipExecutable name)
  if pip then pure () else makeVenv python name

/-- What `install_environment` does where the marker is absent. -/
def buildEnvironment (python name : Str) : InstallProg Unit := do
  call .pipEnvironment
  ensurePip python name
  let status : Int ← call (.run (.pip name))
  refuseIf (status != 0) .pip
  let playbook : Bool ← call (.playbookExecutable name)
  refuseIf (!playbook) .noEngine
  writeFileAtomically (.marker name) (markerText name)

/-- `install_environment`; the answer is whether it ran. -/
def installEnvironment (python name : Str) : InstallProg Bool := do
  let marked ← isMarked name
  if marked then pure false
  else do
    buildEnvironment python name
    pure true

/-- `if link.is_dir() and not link.is_symlink(): raise Refusal(Reason.LINK)`. -/
def refuseDirectory : InstallProg Unit := do
  let directory : Bool ← call .linkIsDirectory
  if directory then do
    let link : Bool ← call .linkIsSymlink
    refuseIf (!link) .link
  else pure ()

def pointLink (paths : Paths) (pid : Nat) (name : Str) : InstallProg Unit := do
  refuseIf (!startsWith paths.link ['/']) .link
  let parent : Bool ← call .linkParentIsDirectory
  refuseIf (!parent) .link
  refuseDirectory
  call (.unlinkNewLink pid)
  call (.symlinkNewLink pid name)
  catchWith (call (.replaceLink pid)) fun e => do
    call (.unlinkNewLink pid)
    raise e

section Install

variable (sha256 : Bytes → Bytes)

/-- The checks of `install` before it touches the environments directory. -/
def checkLock (request : Request) (lock : Bytes) : Except Refusal Str := do
  if hexdigest sha256 lock ≠ request.lockSha256 then throw ⟨.lockHash, []⟩
  checkLockIsHashed lock
  let name ← fingerprint sha256 lock
  if request.expectFingerprint.any (· ≠ name) then throw ⟨.fingerprint, []⟩
  pure name

/-- `if request.link is not None: point_link(request.link, venv)`. -/
def moveLink (paths : Paths) (request : Request) (name : Str) : InstallProg Unit :=
  if request.link then pointLink paths request.pid name else pure ()

def install (paths : Paths) (request : Request) : InstallProg Outcome := do
  let lock ← readRegularFile
  let name ← ofExcept (checkLock sha256 request lock)
  checkRoot paths
  copyLock name lock
  let installed ← installEnvironment request.python name
  moveLink paths request name
  pure ⟨name, venvPath paths name, installed, request.link⟩

end Install

/-!
# What holds between the calls of an install

`Sound` is the invariant of the environments directory and the link: a marker is
present only where the last run of pip was of a verified lock and succeeded, and
the link is where it was or on an environment with its marker.  `Acts` are the
calls of a run, those of a `calm` one being the calls that fail only where they
cannot do otherwise.
-/

variable (sha256 : Bytes → Bytes) (requests : Set Request)

/-- A lock that some request of the history verifies, with the name it gives. -/
def Verified (lock : Bytes) (name : Str) : Prop :=
  ∃ request ∈ requests, checkLock sha256 request lock = .ok name

def lastPip (w : World) (name : Str) : Option (Option Bytes × Int) :=
  (w.ran.filterMap fun run =>
    if run.command = .pip name then some (run.read, run.status) else none).getLast?

/-- The last run of pip was of the verified bytes of the lock with this name, and succeeded. -/
def Earned (w : World) (name : Str) : Prop :=
  ∃ lock, lastPip w name = some (some lock, 0) ∧ Verified sha256 requests lock name

/-- The marker is present. -/
def Marked (w : World) (name : Str) : Prop := w.files (.marker name) = .file (markerText name)

structure Sound (link : LinkNode) (w : World) : Prop where
  requirements : ∀ name, w.files (.requirements name) ≠ .directory
  marker : ∀ name, w.files (.marker name) = .absent ∨ Marked w name
  venv : ∀ name, (w.venvs name).plain = true
  newLink : ∀ pid, w.newLinks pid ≠ .directory
  earned : ∀ name, Marked w name → Earned sha256 requests w name
  link : w.link = link ∨ ∃ name, w.link = .symlink (.playbook name) ∧ Marked w name

/-- What a run that nothing disturbs is promised: the lock it reads, and that `venv` and `pip`
succeed where there is no other file in their way. -/
def Obliges (lock : Bytes) (w : World) : (op : Op) → Ans op → World → Prop
  | .readLock, a, _ => a = some (.ok lock)
  | .run (.venv _ name _), a, w' => (w.venvs name).plain = true →
      a = some (0 : Int) ∧ ∃ env, w'.venvs name = .directory env ∧ env.pip = true
  | .run (.pip name), a, w' => (∃ env, w.venvs name = .directory env) →
      a = some (0 : Int) ∧ ∃ env, w'.venvs name = .directory env ∧ env.playbook = true
  | _, _, _ => True

/-- What a call may do in a run; in a calm one it raises only where it cannot do otherwise. -/
def Acts (lock : Bytes) (calm : Prop) (w : World) (op : Op) (a : Ans op) (w' : World) : Prop :=
  Does w op a w' ∧ (calm → Fine (fun _ a => a = none) Does w op a ∧ Obliges lock w op a w')

section Steps

variable {sha256 requests} {link : LinkNode} {w w' : World} {name other : Str} {data : Bytes}

theorem Sound.congr (h : Sound sha256 requests link w) (hfiles : w'.files = w.files)
    (hvenvs : w'.venvs = w.venvs) (hnew : w'.newLinks = w.newLinks) (hran : w'.ran = w.ran)
    (hlink : w'.link = w.link) : Sound sha256 requests link w' := by
  obtain ⟨root, files, temps, written, venvs, link', linkParent, newLinks, ran⟩ := w
  obtain ⟨root', files', temps', written', venvs', link'', linkParent', newLinks', ran'⟩ := w'
  cases hfiles
  cases hvenvs
  cases hnew
  cases hran
  cases hlink
  exact ⟨h.requirements, h.marker, h.venv, h.newLink, h.earned, h.link⟩

theorem lastPip_of_other {run : CommandRun} (hrun : run.command ≠ .pip name)
    (hran : w'.ran = w.ran ++ [run]) : lastPip w' name = lastPip w name := by
  rw [lastPip, lastPip, hran, List.filterMap_append]
  simp [hrun]

theorem lastPip_of_pip {read : Option Bytes} {status : Int}
    (hran : w'.ran = w.ran ++ [⟨.pip name, read, status⟩]) :
    lastPip w' name = some (read, status) := by
  rw [lastPip, hran, List.filterMap_append]
  simp

@[simp] theorem put_self (place : Place) : (w.put place data).files place = .file data :=
  Function.update_self _ _ _

theorem put_of_ne {place place' : Place} (h : place' ≠ place) :
    (w.put place data).files place' = w.files place' :=
  Function.update_of_ne h _ _

theorem put_requirements_marker :
    (w.put (.requirements name) data).files (.marker other) = w.files (.marker other) :=
  put_of_ne nofun

theorem marked_put_requirements :
    Marked (w.put (.requirements name) data) other ↔ Marked w other := by
  rw [Marked, put_requirements_marker, Marked]

theorem Sound.put_requirements (h : Sound sha256 requests link w) (name : Str) (data : Bytes) :
    Sound sha256 requests link (w.put (.requirements name) data) where
  requirements other := by
    by_cases hname : other = name
    · rw [hname, put_self]
      exact nofun
    · rw [put_of_ne (by simpa using hname)]
      exact h.requirements other
  marker other := by
    rw [marked_put_requirements, put_requirements_marker]
    exact h.marker other
  venv := h.venv
  newLink := h.newLink
  earned other hmarked := h.earned other (marked_put_requirements.mp hmarked)
  link := by
    rcases h.link with hlink | ⟨other, hlink, hmarked⟩
    · exact Or.inl hlink
    · exact Or.inr ⟨other, hlink, marked_put_requirements.mpr hmarked⟩

theorem marked_put_marker_of_ne (h : other ≠ name) :
    Marked (w.put (.marker name) data) other ↔ Marked w other := by
  rw [Marked, put_of_ne (by simpa using h), Marked]

theorem Sound.put_marker (h : Sound sha256 requests link w)
    (hearned : Earned sha256 requests w name) :
    Sound sha256 requests link (w.put (.marker name) (markerText name)) where
  requirements other := by
    rw [put_of_ne (by simp)]
    exact h.requirements other
  marker other := by
    by_cases hname : other = name
    · exact Or.inr (hname ▸ put_self _)
    · rw [marked_put_marker_of_ne hname, put_of_ne (by simpa using hname)]
      exact h.marker other
  venv := h.venv
  newLink := h.newLink
  earned other hmarked := by
    by_cases hname : other = name
    · exact hname ▸ hearned
    · exact h.earned other ((marked_put_marker_of_ne hname).mp hmarked)
  link := by
    rcases h.link with hlink | ⟨other, hlink, hmarked⟩
    · exact Or.inl hlink
    · by_cases hname : other = name
      · exact Or.inr ⟨name, hname ▸ hlink, put_self _⟩
      · exact Or.inr ⟨other, hlink, (marked_put_marker_of_ne hname).mpr hmarked⟩

/-- A command in an environment without a marker leaves every marker, and pip's last run in every
environment with a marker, as they were. -/
theorem Sound.command {run : CommandRun} {node : VenvNode} (h : Sound sha256 requests link w)
    (habsent : w.files (.marker name) = .absent)
    (hcommand : ∀ other, other ≠ name → run.command ≠ .pip other)
    (hnode : Leaves (w.venvs name) node) (hfiles : w'.files = w.files)
    (hvenvs : w'.venvs = Function.update w.venvs name node) (hnew : w'.newLinks = w.newLinks)
    (hran : w'.ran = w.ran ++ [run]) (hlink : w'.link = w.link) :
    Sound sha256 requests link w' := by
  have hmarked : ∀ other, Marked w' other ↔ Marked w other := by
    intro other
    rw [Marked, hfiles, Marked]
  have hne : ∀ other, Marked w other → other ≠ name := by
    rintro other hother rfl
    rw [Marked, habsent] at hother
    cases hother
  constructor
  · intro other
    rw [hfiles]
    exact h.requirements other
  · intro other
    rw [hmarked, hfiles]
    exact h.marker other
  · intro other
    rw [hvenvs]
    by_cases hname : other = name
    · subst hname
      rw [Function.update_self]
      rwa [Leaves, if_pos (h.venv other)] at hnode
    · rw [Function.update_of_ne hname]
      exact h.venv other
  · intro pid
    rw [hnew]
    exact h.newLink pid
  · intro other hother
    rw [hmarked] at hother
    obtain ⟨lock, hlast, hverified⟩ := h.earned other hother
    exact ⟨lock, (lastPip_of_other (hcommand other (hne other hother)) hran).trans hlast, hverified⟩
  · rw [hlink]
    rcases h.link with hold | ⟨other, hother, hm⟩
    · exact Or.inl hold
    · exact Or.inr ⟨other, hother, (hmarked other).mpr hm⟩

theorem Sound.setNewLink (h : Sound sha256 requests link w) (node : LinkNode) (pid : Nat)
    (hnode : node ≠ .directory) :
    Sound sha256 requests link { w with newLinks := Function.update w.newLinks pid node } where
  requirements := h.requirements
  marker := h.marker
  venv := h.venv
  newLink other := by
    by_cases hpid : other = pid
    · subst hpid
      simpa using hnode
    · simpa [hpid] using h.newLink other
  earned := h.earned
  link := h.link

theorem Sound.setLink (h : Sound sha256 requests link w) (hmarked : Marked w name) :
    Sound sha256 requests link { w with link := .symlink (.playbook name) } where
  requirements := h.requirements
  marker := h.marker
  venv := h.venv
  newLink := h.newLink
  earned := h.earned
  link := Or.inr ⟨name, rfl, hmarked⟩

end Steps

end SharedInfra.AnsibleRuntime
