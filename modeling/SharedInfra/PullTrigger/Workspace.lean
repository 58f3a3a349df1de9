import SharedInfra.Python.Paths

/-!
# The workspace of the pull trigger

The paths under the state directory, the `current` link to the checkout of the
last apply, the sweep of what a run that died left, and `promote`, which makes
a new checkout the current one.  A path is compared as it is written, or as it
is resolved; a resolution is given so many turns, and `none` is one that needs
more.
-/

namespace SharedInfra.PullTrigger

open Python

def maxStateDirLength : Nat := 60

/-- `_absolute`, over the text of the value; `none` is a `ConfigError`. -/
def absolute (text : Str) (longest : Nat) : Option PosixPath :=
  if text.head? ≠ some '/' ∨ (PosixPath.parse text).str ≠ text ∨
      ['.', '.'] ∈ splitOnChar '/' text then none
  else if longest < text.length then none
  else some (PosixPath.parse text)

def workName : Str := ['w', 'o', 'r', 'k']

def scratchName : Str := ['t', 'm', 'p']

def currentName : Str := ['c', 'u', 'r', 'r', 'e', 'n', 't']

/-- `CURRENT_NAME + ".new"`. -/
def pendingName : Str := currentName ++ ['.', 'n', 'e', 'w']

/-- `Workspace`, of which the sweep and the link use these paths. -/
structure Workspace where
  root : PosixPath

namespace Workspace

def work (ws : Workspace) : PosixPath := ws.root.child workName

def scratch (ws : Workspace) : PosixPath := ws.root.child scratchName

def current (ws : Workspace) : PosixPath := ws.root.child currentName

/-- `self.current.is_symlink()`. -/
def isSymlink (turns : Nat) (ws : Workspace) (t : FileTree) : Option Bool := do
  let dir ← resolve turns t ws.root
  match t.node (dir.parts ++ [currentName]) with
  | some (.link _) => some true
  | _ => some false

/-- `self.current.resolve() if self.current.is_symlink() else None`. -/
def linked (turns : Nat) (ws : Workspace) (t : FileTree) : Option (Option PosixPath) := do
  if ← isSymlink turns ws t then
    let target ← resolve turns t ws.current
    some (some target)
  else some none

/-- Remove the directories in a directory, but for those to keep. -/
def clear (t : FileTree) (dir : List Str) (keep : Str → Bool) : FileTree :=
  (t.children dir).foldl
    (fun t name => if keep name then t else t.rmtree (dir ++ [name])) t

/-- `Workspace.sweep`. -/
def sweep (turns : Nat) (ws : Workspace) (t : FileTree) : Option FileTree := do
  let keep ← linked turns ws t
  let work ← resolve turns t ws.work
  let swept := clear t work.parts fun name => decide (some (ws.work.child name) = keep)
  let scratch ← resolve turns swept ws.scratch
  some (clear swept scratch.parts fun _ => false)

/-- `Workspace.is_current`. -/
def isCurrent (turns : Nat) (ws : Workspace) (directory : PosixPath) (t : FileTree) :
    Option Bool := do
  if ← isSymlink turns ws t then
    let target ← resolve turns t ws.current
    let given ← resolve turns t directory
    some (decide (target = given))
  else some false

/-- `Workspace.promote`. -/
def promote (turns : Nat) (ws : Workspace) (directory : PosixPath) (t : FileTree) :
    Option FileTree := do
  let previous ← linked turns ws t
  let root ← resolve turns t ws.root
  let pending := root.parts ++ [pendingName]
  -- `link.unlink`, `link.symlink_to` and `link.replace`.
  let made := (t.unlink pending).put pending (.link directory.str)
  let made := (made.unlink pending).put (root.parts ++ [currentName]) (.link directory.str)
  match previous with
  | some old =>
    if old ≠ directory ∧ old.parent = ws.work then some (made.rmtree old.parts) else some made
  | none => some made

end Workspace

theorem clean_of_absolute {text : Str} {longest : Nat} {p : PosixPath}
    (h : absolute text longest = some p) : p.Clean := by
  rw [absolute] at h
  split_ifs at h with hbad
  obtain rfl := Option.some.inj h
  simp only [not_or, Decidable.not_not] at hbad
  obtain ⟨hhead, -, hdots⟩ := hbad
  obtain ⟨rest, rfl⟩ := List.head?_eq_some_iff.mp hhead
  exact clean_parse (splitRoot_ne rest) fun hmem => hdots (PosixPath.mem_parse hmem)

end SharedInfra.PullTrigger
