import SharedInfra.AnsibleRuntime.LockCheck
import SharedInfra.Effects.Succession

/-!
# The world an install runs in

The environments directory (the copied locks, the virtual environments with their
markers, and the temporary files beside both), the runtime link with the temporary
links beside it, and the calls `install_runtime.py` makes there.  The link lies
outside the environments directory, as both callers of the program place it.

A call either answers or raises.  What `venv` and `pip` leave of an environment,
and their status, is open; neither touches the marker, except that `--clear` may
take it away.  `ran` remembers the commands, with the bytes pip read.
-/

namespace SharedInfra.AnsibleRuntime

open Python Effects

/-- The files of the environments directory that have a name of their own. -/
inductive Place where
  | requirements (name : Str)
  | marker (name : Str)
deriving DecidableEq

/-- What stands at a place; a symbolic link with the content of the file it leads to. -/
inductive Node where
  | absent
  | file (data : Bytes)
  | directory
  | symlink (leadsTo : Option Bytes)

namespace Node

/-- The content `open` finds. -/
def data : Node → Option Bytes
  | file data => some data
  | symlink leadsTo => leadsTo
  | _ => none

/-- `Path.is_file`, which follows a link. -/
def isFile (node : Node) : Bool := node.data.isSome

def isSymlink : Node → Bool
  | symlink _ => true
  | _ => false

end Node

/-- Whether `bin/pip` and `bin/ansible-playbook` are executable. -/
structure Environment where
  pip : Bool
  playbook : Bool

/-- What stands at the path of an environment. -/
inductive VenvNode where
  | absent
  | file
  | directory (env : Environment)
  | symlink (leadsTo : Option Environment)

namespace VenvNode

/-- The environment that paths below this one reach. -/
def contents : VenvNode → Option Environment
  | directory env => some env
  | symlink leadsTo => leadsTo
  | _ => none

def isSymlink : VenvNode → Bool
  | symlink _ => true
  | _ => false

/-- `os.path.lexists`. -/
def lexists : VenvNode → Bool
  | absent => false
  | _ => true

/-- Not a link, and not another file. -/
def plain : VenvNode → Bool
  | absent => true
  | directory _ => true
  | _ => false

end VenvNode

inductive Target where
  | playbook (name : Str)
  | elsewhere

/-- What stands at the link or at a temporary link beside it. -/
inductive LinkNode where
  | absent
  | file
  | directory
  | symlink (target : Target)

def LinkNode.isSymlink : LinkNode → Bool
  | symlink _ => true
  | _ => false

/-- What `os.lstat` and a test that follows links say of the environments directory. -/
structure RootInfo where
  isDirectory : Bool
  leadsToDirectory : Bool
  ours : Bool
  openToOthers : Bool

inductive Command where
  | venv (python name : Str) (clear : Bool)
  | pip (name : Str)
deriving DecidableEq

/-- A command that ran, with the requirements it could read and its status. -/
structure CommandRun where
  command : Command
  read : Option Bytes
  status : Int

structure World where
  root : Option RootInfo
  files : Place → Node
  temps : Finset (Place × Nat)
  written : Place × Nat → Bytes
  venvs : Str → VenvNode
  link : LinkNode
  linkParent : Bool
  newLinks : Nat → LinkNode
  ran : List CommandRun

inductive Op where
  | readLock
  | mkdirRoot
  | lstatRoot
  | isFile (place : Place)
  | isSymlink (place : Place)
  | read (place : Place)
  | mkstemp (place : Place)
  | writeTemp (place : Place) (n : Nat) (data : Bytes)
  | chmodTemp (place : Place) (n : Nat) (mode : Nat)
  | replaceTemp (place : Place) (n : Nat)
  | unlinkTemp (place : Place) (n : Nat)
  | pipEnvironment
  | pipExecutable (name : Str)
  | playbookExecutable (name : Str)
  | venvExists (name : Str)
  | venvIsSymlink (name : Str)
  | run (command : Command)
  | linkParentIsDirectory
  | linkIsDirectory
  | linkIsSymlink
  | unlinkNewLink (pid : Nat)
  | symlinkNewLink (pid : Nat) (name : Str)
  | replaceLink (pid : Nat)

/-- What a call returns. -/
def Val : Op → Type
  | .readLock => Except Reason Bytes
  | .lstatRoot => RootInfo
  | .isFile _ | .isSymlink _ | .pipExecutable _ | .playbookExecutable _ | .venvExists _
  | .venvIsSymlink _ | .linkParentIsDirectory | .linkIsDirectory | .linkIsSymlink => Bool
  | .read _ => Bytes
  | .mkstemp _ => Nat
  | .run _ => Int
  | _ => Unit

/-- The value of a call, or nothing where it raised. -/
abbrev Ans (op : Op) : Type := Option (Val op)

namespace World

/-- The file with this content in place of what stood there. -/
def put (w : World) (place : Place) (data : Bytes) : World :=
  { w with files := Function.update w.files place (.file data) }

/-- The directory a file's temporary goes to is there. -/
def Holds (w : World) : Place → Prop
  | .requirements _ => ∃ info, w.root = some info ∧ info.leadsToDirectory = true
  | .marker name => (w.venvs name).contents.isSome = true

/-- The directory `mkdir` makes. -/
def newRoot : RootInfo := ⟨true, true, true, false⟩

end World

/-- What a command may leave at the path of an environment. -/
def Leaves (node node' : VenvNode) : Prop := if node.plain then node'.plain = true else node' = node

inductive Does (w : World) : (op : Op) → Ans op → World → Prop where
  /-- Any call may raise before it has done anything. -/
  | raised {op : Op} : Does w op none w
  | readLock {found : Except Reason Bytes} : Does w .readLock (some found) w
  | mkdirRoot (h : w.root = none) :
      Does w .mkdirRoot (some ()) { w with root := some World.newRoot }
  | foundRoot {info : RootInfo} (h : w.root = some info) (hdir : info.leadsToDirectory = true) :
      Does w .mkdirRoot (some ()) w
  | lstatRoot {info : RootInfo} (h : w.root = some info) : Does w .lstatRoot (some info) w
  | isFile {place : Place} : Does w (.isFile place) (some (w.files place).isFile) w
  | isSymlink {place : Place} : Does w (.isSymlink place) (some (w.files place).isSymlink) w
  | read {place : Place} {data : Bytes} (h : (w.files place).data = some data) :
      Does w (.read place) (some data) w
  | mkstemp {place : Place} {n : Nat} (hdir : w.Holds place) (hfree : (place, n) ∉ w.temps) :
      Does w (.mkstemp place) (some n)
        { w with
          temps := insert (place, n) w.temps
          written := Function.update w.written (place, n) [] }
  | writeTemp {place : Place} {n : Nat} {data : Bytes} :
      Does w (.writeTemp place n data) (some ())
        { w with written := Function.update w.written (place, n) data }
  /-- A write that raises may have written a part. -/
  | writePart {place : Place} {n : Nat} {data part : Bytes} :
      Does w (.writeTemp place n data) none
        { w with written := Function.update w.written (place, n) part }
  | chmodTemp {place : Place} {n mode : Nat} : Does w (.chmodTemp place n mode) (some ()) w
  | replaceTemp {place : Place} {n : Nat} (h : (place, n) ∈ w.temps)
      (hnode : w.files place ≠ .directory) :
      Does w (.replaceTemp place n) (some ())
        { w.put place (w.written (place, n)) with temps := w.temps.erase (place, n) }
  | unlinkTemp {place : Place} {n : Nat} :
      Does w (.unlinkTemp place n) (some ()) { w with temps := w.temps.erase (place, n) }
  | pipEnvironment : Does w .pipEnvironment (some ()) w
  | pipExecutable {name : Str} :
      Does w (.pipExecutable name) (some ((w.venvs name).contents.any (·.pip))) w
  | playbookExecutable {name : Str} :
      Does w (.playbookExecutable name) (some ((w.venvs name).contents.any (·.playbook))) w
  | venvExists {name : Str} : Does w (.venvExists name) (some (w.venvs name).lexists) w
  | venvIsSymlink {name : Str} : Does w (.venvIsSymlink name) (some (w.venvs name).isSymlink) w
  | runVenv {python name : Str} {clear : Bool} {status : Int} {node : VenvNode} {marker : Node}
      {temps : Finset (Place × Nat)} (hnode : Leaves (w.venvs name) node)
      (hmarker : marker = .absent ∨ marker = w.files (.marker name)) (htemps : temps ⊆ w.temps) :
      Does w (.run (.venv python name clear)) (some status)
        { w with
          venvs := Function.update w.venvs name node
          files := Function.update w.files (.marker name) marker
          temps := temps
          ran := w.ran ++ [⟨.venv python name clear, none, status⟩] }
  | runPip {name : Str} {status : Int} {node : VenvNode} (hnode : Leaves (w.venvs name) node) :
      Does w (.run (.pip name)) (some status)
        { w with
          venvs := Function.update w.venvs name node
          ran := w.ran ++ [⟨.pip name, (w.files (.requirements name)).data, status⟩] }
  | linkParentIsDirectory : Does w .linkParentIsDirectory (some w.linkParent) w
  | linkIsDirectory {answer : Bool}
      (h : w.link.isSymlink = false → (answer = true ↔ w.link = .directory)) :
      Does w .linkIsDirectory (some answer) w
  | linkIsSymlink : Does w .linkIsSymlink (some w.link.isSymlink) w
  | unlinkNewLink {pid : Nat} (h : w.newLinks pid ≠ .directory) :
      Does w (.unlinkNewLink pid) (some ())
        { w with newLinks := Function.update w.newLinks pid .absent }
  | symlinkNewLink {pid : Nat} {name : Str} (h : w.newLinks pid = .absent)
      (hparent : w.linkParent = true) :
      Does w (.symlinkNewLink pid name) (some ())
        { w with newLinks := Function.update w.newLinks pid (.symlink (.playbook name)) }
  | replaceLink {pid : Nat} (h : w.newLinks pid ≠ .absent) (hlink : w.link ≠ .directory) :
      Does w (.replaceLink pid) (some ())
        { w with
          link := w.newLinks pid
          newLinks := Function.update w.newLinks pid .absent }

end SharedInfra.AnsibleRuntime
