import SharedInfra.DeploySlots.SlotLines
import SharedInfra.Effects.Program

/-!
# The host of the deploy slots

The files the slot program works on, with owners and modes, and the filesystem
operations of its `_RealFs` class on them.

A path is absolute and only its last name may be a link: the directories on the
way to a file are directories.  No two paths share a file.
-/

namespace SharedInfra.DeploySlots

open Python Effects

/-- `OSError`, by its code. -/
inductive OsError where
  | notFound
  | notADirectory
  | isADirectory
  | fileExists
  | tooManyLinks
deriving DecidableEq

/-- What is at a path. -/
inductive Body where
  | file (raw : Str)
  | dir
  | link (target : Str)
deriving DecidableEq

/-- The permission bits of a file. -/
abbrev Mode := BitVec 12

/-- What is at a path, with its owner and mode. -/
structure Node where
  body : Body
  uid : Nat
  gid : Nat
  mode : Mode
deriving DecidableEq

/-- The files of a host and the groups of its accounts. -/
structure Host where
  nodes : Finmap fun _ : Str => Node
  accounts : Str → Option Nat

/-- The operations of `_RealFs`. -/
inductive FsOp where
  | pathExists (path : Str)
  | listdir (path : Str)
  | walk (path : Str)
  | isSymlink (path : Str)
  | ownerMode (path : Str)
  | accountGid (account : Str)
  | readText (path : Str)
  | remove (path : Str)
  | makedirs (path : Str) (mode : Mode)
  | chown (path : Str) (uid gid : Nat)
  | chmod (path : Str) (mode : Mode)
  | replaceText (path text : Str) (mode : Mode) (uid gid : Nat)

/-- What an operation answers. -/
abbrev FsAnswer : FsOp → Type
  | .pathExists _ => Bool
  | .listdir _ => Except OsError (List Str)
  | .walk _ => List Str
  | .isSymlink _ => Bool
  | .ownerMode _ => Except OsError (Nat × Nat × Mode)
  | .accountGid _ => Option Nat
  | .readText _ => Except OsError Str
  | .remove _ => Except OsError Unit
  | .makedirs _ _ => Except OsError Unit
  | .chown _ _ _ => Except OsError Unit
  | .chmod _ _ => Except OsError Unit
  | .replaceText _ _ _ _ _ => Except OsError Unit

/-- `os.path.join`. -/
def joinPath (dir name : Str) : Str := dir ++ '/' :: name

/-- `os.path.dirname` of a path below the root. -/
def dirname (path : Str) : Str := (path.rdropWhile (· != '/')).dropLast

/-- The name of a path in a directory, when it stands directly in it. -/
def nameIn (dir path : Str) : Option Str :=
  if startsWith path (dir ++ ['/']) then
    let name := path.drop (dir.length + 1)
    if name.contains '/' || name.isEmpty then none else some name
  else none

def isBelow (dir path : Str) : Bool := startsWith path (dir ++ ['/'])

/-- The directories above a path, the outermost first. -/
def ancestors (path : Str) : List Str :=
  (List.range path.length).filterMap fun i =>
    if 0 < i ∧ path[i]? = some '/' then some (path.take i) else none

namespace Host

variable (h : Host)

/-- The most links that are followed one after the other. -/
def maxLinks : Nat := 40

/-- Follow links to the path and the node where they end. -/
def followFrom : Nat → Str → Except OsError (Str × Node)
  | 0, _ => .error .tooManyLinks
  | fuel + 1, path =>
    match h.nodes.lookup path with
    | none => .error .notFound
    | some node =>
      match node.body with
      | .link target => followFrom fuel target
      | _ => .ok (path, node)

def follow (path : Str) : Except OsError (Str × Node) := h.followFrom maxLinks path

def childNames (dir : Str) : List Str :=
  (sortedSet h.nodes.keys).filterMap (nameIn dir)

def pathsBelow (dir : Str) : List Str := (sortedSet h.nodes.keys).filter fun p => isBelow dir p

/-- Change what is at a path, if anything is. -/
def update (path : Str) (f : Node → Node) : Host :=
  match h.nodes.lookup path with
  | none => h
  | some node => { h with nodes := h.nodes.insert path (f node) }

def put (path : Str) (node : Node) : Host := { h with nodes := h.nodes.insert path node }

def putNew (path : Str) (node : Node) : Host := if path ∈ h.nodes then h else h.put path node

def isDir (path : Str) : Bool := (h.nodes.lookup path).any fun node => node.body = .dir

def listdir (path : Str) : Except OsError (List Str) :=
  match h.nodes.lookup path with
  | none => .ok []
  | some _ => if h.isDir path then .ok (h.childNames path) else .error .notADirectory

def readText (path : Str) : Except OsError Str :=
  match h.follow path with
  | .ok (_, node) =>
    match node.body with
    | .file raw => .ok (universalNewlines raw)
    | _ => .error .isADirectory
  | .error .notFound => .ok []
  | .error e => .error e

def ownerMode (path : Str) : Except OsError (Nat × Nat × Mode) :=
  (h.follow path).map fun found => (found.2.uid, found.2.gid, found.2.mode)

def isLink (path : Str) : Bool :=
  (h.nodes.lookup path).any fun node =>
    match node.body with
    | .link _ => true
    | _ => false

def remove (path : Str) : Except OsError Unit × Host :=
  match h.nodes.lookup path with
  | none => (.error .notFound, h)
  | some _ =>
    if h.isDir path then (.error .isADirectory, h)
    else (.ok (), { h with nodes := h.nodes.erase path })

/-- The mode `os.makedirs` gives the directories above. -/
def parentMode : Mode := 0o755

def makedirs (path : Str) (mode : Mode) : Except OsError Unit × Host :=
  match h.nodes.lookup path with
  | some _ => (if h.isDir path then .ok () else .error .fileExists, h)
  | none =>
    if (ancestors path).all fun dir => !decide (dir ∈ h.nodes) || h.isDir dir then
      let above := (ancestors path).foldl (fun h dir => h.putNew dir ⟨.dir, 0, 0, parentMode⟩) h
      (.ok (), above.put path ⟨.dir, 0, 0, mode⟩)
    else (.error .notADirectory, h)

def chown (path : Str) (uid gid : Nat) : Except OsError Unit × Host :=
  if path ∈ h.nodes then (.ok (), h.update path fun node => { node with uid, gid })
  else (.error .notFound, h)

def chmod (path : Str) (mode : Mode) : Except OsError Unit × Host :=
  match h.follow path with
  | .ok (found, _) => (.ok (), h.update found fun node => { node with mode })
  | .error e => (.error e, h)

def replaceText (path text : Str) (mode : Mode) (uid gid : Nat) : Except OsError Unit × Host :=
  if h.isDir (dirname path) then
    if h.isDir path then (.error .isADirectory, h)
    else (.ok (), h.put path ⟨.file text, uid, gid, mode⟩)
  else (.error .notFound, h)

/-- What each operation answers and does. -/
def handle : Prog.Handler FsOp FsAnswer Host
  | h, .pathExists path => ((h.follow path).isOk, h)
  | h, .listdir path => (h.listdir path, h)
  | h, .walk path => (h.pathsBelow path, h)
  | h, .isSymlink path => (h.isLink path, h)
  | h, .ownerMode path => (h.ownerMode path, h)
  | h, .accountGid account => (h.accounts account, h)
  | h, .readText path => (h.readText path, h)
  | h, .remove path => h.remove path
  | h, .makedirs path mode => h.makedirs path mode
  | h, .chown path uid gid => h.chown path uid gid
  | h, .chmod path mode => h.chmod path mode
  | h, .replaceText path text mode uid gid => h.replaceText path text mode uid gid

end Host

section Operations

open Prog

/-- How a call ends when it does not return: refused for a reason, or with an `OSError`. -/
inductive Failure (ρ : Type) where
  | refused (reason : ρ)
  | os (error : OsError)
deriving DecidableEq

/-- A program over the filesystem whose refusals are `ρ`. -/
abbrev FsProg (ρ α : Type) := Prog FsOp FsAnswer (Failure ρ) α

/-- Perform an operation that may raise an `OSError`. -/
def orRaise {ρ α : Type} (p : FsProg ρ (Except OsError α)) : FsProg ρ α :=
  p >>= fun
    | .ok a => pure a
    | .error e => raise (.os e)

/-- The result of a function that may refuse. -/
def orRefuse {ρ α : Type} (r : Except ρ α) : FsProg ρ α :=
  match r with
  | .ok a => pure a
  | .error reason => raise (.refused reason)

namespace Fs

variable {ρ : Type}

def pathExists (path : Str) : FsProg ρ Bool := ask (FsOp.pathExists path)
def listdir (path : Str) : FsProg ρ (List Str) := orRaise (ask (FsOp.listdir path))
def walk (path : Str) : FsProg ρ (List Str) := ask (FsOp.walk path)
def isSymlink (path : Str) : FsProg ρ Bool := ask (FsOp.isSymlink path)
def ownerMode (path : Str) : FsProg ρ (Nat × Nat × Mode) := orRaise (ask (FsOp.ownerMode path))
def accountGid (account : Str) : FsProg ρ (Option Nat) := ask (FsOp.accountGid account)
def readText (path : Str) : FsProg ρ Str := orRaise (ask (FsOp.readText path))
def remove (path : Str) : FsProg ρ Unit := orRaise (ask (FsOp.remove path))

def makedirs (path : Str) (mode : Mode) : FsProg ρ Unit :=
  orRaise (ask (FsOp.makedirs path mode))

def chown (path : Str) (uid gid : Nat) : FsProg ρ Unit := orRaise (ask (FsOp.chown path uid gid))
def chmod (path : Str) (mode : Mode) : FsProg ρ Unit := orRaise (ask (FsOp.chmod path mode))

def replaceText (path text : Str) (mode : Mode) (uid gid : Nat) : FsProg ρ Unit :=
  orRaise (ask (FsOp.replaceText path text mode uid gid))

end Fs

end Operations

end SharedInfra.DeploySlots
