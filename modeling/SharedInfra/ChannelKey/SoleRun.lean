import SharedInfra.ChannelKey.SigningKey
import SharedInfra.Effects.Crash

/-!
# A run that has the directory to itself

What each operation of `converge` does on a machine (`Machine.handle`) where no
other run is at work and the host itself does not fail: an operation fails for what
stands in the directory only.  The random source, what a write takes and what opening
a pipe or a socket gives are the machine's.
-/

namespace SharedInfra.ChannelKey

open Python Effects Prog

/-- The operations that change the directory or a file of it, or draw what they would write. -/
def KeyOp.writes : KeyOp → Bool
  | .lstatParent | .lstatDirectory | .openDirectory | .closeDirectory | .listDirectory
  | .statEntry _ | .statDirectory | .openEntry _ | .statFile _ | .readFile _ _
  | .closeFile _ => false
  | _ => true

structure File where
  kind : Kind
  content : Bytes
  nlink : Nat
  uid : Nat
  gid : Nat
  mode : Nat

def File.info (f : File) : Info := ⟨f.kind, f.nlink, f.content.length, f.uid, f.gid, f.mode⟩

/-- The directory's path, the names of the directory and the files they name. -/
structure Place where
  directory : Option Info
  entries : AList fun _ : Str => Nat
  files : Nat → File
  next : Nat
  draws : Nat

namespace Place

variable (w : Place)

def at_ (name : Str) : Option Nat := w.entries.lookup name

def change (n : Nat) (f : File → File) : Place :=
  { w with files := Function.update w.files n (f (w.files n)) }

/-- Change the directory's own attributes. -/
def changeDirectory (f : Info → Info) : Place := { w with directory := w.directory.map f }

/-- Take a name away. -/
def remove (name : Str) : Place := { w with entries := w.entries.erase name }

def name (n : Nat) (name : Str) : Place := { w with entries := w.entries.insert name n }

/-- A new file under a new name. -/
def create (name : Str) (f : File) : Place :=
  { w with
    entries := w.entries.insert name w.next
    files := Function.update w.files w.next f
    next := w.next + 1 }

def draw : Place := { w with draws := w.draws + 1 }

end Place

/-- A machine on which the operations do not fail of themselves. -/
structure Machine where
  parent : Except Errno Info
  owner : Nat × Nat
  masked : Nat → Nat
  opensSpecial : Nat → Bool
  bytes : Nat → Nat → Bytes
  hex : Nat → Nat → Str
  written : Place → Nat → Bytes → Nat
  length_bytes : ∀ draw count, (bytes draw count).length = count
  length_hex : ∀ draw count, (hex draw count).length = 2 * count
  hex_digits : ∀ draw count, (hex draw count).all isHexDigit = true
  written_pos : ∀ w fd data, data ≠ [] → 0 < written w fd data
  written_le : ∀ w fd data, written w fd data ≤ data.length

namespace Machine

variable (m : Machine)

/-- What opening a file for reading without following a link gives. -/
def openFile (w : Place) (n : Nat) : Except Errno Nat :=
  match (w.files n).kind with
  | .regular | .directory => .ok n
  | .link => .error (.other "ELOOP")
  | .special => if m.opensSpecial n then .ok n else .error (.other "ENXIO")

def handle : Handler KeyOp KeyAnswer Place
  | w, .lstatParent => (m.parent, w)
  | w, .lstatDirectory => (if w.directory.isSome then .ok () else .error .enoent, w)
  | w, .makeDirectory mode =>
    if w.directory.isSome then (.error .eexist, w)
    else (.ok (), { w with
      directory := some ⟨.directory, 2, 0, m.owner.1, m.owner.2, m.masked mode⟩ })
  | w, .openDirectory =>
    (match w.directory with
      | none => .error .enoent
      | some info => if info.kind = .directory then .ok () else .error (.other "ENOTDIR"), w)
  | w, .closeDirectory => (.ok (), w)
  | w, .listDirectory => (.ok w.entries.keys, w)
  | w, .statEntry name =>
    (match w.at_ name with
      | none => .error .enoent
      | some n => .ok (w.files n).kind, w)
  | w, .statDirectory =>
    (match w.directory with
      | none => .error .enoent
      | some info => .ok info, w)
  | w, .chownDirectory uid gid =>
    (.ok (), w.changeDirectory fun info => { info with uid := uid, gid := gid })
  | w, .chmodDirectory mode => (.ok (), w.changeDirectory fun info => { info with mode := mode })
  | w, .syncDirectory => (.ok (), w)
  | w, .openEntry name =>
    (match w.at_ name with
      | none => .error .enoent
      | some n => m.openFile w n, w)
  | w, .createEntry name mode =>
    match w.at_ name with
    | some _ => (.error .eexist, w)
    | none => (.ok w.next, w.create name
        ⟨.regular, [], 1, m.owner.1, m.owner.2, m.masked mode⟩)
  | w, .statFile fd => (.ok (w.files fd).info, w)
  | w, .readFile fd limit => (.ok ((w.files fd).content.take limit), w)
  | w, .writeFile fd data =>
    (.ok (m.written w fd data),
      w.change fd fun f => { f with content := f.content ++ data.take (m.written w fd data) })
  | w, .chownFile fd uid gid => (.ok (), w.change fd fun f => { f with uid := uid, gid := gid })
  | w, .chmodFile fd mode => (.ok (), w.change fd fun f => { f with mode := mode })
  | w, .syncFile _ => (.ok (), w)
  | w, .closeFile _ => (.ok (), w)
  | w, .linkEntry source target =>
    match w.at_ source, w.at_ target with
    | none, _ => (.error .enoent, w)
    | some _, some _ => (.error .eexist, w)
    | some n, none =>
      (.ok (), (w.change n fun f => { f with nlink := f.nlink + 1 }).name n target)
  | w, .unlinkEntry name =>
    match w.at_ name with
    | none => (.error .enoent, w)
    | some n =>
      if (w.files n).kind = .directory then (.error (.other "EISDIR"), w)
      else (.ok (), (w.change n fun f => { f with nlink := f.nlink - 1 }).remove name)
  | w, .renameEntry source target =>
    match w.at_ source, w.at_ target with
    | none, _ => (.error .enoent, w)
    | some n, none => (.ok (), (w.remove source).name n target)
    | some n, some old =>
      if old = n then (.ok (), w)
      else if (w.files old).kind = .directory then (.error (.other "EISDIR"), w)
      else (.ok (), ((w.change old fun f => { f with nlink := f.nlink - 1 }).remove
        source).name n target)
  | w, .randomBytes count => (.ok (m.bytes w.draws count), w.draw)
  | w, .randomHex count => (.ok (m.hex w.draws count), w.draw)

end Machine

end SharedInfra.ChannelKey
