import SharedInfra.ChannelKey.SigningKey

/-!
# The directory that runs share

What each operation of a run does to the directory and its files (`Does`).  Any
operation may fail, and then it has done nothing.  A listing is not of one moment,
so it may hold any names.

Beside the source's data the world records which run made a file and the
hexadecimal texts that were drawn, by whom.
-/

namespace SharedInfra.ChannelKey

open Python Effects Prog

structure Inode (ι : Type) where
  kind : Kind
  content : Bytes
  nlink : Nat
  uid : Nat
  gid : Nat
  mode : Nat
  maker : Option ι

def Inode.info {ι : Type} (f : Inode ι) : Info :=
  ⟨f.kind, f.nlink, f.content.length, f.uid, f.gid, f.mode⟩

structure KeyWorld (ι : Type) where
  made : Bool
  directory : Info
  entries : Str → Option Nat
  inodes : Nat → Inode ι
  next : Nat
  drawn : List (ι × Str)

namespace KeyWorld

variable {ι : Type} (w : KeyWorld ι)

/-- Change one file. -/
def change (n : Nat) (f : Inode ι → Inode ι) : KeyWorld ι :=
  { w with inodes := Function.update w.inodes n (f (w.inodes n)) }

/-- Take a name away. -/
def remove (name : Str) : KeyWorld ι := { w with entries := Function.update w.entries name none }

def name (n : Nat) (name : Str) : KeyWorld ι :=
  { w with entries := Function.update w.entries name (some n) }

/-- A new empty file. -/
def create (i : ι) (name : Str) (mode : Nat) : KeyWorld ι :=
  { w with
    entries := Function.update w.entries name (some w.next)
    inodes := Function.update w.inodes w.next ⟨.regular, [], 1, 0, 0, mode, some i⟩
    next := w.next + 1 }

end KeyWorld

variable {ι : Type}

/-- What each operation of run `i` may do. -/
inductive Does (i : ι) : KeyWorld ι → (op : KeyOp) → KeyAnswer op → KeyWorld ι → Prop
  | failed {w : KeyWorld ι} {op : KeyOp} {e : Errno} : Does i w op (.error e) w
  | lstatParent {w : KeyWorld ι} {info : Info} : Does i w .lstatParent (.ok info) w
  | lstatDirectory {w : KeyWorld ι} (h : w.made = true) : Does i w .lstatDirectory (.ok ()) w
  | makeDirectory {w : KeyWorld ι} {mode : Nat} (h : w.made = false) :
      Does i w (.makeDirectory mode) (.ok ())
        { w with made := true, directory := ⟨.directory, 2, 0, 0, 0, mode⟩ }
  | openDirectory {w : KeyWorld ι} (h : w.made = true) : Does i w .openDirectory (.ok ()) w
  | closeDirectory {w : KeyWorld ι} : Does i w .closeDirectory (.ok ()) w
  | listed {w : KeyWorld ι} {names : List Str} : Does i w .listDirectory (.ok names) w
  | statEntry {w : KeyWorld ι} {name : Str} {n : Nat} (h : w.entries name = some n) :
      Does i w (.statEntry name) (.ok (w.inodes n).kind) w
  | statDirectory {w : KeyWorld ι} : Does i w .statDirectory (.ok w.directory) w
  | chownDirectory {w : KeyWorld ι} {uid gid : Nat} :
      Does i w (.chownDirectory uid gid) (.ok ())
        { w with directory := { w.directory with uid := uid, gid := gid } }
  | chmodDirectory {w : KeyWorld ι} {mode : Nat} :
      Does i w (.chmodDirectory mode) (.ok ())
        { w with directory := { w.directory with mode := mode } }
  | syncDirectory {w : KeyWorld ι} : Does i w .syncDirectory (.ok ()) w
  | openEntry {w : KeyWorld ι} {name : Str} {n : Nat} (h : w.entries name = some n)
      (hkind : (w.inodes n).kind ≠ .link) : Does i w (.openEntry name) (.ok n) w
  | createEntry {w : KeyWorld ι} {name : Str} {mode : Nat} (h : w.entries name = none) :
      Does i w (.createEntry name mode) (.ok w.next) (w.create i name mode)
  | statFile {w : KeyWorld ι} {fd : Nat} : Does i w (.statFile fd) (.ok (w.inodes fd).info) w
  | readFile {w : KeyWorld ι} {fd limit : Nat} :
      Does i w (.readFile fd limit) (.ok ((w.inodes fd).content.take limit)) w
  | writeFile {w : KeyWorld ι} {fd count : Nat} {data : Bytes} (h : 0 < count)
      (hle : count ≤ data.length) :
      Does i w (.writeFile fd data) (.ok count)
        (w.change fd fun f => { f with content := f.content ++ data.take count })
  | chownFile {w : KeyWorld ι} {fd uid gid : Nat} :
      Does i w (.chownFile fd uid gid) (.ok ())
        (w.change fd fun f => { f with uid := uid, gid := gid })
  | chmodFile {w : KeyWorld ι} {fd mode : Nat} :
      Does i w (.chmodFile fd mode) (.ok ()) (w.change fd fun f => { f with mode := mode })
  | syncFile {w : KeyWorld ι} {fd : Nat} : Does i w (.syncFile fd) (.ok ()) w
  | closeFile {w : KeyWorld ι} {fd : Nat} : Does i w (.closeFile fd) (.ok ()) w
  | linkEntry {w : KeyWorld ι} {source target : Str} {n : Nat} (h : w.entries source = some n)
      (hfree : w.entries target = none) :
      Does i w (.linkEntry source target) (.ok ())
        ((w.change n fun f => { f with nlink := f.nlink + 1 }).name n target)
  | unlinkEntry {w : KeyWorld ι} {name : Str} {n : Nat} (h : w.entries name = some n)
      (hkind : (w.inodes n).kind ≠ .directory) :
      Does i w (.unlinkEntry name) (.ok ())
        ((w.change n fun f => { f with nlink := f.nlink - 1 }).remove name)
  | renamed {w : KeyWorld ι} {source target : Str} {n : Nat} (h : w.entries source = some n)
      (hfree : w.entries target = none) :
      Does i w (.renameEntry source target) (.ok ()) ((w.remove source).name n target)
  | replaced {w : KeyWorld ι} {source target : Str} {n m : Nat} (h : w.entries source = some n)
      (hold : w.entries target = some m) (hne : m ≠ n)
      (hkind : (w.inodes m).kind ≠ .directory) :
      Does i w (.renameEntry source target) (.ok ())
        (((w.change m fun f => { f with nlink := f.nlink - 1 }).remove source).name n target)
  | renameSame {w : KeyWorld ι} {source target : Str} {n : Nat} (h : w.entries source = some n)
      (hold : w.entries target = some n) : Does i w (.renameEntry source target) (.ok ()) w
  | randomBytes {w : KeyWorld ι} {bytes : Bytes} {count : Nat} (h : bytes.length = count) :
      Does i w (.randomBytes count) (.ok bytes) w
  | randomHex {w : KeyWorld ι} {hex : Str} {count : Nat} (h : hex.length = 2 * count)
      (hhex : ∀ c ∈ hex, isHexDigit c = true) :
      Does i w (.randomHex count) (.ok hex) { w with drawn := w.drawn ++ [(i, hex)] }

/-- A run that stops leaves everything as it is. -/
def stopped (_ : ι) (w : KeyWorld ι) : KeyWorld ι := w

end SharedInfra.ChannelKey
