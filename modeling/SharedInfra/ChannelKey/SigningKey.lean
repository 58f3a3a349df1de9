import SharedInfra.ChannelKey.Ed25519
import SharedInfra.Effects.RelyGuarantee
import SharedInfra.Python.Text

/-!
# Converging the signing key

`converge` of `safety_channel_key.py` as a program over file operations, and what
those operations do to a directory that several runs share.

The file a run opens for reading and the file it creates are named by the inode,
so a name that changes hands later does not change what a descriptor refers to.
-/

namespace SharedInfra.ChannelKey

open Python Effects Prog

inductive Errno where
  | enoent
  | eexist
  | other (name : Str)
deriving DecidableEq

inductive Code where
  | keyOpen | keyType | keyLinks | keySize | keyMode | keyForm
  | parent | dir | foreign | temp | pub
deriving DecidableEq

/-- `RefusalError` with its code and path, and `OSError`. -/
inductive KeyError where
  | refusal (code : Code) (path : Str)
  | os (e : Errno)
deriving DecidableEq

inductive Kind where
  | regular
  | directory
  | link
  | special
deriving DecidableEq

/-- What `stat` tells of a file. -/
structure Info where
  kind : Kind
  nlink : Nat
  size : Nat
  uid : Nat
  gid : Nat
  mode : Nat

/-- The operations of one run, all within the directory but for the first four. -/
inductive KeyOp where
  | lstatParent
  | lstatDirectory
  | makeDirectory (mode : Nat)
  | openDirectory
  | closeDirectory
  | listDirectory
  | statEntry (name : Str)
  | statDirectory
  | chownDirectory (uid gid : Nat)
  | chmodDirectory (mode : Nat)
  | syncDirectory
  | openEntry (name : Str)
  | createEntry (name : Str) (mode : Nat)
  | statFile (fd : Nat)
  | readFile (fd : Nat) (limit : Nat)
  | writeFile (fd : Nat) (data : Bytes)
  | chownFile (fd : Nat) (uid gid : Nat)
  | chmodFile (fd : Nat) (mode : Nat)
  | syncFile (fd : Nat)
  | closeFile (fd : Nat)
  | linkEntry (source target : Str)
  | unlinkEntry (name : Str)
  | renameEntry (source target : Str)
  | randomBytes (count : Nat)
  | randomHex (count : Nat)

/-- What an operation gives when it does not fail. -/
abbrev KeyValue : KeyOp → Type
  | .lstatParent => Info
  | .listDirectory => List Str
  | .statEntry _ => Kind
  | .statDirectory => Info
  | .openEntry _ => Nat
  | .createEntry _ _ => Nat
  | .statFile _ => Info
  | .readFile _ _ => Bytes
  | .writeFile _ _ => Nat
  | .randomBytes _ => Bytes
  | .randomHex _ => Str
  | _ => Unit

abbrev KeyAnswer (op : KeyOp) : Type := Except Errno (KeyValue op)

abbrev KeyProg (α : Type) := Prog KeyOp KeyAnswer KeyError α

/-- An operation whose failure is raised as it is. -/
def sys (op : KeyOp) : KeyProg (KeyValue op) := do
  let answer ← ask op
  done (answer.mapError .os)

/-- `if condition: p`. -/
def onlyIf (condition : Bool) (p : KeyProg Unit) : KeyProg Unit := if condition then p else pure ()

def keyName : Str := "channel-signing.key"
def pubName : Str := "channel-signing.pub"
def keyTempPrefix : Str := ".channel-signing.key.tmp-"
def pubTempPrefix : Str := ".channel-signing.pub.tmp-"
def dirMode : Nat := 0o700
def keyMode : Nat := 0o400
def pubMode : Nat := 0o444
def seedBytes : Nat := 32
def keyTextBytes : Nat := 44
def maxKeyFileBytes : Nat := 64
def maxPubFileBytes : Nat := 256

def isHexDigit (c : Char) : Bool := c.isDigit || (decide ('a' ≤ c) && decide (c ≤ 'f'))

/-- `TEMP_NAME`. -/
def isTempName (name : Str) : Bool :=
  (startsWith name keyTempPrefix || startsWith name pubTempPrefix) &&
    (name.drop keyTempPrefix.length).length == 16 &&
    (name.drop keyTempPrefix.length).all isHexDigit

structure Settings where
  directory : Str
  uid : Nat
  gid : Nat

/-- `os.path.join(settings.directory, name)`. -/
def Settings.join (s : Settings) (name : Str) : Str := s.directory ++ '/' :: name

/-- `os.path.dirname(settings.directory)`. -/
def Settings.parent (s : Settings) : Str :=
  let head := s.directory.rdropWhile (· != '/')
  if head.all (· == '/') then head else head.rdropWhile (· == '/')

structure Result where
  created : Bool
  adopted : Bool
  publicChanged : Bool
  tempCleaned : Nat
  directoryCreated : Bool
  publicKey : Option Bytes
deriving DecidableEq

def Result.new : Result := ⟨false, false, false, 0, false, none⟩

def Result.changed (r : Result) : Bool :=
  r.created || r.adopted || r.publicChanged || decide (0 < r.tempCleaned) || r.directoryCreated

structure KeyFile where
  publicHalf : Bytes
  uid : Nat
  gid : Nat
  mode : Nat

def decodeSeed (data : Bytes) : Option Bytes :=
  if data.length ≠ keyTextBytes then none
  else match b64decode data with
    | none => none
    | some raw => if raw.length ≠ seedBytes ∨ b64encode raw ≠ data then none else some raw

/-- `public_text(public).encode("ascii")`. -/
def publicText (publicHalf : Bytes) : Bytes := b64encode publicHalf ++ [10]

section Converge

variable (sha512 : Bytes → Bytes) (s : Settings) (checkMode : Bool)

def checkParent (rootUid : Nat) : KeyProg Unit := do
  let answer ← ask KeyOp.lstatParent
  match answer with
  | .error _ => raise (.refusal .parent s.parent)
  | .ok info =>
    if info.kind ≠ .directory ∨ info.uid ≠ rootUid ∨ info.mode &&& 0o022 ≠ 0 then
      raise (.refusal .parent s.parent)
    else pure ()

def openDirectory : KeyProg Unit := do
  let answer ← ask KeyOp.openDirectory
  match answer with
  | .error _ => raise (.refusal .dir s.directory)
  | .ok _ => pure ()

/-- `_make_directory`: whether it is open now, and whether it was made. -/
def makeDirectory : KeyProg (Bool × Bool) := do
  let answer ← ask KeyOp.lstatDirectory
  match answer with
  | .error .enoent =>
    if checkMode then pure (false, true)
    else do
      let made ← ask (KeyOp.makeDirectory dirMode)
      match made with
      | .error _ => raise (.refusal .dir s.directory)
      | .ok _ => do
        openDirectory s
        sys (.chownDirectory s.uid s.gid)
        sys (.chmodDirectory dirMode)
        pure (true, true)
  | .error _ => raise (.refusal .dir s.directory)
  | .ok _ => do
    openDirectory s
    pure (true, false)

/-- The loop of `_list_directory`. -/
def collectTemps : List Str → KeyProg (List Str)
  | [] => pure []
  | name :: rest =>
    if name = keyName ∨ name = pubName then collectTemps rest
    else if !isTempName name then raise (.refusal .foreign (s.join name))
    else do
      let kind ← sys (.statEntry name)
      if kind ≠ .regular then raise (.refusal .temp (s.join name))
      else do
        let more ← collectTemps rest
        pure (name :: more)

def listDirectory : KeyProg (List Str) := do
  let names ← sys .listDirectory
  collectTemps s (sorted names)

def judgeKey (fd : Nat) : KeyProg KeyFile := do
  let info ← sys (.statFile fd)
  if info.kind ≠ .regular then raise (.refusal .keyType (s.join keyName))
  else if info.nlink ≠ 1 then raise (.refusal .keyLinks (s.join keyName))
  else if maxKeyFileBytes < info.size then raise (.refusal .keySize (s.join keyName))
  else if info.mode &&& 0o077 ≠ 0 then raise (.refusal .keyMode (s.join keyName))
  else do
    let data ← sys (.readFile fd (maxKeyFileBytes + 1))
    match decodeSeed data with
    | none => raise (.refusal .keyForm (s.join keyName))
    | some seed => pure ⟨derivePublic sha512 seed, info.uid, info.gid, info.mode⟩

def inspectKey : KeyProg (Option (Nat × KeyFile)) := do
  let answer ← ask (KeyOp.openEntry keyName)
  match answer with
  | .error .enoent => pure none
  | .error _ => raise (.refusal .keyOpen (s.join keyName))
  | .ok fd => do
    let key ← (judgeKey sha512 s fd).catchWith fun e => do
      sys (.closeFile fd)
      raise e
    pure (some (fd, key))

/-- The loop of `_write_new_file` over what is left; each write takes at least one byte. -/
def writeAll (fd : Nat) : Nat → Bytes → KeyProg Unit
  | 0, _ => pure ()
  | turns + 1, data =>
    if data.isEmpty then pure ()
    else do
      let count ← sys (.writeFile fd data)
      writeAll fd turns (data.drop count)

def writeNewFile (name : Str) (mode : Nat) (data : Bytes) : KeyProg Unit := do
  let fd ← sys (.createEntry name mode)
  finally_ (do
      sys (.chownFile fd s.uid s.gid)
      sys (.chmodFile fd mode)
      writeAll fd data.length data
      sys (.syncFile fd))
    (sys (.closeFile fd))

def createKey : KeyProg (Option Bytes) := do
  let seed ← sys (.randomBytes seedBytes)
  let hex ← sys (.randomHex 8)
  writeNewFile s (keyTempPrefix ++ hex) keyMode (b64encode seed)
  let linked ← ask (KeyOp.linkEntry (keyTempPrefix ++ hex) keyName)
  match linked with
  | .error .eexist => do
    sys (.unlinkEntry (keyTempPrefix ++ hex))
    pure none
  | .error e => raise (.os e)
  | .ok _ => do
    sys (.unlinkEntry (keyTempPrefix ++ hex))
    pure (some (derivePublic sha512 seed))

def writePublic (publicHalf : Bytes) : KeyProg Unit := do
  let hex ← sys (.randomHex 8)
  writeNewFile s (pubTempPrefix ++ hex) pubMode (publicText publicHalf)
  let renamed ← ask (KeyOp.renameEntry (pubTempPrefix ++ hex) pubName)
  match renamed with
  | .error _ => do
    sys (.unlinkEntry (pubTempPrefix ++ hex))
    raise (.refusal .pub (s.join pubName))
  | .ok _ => pure ()

def publicIsCurrent (publicHalf : Bytes) : KeyProg Bool := do
  let answer ← ask (KeyOp.openEntry pubName)
  match answer with
  | .error _ => pure false
  | .ok fd =>
    finally_ (do
        let info ← sys (.statFile fd)
        if info.kind ≠ .regular then raise (.refusal .pub (s.join pubName))
        else if maxPubFileBytes < info.size then pure false
        else do
          let text ← sys (.readFile fd (maxPubFileBytes + 1))
          pure (decide (info.uid = s.uid ∧ info.gid = s.gid ∧ info.mode = pubMode ∧
            text = publicText publicHalf)))
      (sys (.closeFile fd))

/-- The first changes of `_converge_in_directory`: the directory's owner and mode, and the
leftover temporary files. -/
def tidy (temps : List Str) (result : Result) : KeyProg Result := do
  let info ← sys .statDirectory
  let adopt := decide (info.uid ≠ s.uid ∨ info.gid ≠ s.gid ∨ info.mode ≠ dirMode)
  onlyIf (adopt && !checkMode) do
    sys (.chownDirectory s.uid s.gid)
    sys (.chmodDirectory dirMode)
  onlyIf (!checkMode) (forEach temps fun name => sys (.unlinkEntry name))
  pure { result with adopted := result.adopted || adopt, tempCleaned := temps.length }

/-- The end of `_converge_in_directory`, once the public half is known. -/
def publish (publicHalf : Bytes) (result : Result) : KeyProg Result := do
  let result := { result with publicKey := some (b64encode publicHalf) }
  let current ← publicIsCurrent s publicHalf
  let result := { result with publicChanged := result.publicChanged || !current }
  onlyIf (!current && !checkMode) (writePublic s publicHalf)
  onlyIf (!checkMode && result.changed) (sys .syncDirectory)
  pure result

/-- What `_converge_in_directory` does with a key that it found. -/
def adoptKey (fd : Nat) (key : KeyFile) (result : Result) : KeyProg Result :=
  finally_ (do
      let adopt := decide (key.uid ≠ s.uid ∨ key.gid ≠ s.gid ∨ key.mode ≠ keyMode)
      onlyIf (adopt && !checkMode) do
        sys (.chownFile fd s.uid s.gid)
        sys (.chmodFile fd keyMode)
      publish s checkMode key.publicHalf { result with adopted := result.adopted || adopt })
    (sys (.closeFile fd))

/-- What `_converge_in_directory` does where there was no key. -/
def makeKey (result : Result) : KeyProg Result :=
  if checkMode then pure { result with created := true, publicChanged := true }
  else do
    let made ← createKey sha512 s
    match made with
    | some publicHalf => publish s checkMode publicHalf { result with created := true }
    | none => do
      -- Another run published first; its key stands.
      let found ← inspectKey sha512 s
      match found with
      | none => raise (.refusal .keyOpen (s.join keyName))
      | some (fd, key) => adoptKey s checkMode fd key { result with created := false }

def convergeInDirectory (result : Result) : KeyProg Result := do
  let temps ← listDirectory s
  let found ← inspectKey sha512 s
  match found with
  | none => do
    let result ← tidy s checkMode temps result
    makeKey sha512 s checkMode result
  | some (fd, key) => do
    let result ← (tidy s checkMode temps result).catchWith fun e => do
      sys (.closeFile fd)
      raise e
    adoptKey s checkMode fd key result

def converge (rootUid : Nat) : KeyProg Result := do
  checkParent s rootUid
  let (opened, made) ← makeDirectory s checkMode
  if !opened then
    pure { Result.new with created := true, publicChanged := true, directoryCreated := made }
  else
    finally_ (convergeInDirectory sha512 s checkMode { Result.new with directoryCreated := made })
      (sys .closeDirectory)

end Converge

end SharedInfra.ChannelKey
