import SharedInfra.DeploySlots.Host

/-!
# Granting and revoking a deploy slot

`provision_deploy_slot.py` as a program over the host's filesystem: the register
(`readSlots`), the hardening of the deploy home, and `grant` and `revoke`.

The texts the program prints about what it did are left out; the fingerprint
they carry is not, because taking it can fail.
-/

namespace SharedInfra.DeploySlots

open Python Effects Prog

def slotDir : Str := "/etc/branchleft/deploy-slots"
def slotDirMode : Mode := 0o700
def slotFileMode : Mode := 0o600
def stackDir : Str := "/opt/branchleft"
def deployAccount : Str := "deploy"
def deployHome : Str := "/home/deploy"
def deploySshDir : Str := joinPath deployHome ".ssh"
def authorizedKeys : Str := joinPath deploySshDir "authorized_keys"
def authorizedKeysMode : Mode := 0o640
def deployDirMode : Mode := 0o750

def forbiddenWriteBits : Mode := 0o022

def pubSuffix : Str := ".pub"

/-- `slot_path`, for a stack name that is valid. -/
def slotPath (stack : Str) : Str := joinPath slotDir (stack ++ pubSuffix)

/-- What is unusable about a file of the register is said with its name. -/
def unusable {α : Type} (name : Str) (r : Except Refusal α) : Except Refusal α :=
  r.mapError (.unusableEntry name)

/-- What `read_slots` makes of one file of the register. -/
def readSlot (slots : Slots) (name : Str) : FsProg Refusal Slots :=
  if endsWith name pubSuffix then do
    let stack := removeSuffix name pubSuffix
    orRefuse (unusable name (validateStackName stack))
    let text ← Fs.readText (joinPath slotDir name)
    let key ← orRefuse (unusable name (normalisePublicKey text))
    return slots.insert stack key
  else raise (.refused (.notPub name))

/-- The loop of `read_slots`. -/
def readSlotsFrom : List Str → Slots → FsProg Refusal Slots
  | [], slots => pure slots
  | name :: rest, slots => do
    let slots ← readSlot slots name
    readSlotsFrom rest slots

def readSlots : FsProg Refusal Slots := do
  let names ← Fs.listdir slotDir
  readSlotsFrom (names.mergeSort (· ≤ ·)) ∅

def existingStacks : FsProg Refusal (List Str) := Fs.listdir stackDir

/-- `fs.exists` for a path `harden_deploy_paths` needs. -/
def needPath (path : Str) : FsProg Refusal Unit := do
  let found ← Fs.pathExists path
  if found then pure () else raise (.refused (.noDeployPath path))

/-- `fs.account_gid`. -/
def accountGid (account : Str) : FsProg Refusal Nat :=
  Fs.accountGid account >>= fun
    | some gid => pure gid
    | none => raise (.refused (.noAccount account))

def hardenDirectory (gid : Nat) (path : Str) : FsProg Refusal Unit := do
  Fs.chown path 0 gid
  Fs.chmod path deployDirMode

/-- Take one path under the deploy home to root. -/
def hardenPath (gid : Nat) (path : Str) : FsProg Refusal Unit := do
  Fs.chown path 0 gid
  let isLink ← Fs.isSymlink path
  if isLink then pure ()
  else
    let (_, _, mode) ← Fs.ownerMode path
    if mode &&& forbiddenWriteBits ≠ 0 then
      Fs.chmod path (mode &&& ~~~forbiddenWriteBits)
    else pure ()

def hardenDeployPaths : FsProg Refusal Unit := do
  forEach [deployHome, deploySshDir] needPath
  let gid ← accountGid deployAccount
  forEach [deployHome, deploySshDir] (hardenDirectory gid)
  let paths ← Fs.walk deployHome
  forEach (paths.mergeSort (· ≤ ·)) (hardenPath gid)

/-- Whether `unhardened_paths` has something to say of one path. -/
def isUnhardened (path : Str) : FsProg Refusal Bool := do
  let (uid, _, mode) ← Fs.ownerMode path
  if uid ≠ 0 then pure true
  else if mode &&& forbiddenWriteBits ≠ 0 then
    let isLink ← Fs.isSymlink path
    return !isLink
  else pure false

/-- The loop of `unhardened_paths`. -/
def unhardenedAmong : List Str → FsProg Refusal (List Str)
  | [] => pure []
  | path :: rest => do
    let bad ← isUnhardened path
    let others ← unhardenedAmong rest
    return if bad then path :: others else others

/-- `unhardened_paths`, without what it says of each path. -/
def unhardenedPaths : FsProg Refusal (List Str) := do
  let paths ← Fs.walk deployHome
  unhardenedAmong ((deployHome :: paths).mergeSort (· ≤ ·))

def writeAuthorizedKeys (slots : Slots) : FsProg Refusal Unit := do
  let existing ← Fs.readText authorizedKeys
  let rendered ← orRefuse (renderAuthorizedKeys existing slots)
  let gid ← accountGid deployAccount
  Fs.replaceText authorizedKeys rendered authorizedKeysMode 0 gid

/-- The refusal of a first slot for a stack the host already runs. -/
def checkNewStack (stack : Str) (slots : Slots) (adoptExistingStack : Bool) :
    FsProg Refusal Unit :=
  if stack ∈ slots then pure ()
  else do
    let existing ← existingStacks
    if stack ∈ existing ∧ adoptExistingStack = false then raise (.refused (.stackOnHost stack))
    else pure ()

/-- What `grant` says it did: it names the key, and before it the one it replaces. -/
def reportGranted (previous : Option Str) (publicKey : Str) : Except Refusal Unit :=
  match previous with
  | none => fingerprint publicKey
  | some old =>
    if old = publicKey then fingerprint publicKey
    else do
      fingerprint old
      fingerprint publicKey

def grant (stack publicKeyText : Str) (adoptExistingStack : Bool) : FsProg Refusal Unit := do
  orRefuse (validateStackName stack)
  let publicKey ← orRefuse (normalisePublicKey publicKeyText)
  let slots ← readSlots
  let authorizedText ← Fs.readText authorizedKeys
  orRefuse (reconcile slots authorizedText)
  orRefuse (assertKeyIsUnused stack publicKey slots authorizedText)
  checkNewStack stack slots adoptExistingStack
  hardenDeployPaths
  Fs.makedirs slotDir slotDirMode
  Fs.chown slotDir 0 0
  Fs.chmod slotDir slotDirMode
  Fs.replaceText (slotPath stack) (publicKey ++ ['\n']) slotFileMode 0 0
  orRefuse (reportGranted (slots.lookup stack) publicKey)
  let granted ← readSlots
  writeAuthorizedKeys granted

def revoke (stack : Str) : FsProg Refusal Unit := do
  orRefuse (validateStackName stack)
  let slots ← readSlots
  let authorizedText ← Fs.readText authorizedKeys
  orRefuse (reconcile slots authorizedText)
  if stack ∈ slots then pure () else raise (.refused (.noSlot stack))
  hardenDeployPaths
  Fs.remove (slotPath stack)
  let remaining ← readSlots
  writeAuthorizedKeys remaining

end SharedInfra.DeploySlots
