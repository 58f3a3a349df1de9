import SharedInfra.Python.Text

/-!
# Slot keys and the lines of `authorized_keys`

The text side of `provision_deploy_slot.py`: what a stack name and a public key
are, the one line a slot has in `authorized_keys`, and the three functions that
work on the file's text (`reconcile`, `assertKeyIsUnused`,
`renderAuthorizedKeys`).  A dictionary of slots is a finite map, so the order in
which a register was read does not matter.
-/

namespace SharedInfra.DeploySlots

open Python

/-- The messages of `ProvisionError`, with the values they name. -/
inductive Refusal where
  | stackName (stack : Str)
  | keyLines (found : Nat)
  | notPublicKey
  | blobTooLong (length : Nat)
  | notBase64
  | unvalidatedKey (key : Str)
  | unexplainedEntry (stack : Str)
  | editedEntry (stack : Str)
  | twoEntries (stack : Str)
  | heldBySlot (other : Str)
  | alreadyInstalled
  | notPub (name : Str)
  | unusableEntry (name : Str) (reason : Refusal)
  | noDeployPath (path : Str)
  | noAccount (account : Str)
  | stackOnHost (stack : Str)
  | noSlot (stack : Str)
deriving DecidableEq

/-- `dict[str, str]` from stack to key. -/
abbrev Slots := Finmap fun _ : Str => Str

/-- `sorted(slots)`. -/
def Slots.stacks (slots : Slots) : List Str := sortedSet slots.keys

/-- `sorted(slots.items())`. -/
def Slots.items (slots : Slots) : List (Str × Str) :=
  slots.stacks.filterMap fun stack => (slots.lookup stack).map fun key => (stack, key)

def isStackStart (c : Char) : Bool := c.isLower

def isStackChar (c : Char) : Bool := c.isLower || c.isDigit || c == '-'

/-- `STACK_NAME`. -/
def isStackName : Str → Bool
  | [] => false
  | c :: cs => isStackStart c && cs.all isStackChar && cs.length ≤ 31

def validateStackName (stack : Str) : Except Refusal Unit :=
  if isStackName stack then pure () else throw (.stackName stack)

def keyTypes : List Str :=
  ["ssh-ed25519", "ssh-rsa", "ecdsa-sha2-nistp256", "ecdsa-sha2-nistp384",
    "ecdsa-sha2-nistp521", "sk-ssh-ed25519@openssh.com", "sk-ecdsa-sha2-nistp256@openssh.com"]

/-- `[A-Za-z0-9+/]`. -/
def isBlobChar (c : Char) : Bool := c.isAlphanum || c == '+' || c == '/'

/-- `[A-Za-z0-9+/]+={0,3}`. -/
def isBlob (b : Str) : Bool :=
  let padding := b.dropWhile isBlobChar
  !(b.takeWhile isBlobChar).isEmpty && padding.all (· == '=') && padding.length ≤ 3

/-- The type and the blob of a text that `PUBLIC_KEY` matches. -/
def matchPublicKey (s : Str) : Option (Str × Str) :=
  match keyTypes.find? fun t => startsWith s (t ++ [' ']) with
  | none => none
  | some t =>
    let rest := s.drop (t.length + 1)
    let blob := rest.takeWhile (· != ' ')
    let comment := rest.dropWhile (· != ' ')
    if isBlob blob && comment.all (fun c => c != '\n' && c != '\r') then some (t, blob)
    else none

def maxKeyBlob : Nat := 4096

/-- `<type> <blob>`. -/
def keyText (key : Str × Str) : Str := key.1 ++ ' ' :: key.2

def normalisePublicKey (text : Str) : Except Refusal Str :=
  match (splitlines text).filter fun line => !(strip line).isEmpty with
  | [line] =>
    match matchPublicKey (strip line) with
    | none => throw .notPublicKey
    | some key =>
      if maxKeyBlob < key.2.length then throw (.blobTooLong key.2.length)
      else pure (keyText key)
  | lines => throw (.keyLines lines.length)

/-- Whether `base64.b64decode(blob, validate=True)` accepts a blob: its last quad is full,
or padded to one. -/
def isBase64 (b : Str) : Bool :=
  let data := (b.takeWhile isBlobChar).length
  let padding := (b.dropWhile isBlobChar).length
  data % 4 == 0 || (data % 4 == 2 && padding == 2) || (data % 4 == 3 && padding == 1)

/-- `public_key.split(" ", 1)[1]`. -/
def blobOf (key : Str) : Str := (key.dropWhile (· != ' ')).tail

/-- `fingerprint`, up to the digest that it prints. -/
def fingerprint (key : Str) : Except Refusal Unit :=
  if isBase64 (blobOf key) then pure () else throw .notBase64

/-- The loop of `key_in_line` over a line's fields. -/
def keyInFields : List Str → Option Str
  | field :: next :: rest =>
    if field ∈ keyTypes ∧ (matchPublicKey (keyText (field, next))).isSome then
      some (keyText (field, next))
    else keyInFields (next :: rest)
  | _ => none

def keyInLine (line : Str) : Option Str := keyInFields (splitWords line)

/-- `SUDO`. -/
def sudoPath : Str := "/usr/bin/sudo"
/-- `WRAPPER`. -/
def wrapperPath : Str := "/usr/local/sbin/branchleft-deploy"

def managedMarker : Str := "branchleft-slot:"

/-- The text of `slot_line`. -/
def slotLineText (stack key : Str) : Str :=
  "restrict,command=\"".toList ++ sudoPath ++ " -n ".toList ++ wrapperPath ++ " --slot ".toList ++ stack ++
    "\" ".toList ++ key ++ ' ' :: managedMarker ++ stack

def slotLine (stack key : Str) : Except Refusal Str := do
  validateStackName stack
  if (matchPublicKey key).isNone then throw (.unvalidatedKey key)
  return slotLineText stack key

def managedSlot (line : Str) : Option Str :=
  match (splitWords line).getLast? with
  | some field =>
    if startsWith field managedMarker then some (field.drop managedMarker.length) else none
  | none => none

def slotLines (slots : Slots) : Except Refusal (List (Str × Str)) :=
  slots.items.mapM fun slot => do return (slot.1, ← slotLine slot.1 slot.2)

/-- The loop of `reconcile`; `seen` holds the stacks whose entry was met. -/
def reconcileFrom (expected : List (Str × Str)) : List Str → List Str → Except Refusal Unit
  | [], _ => pure ()
  | line :: rest, seen =>
    match managedSlot line with
    | none => reconcileFrom expected rest seen
    | some stack =>
      match expected.lookup stack with
      | none => throw (.unexplainedEntry stack)
      | some text =>
        if strip line ≠ text then throw (.editedEntry stack)
        else if stack ∈ seen then throw (.twoEntries stack)
        else reconcileFrom expected rest (stack :: seen)

def reconcile (slots : Slots) (authorizedText : Str) : Except Refusal Unit := do
  let expected ← slotLines slots
  reconcileFrom expected (splitlines authorizedText) []

def assertKeyIsUnused (stack key : Str) (slots : Slots) (authorizedText : Str) :
    Except Refusal Unit := do
  match slots.items.find? fun slot => slot.1 ≠ stack ∧ slot.2 = key with
  | some other =>
    fingerprint key
    throw (.heldBySlot other.1)
  | none => pure ()
  if (splitlines authorizedText).any fun line =>
      (managedSlot line).isNone && decide (keyInLine line = some key) then
    fingerprint key
    throw .alreadyInstalled

/-- `while kept and not kept[-1].strip(): kept.pop()`. -/
def dropTrailingBlank (kept : List Str) : List Str :=
  kept.rdropWhile fun line => (strip line).isEmpty

/-- The lines of a text that no slot owns. -/
def unmanaged (lines : List Str) : List Str := lines.filter fun line => (managedSlot line).isNone

def renderAuthorizedKeys (existing : Str) (slots : Slots) : Except Refusal Str := do
  let kept := dropTrailingBlank (unmanaged (splitlines existing))
  let rendered ← slotLines slots
  return unlines (kept ++ rendered.map Prod.snd)

end SharedInfra.DeploySlots
