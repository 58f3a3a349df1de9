import SharedInfra.Python.Text
import SharedInfra.Effects.Interleave

/-!
# Deploying a pinned image

`deploy` of `branchleft_deploy.py` as a program: the checks of its arguments and
of the Compose file, the lock of the stack, and the read, write and restart under
it with the rollback.

What the program makes of the Compose file's text is a parameter
(`ComposeChecks`); nothing here depends on it.  The clock enters the lock's loop
as the number of turns until the deadline has passed.
-/

namespace SharedInfra.Deploys

open Python Effects Prog

/-- The messages of `DeployError`, with the values they name, and the exception of a pin file
that is not UTF-8. -/
inductive DeployError where
  | invalidStack (stack : Str)
  | notPinned (image : Str)
  | noComposeFile
  | failsOpen
  | notFromEnv
  | noHealthSignal (services : List Str)
  | lockTimeout (stack : Str)
  | unicodeDecode
  | noPreviousPin (stack image : Str)
  | leftInPlaceUnchecked (stack : Str)
  | leftInPlaceUp (stack image : Str)
  | rollbackFailed (stack previous : Str)
  | rolledBack (stack previous : Str)
deriving DecidableEq

structure ComposeChecks where
  resolvesImageFromEnv : Str → Bool
  hasFailOpenImageReference : Str → Bool
  /-- The services refused and warned about, or `none` where the text cannot be read. -/
  healthSignalGaps : Str → Str → Option (List Str × List Str)

/-- What the pin file holds, as far as a reader of UTF-8 can tell. -/
inductive PinContent where
  | text (s : Str)
  | undecodable (bytes : List UInt8)
deriving DecidableEq

/-- What the program does outside itself, for one stack. -/
inductive DeployOp where
  | composeExists
  | readCompose
  | warn (text : Str)
  | openLock
  | tryLock
  | sleep
  | unlock
  | closeLock
  | readPin
  | writePin (text : Str)
  | unlinkPin
  | restart
  | dockerPs (image : Str)
  | logRollback (image previous : Str)

abbrev DeployAnswer : DeployOp → Type
  | .composeExists => Bool
  | .readCompose => Str
  | .tryLock => Bool
  | .readPin => Option PinContent
  | .restart => Int
  | .dockerPs _ => Int × Str
  | _ => Unit

abbrev DeployProg (α : Type) := Prog DeployOp DeployAnswer DeployError α

/-- `STACK_NAME`. -/
def isStackName : Str → Bool
  | [] => false
  | c :: cs => c.isLower && cs.all (fun c => c.isLower || c.isDigit || c == '-') && cs.length ≤ 31

def isLowerOrDigit (c : Char) : Bool := c.isLower || c.isDigit

/-- `[a-z0-9]+(?:[._-][a-z0-9]+)*`: runs of letters and digits with one separator between. -/
def isPathComponent (s : Str) : Bool :=
  let bare := fun c => if c == '.' || c == '_' || c == '-' then '-' else c
  (splitOnChar '-' (s.map bare)).all fun piece => !piece.isEmpty && piece.all isLowerOrDigit

/-- `[0-9]+`. -/
def isPort (s : Str) : Bool := !s.isEmpty && s.all Char.isDigit

/-- `[A-Za-z0-9_][A-Za-z0-9._-]{0,127}`. -/
def isTag : Str → Bool
  | [] => false
  | c :: cs =>
    (c.isAlphanum || c == '_') &&
      cs.all (fun c => c.isAlphanum || c == '.' || c == '_' || c == '-') && cs.length ≤ 127

/-- The part of a reference before the digest, split at its slashes. -/
def isImagePath : List Str → Bool
  | [] => false
  | [only] =>
    match splitOnChar ':' only with
    | [path] => isPathComponent path
    | [path, tail] => isPathComponent path && (isPort tail || isTag tail)
    | [path, port, tag] => isPathComponent path && isPort port && isTag tag
    | _ => false
  | host :: rest =>
    (match splitOnChar ':' host with
      | [path] => isPathComponent path
      | [path, port] => isPathComponent path && isPort port
      | _ => false) &&
    rest.dropLast.all isPathComponent &&
    (match splitOnChar ':' (rest.getLastD []) with
      | [path] => isPathComponent path
      | [path, tag] => isPathComponent path && isTag tag
      | _ => false)

/-- `IMAGE_REF`. -/
def isImageRef (ref : Str) : Bool :=
  let path := ref.takeWhile (· != '@')
  let digest := ref.drop path.length
  isImagePath (splitOnChar '/' path) && startsWith digest "@sha256:" &&
    (digest.drop 8).length == 64 &&
    (digest.drop 8).all fun c => c.isDigit || (('a' ≤ c) && (c ≤ 'f'))

/-- The value `line.partition("=")` gives after the first `=`, and the key before it. -/
def partitionEq (line : Str) : Str × Str :=
  (line.takeWhile (· != '='), (line.dropWhile (· != '=')).drop 1)

/-- The loop of `read_current_image` over the lines. -/
def imageOfLines : List Str → Option Str
  | [] => none
  | line :: rest =>
    if strip (partitionEq line).1 = "IMAGE" then
      let value := strip (partitionEq line).2
      if value.isEmpty then none else some value
    else imageOfLines rest

/-- `read_current_image` of what a file holds; an absent file has no pin. -/
def currentImage : Option PinContent → Except DeployError (Option Str)
  | none => .ok none
  | some (.text raw) => .ok (imageOfLines (splitlines (universalNewlines raw)))
  | some (.undecodable _) => .error .unicodeDecode

/-- What `write_image_env` puts in the file. -/
def imageEnvText (image : Str) : Str := "IMAGE=".toList ++ image ++ ['\n']

def containerNotUp (status : Str) : Bool :=
  (["Exited", "Restarting", "Created", "Removal"] : List Str).any (startsWith status ·) ||
    decide ("(unhealthy)".toList <:+: status)

/-- `pinned_image_is_up`, from the status and the output of `docker ps`. -/
def pinnedImageIsUp (result : Int × Str) : Option Bool :=
  if result.1 ≠ 0 then none
  else
    let statuses := (splitlines result.2).filter fun line => !(strip line).isEmpty
    if statuses.isEmpty then some false else some (!statuses.any containerNotUp)

section Deploy

variable (checks : ComposeChecks) (stack image : Str)

/-- The loop of `stack_deploy_lock`: `turns` more turns until the deadline has passed. -/
def acquireLock : Nat → DeployProg Unit
  | 0 => do
    let got ← ask DeployOp.tryLock
    if got then pure () else raise (.lockTimeout stack)
  | turns + 1 => do
    let got ← ask DeployOp.tryLock
    if got then pure ()
    else do
      ask DeployOp.sleep
      acquireLock turns

/-- `with stack_deploy_lock(...)`. -/
def withStackLock (turns : Nat) (body : DeployProg Unit) : DeployProg Unit := do
  ask DeployOp.openLock
  finally_ (do
      acquireLock stack turns
      finally_ body (ask DeployOp.unlock))
    (ask DeployOp.closeLock)

/-- The checks `deploy` makes before the lock. -/
def checkCompose : DeployProg Unit := do
  if !isStackName stack then raise (.invalidStack stack)
  else if !isImageRef image then raise (.notPinned image)
  else do
    let found ← ask DeployOp.composeExists
    if !found then raise .noComposeFile
    else do
      let text ← ask DeployOp.readCompose
      if !checks.resolvesImageFromEnv text then
        if checks.hasFailOpenImageReference text then raise .failsOpen else raise .notFromEnv
      else
        match checks.healthSignalGaps stack text with
        | none => ask (DeployOp.warn "could not determine the health signal")
        | some (refused, warned) =>
          if refused.isEmpty then
            forEach warned fun gap => ask (DeployOp.warn gap)
          else raise (.noHealthSignal refused)

/-- The rollback of `deploy`, once the restart failed and there was a pin before. -/
def rollBack (previous : Str) : DeployProg Unit := do
  let listing ← ask (DeployOp.dockerPs image)
  match pinnedImageIsUp listing with
  | none => raise (.leftInPlaceUnchecked stack)
  | some true => raise (.leftInPlaceUp stack image)
  | some false => do
    ask (DeployOp.writePin (imageEnvText previous))
    ask (DeployOp.logRollback image previous)
    let rollback ← ask DeployOp.restart
    if rollback ≠ 0 then raise (.rollbackFailed stack previous)
    else raise (.rolledBack stack previous)

/-- What `deploy` does under the lock. -/
def readWriteRestart : DeployProg Unit := do
  let raw ← ask DeployOp.readPin
  let previous ← done (currentImage raw)
  ask (DeployOp.writePin (imageEnvText image))
  let result ← ask DeployOp.restart
  if result = 0 then pure ()
  else match previous with
    | none => do
      ask DeployOp.unlinkPin
      raise (.noPreviousPin stack image)
    | some previous => rollBack stack image previous

def deploy (turns : Nat) : DeployProg Unit := do
  checkCompose checks stack image
  withStackLock stack turns (readWriteRestart stack image)

end Deploy

section World

/-- A command that ran, with the pin it found or the image it asked for, and its result. -/
inductive Ran where
  | restart (pin : Option PinContent) (status : Int)
  | dockerPs (image : Str) (result : Int × Str)
deriving DecidableEq

/-- The pin file and the lock of one stack, and the commands that ran. -/
structure StackWorld (ι : Type) where
  pin : Option PinContent
  holder : Option ι
  commands : List Ran

variable {ι : Type}

/-- What each operation of a deploy does; commands answer as they please. -/
inductive Does (i : ι) : StackWorld ι → (op : DeployOp) → DeployAnswer op → StackWorld ι → Prop
  | composeExists {w : StackWorld ι} {a : Bool} : Does i w .composeExists a w
  | readCompose {w : StackWorld ι} {a : Str} : Does i w .readCompose a w
  | warn {w : StackWorld ι} {text : Str} : Does i w (.warn text) () w
  | openLock {w : StackWorld ι} : Does i w .openLock () w
  | locked {w : StackWorld ι} (h : w.holder = none) :
      Does i w .tryLock true { w with holder := some i }
  | busy {w : StackWorld ι} (h : w.holder ≠ none) : Does i w .tryLock false w
  | sleep {w : StackWorld ι} : Does i w .sleep () w
  | unlock {w : StackWorld ι} (h : w.holder = some i) :
      Does i w .unlock () { w with holder := none }
  | notLocked {w : StackWorld ι} (h : w.holder ≠ some i) : Does i w .unlock () w
  | closed {w : StackWorld ι} (h : w.holder = some i) :
      Does i w .closeLock () { w with holder := none }
  | close {w : StackWorld ι} (h : w.holder ≠ some i) : Does i w .closeLock () w
  | readPin {w : StackWorld ι} : Does i w .readPin w.pin w
  | writePin {w : StackWorld ι} {text : Str} :
      Does i w (.writePin text) () { w with pin := some (.text text) }
  | unlinkPin {w : StackWorld ι} : Does i w .unlinkPin () { w with pin := none }
  | restart {w : StackWorld ι} {status : Int} :
      Does i w .restart status { w with commands := w.commands ++ [.restart w.pin status] }
  | dockerPs {w : StackWorld ι} {image : Str} {result : Int × Str} :
      Does i w (.dockerPs image) result
        { w with commands := w.commands ++ [.dockerPs image result] }
  | logRollback {w : StackWorld ι} {image previous : Str} :
      Does i w (.logRollback image previous) () w

/-- A process that stops no longer holds the lock. -/
def stopped [DecidableEq ι] (i : ι) (w : StackWorld ι) : StackWorld ι :=
  if w.holder = some i then { w with holder := none } else w

end World

end SharedInfra.Deploys
