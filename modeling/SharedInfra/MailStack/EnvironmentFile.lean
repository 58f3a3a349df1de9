import SharedInfra.Effects.Crash
import SharedInfra.Python.Replace
import SharedInfra.Python.Utf8
import SharedInfra.Mail.DrainToken

/-!
# The environment files of the mail stack

`mx1_stack_envfile.py`: `mint` makes a file with a secret where there is none, and `shim` renders
the shim's file from the contract table and the recorded secret.  Both read a file as text, which
folds its line ends, and write and hash bytes.
-/

namespace SharedInfra.MailStack

open Python Effects Prog Mail

inductive OsError where
  | fileExists
  | fileNotFound
  | undecodable
deriving DecidableEq

/-- The refusals, by what their texts name, and the exceptions that no code here expects. -/
inductive EnvFileError where
  | unpinnedImage
  | malformedTable
  | unknownDigest (digest : Str)
  | badContract (name : Val)
  | malformedCredentials (path : Str) (line : Nat)
  | unreadable (path : Str)
  | badSecret (label path : Str)
  | noEntry (path label : Str)
  | badKey
  | notRegular (path : Str)
  | appeared (path : Str)
  | wrongLines (path key : Str)
  | typeError
  | os (e : OsError)

def fileMode : Nat := 0o600

def secretPlaceholder : Str := "{secret}".toList

def shimImage : Str := "ghcr.io/branchleft/mailgun-shim@".toList

/-- `[0-9a-f]`. -/
def isLowerHex (c : Char) : Bool := c.isDigit || ('a' ≤ c && c ≤ 'f')

/-- The digest of `SHIM_IMAGE_PATTERN`. -/
def imageDigest (image : Str) : Option Str :=
  let digest := image.drop shimImage.length
  let hex := digest.drop 7
  if startsWith image shimImage && startsWith digest "sha256:".toList && hex.length == 64 &&
    hex.all isLowerHex then some digest else none

/-- `line.count(old)`, after the characters of an occurrence that are still to be passed over. -/
def countAfter (old : Str) : Nat → Str → Nat
  | _, [] => 0
  | skip + 1, _ :: rest => countAfter old skip rest
  | 0, c :: rest =>
    if startsWith (c :: rest) old then countAfter old (old.length - 1) rest + 1
    else countAfter old 0 rest

/-- What the module reads of a contract. -/
structure Contract where
  secretLabel : Str
  envLines : List Str

/-- `[line for line in lines if isinstance(line, str)]`, where that is all of them. -/
def textItems : List Val → Option (List Str)
  | [] => some []
  | .string line :: items => (textItems items).map (line :: ·)
  | _ :: _ => none

/-- The contract that an object of the table describes. -/
def readContract (contract : Val) : Option Contract :=
  match contract with
  | .object fields =>
    match Dict.get fields "secret_label".toList, Dict.get fields "env_lines".toList with
    | .string label, .array items =>
      match textItems items with
      | some lines =>
        if label ≠ [] ∧ (lines.map (countAfter secretPlaceholder 0)).sum = 1 then
          some ⟨label, lines⟩ else none
      | none => none
    | _, _ => none
  | _ => none

def contractForImage (image : Str) (table : Dict) : Except EnvFileError Contract :=
  match imageDigest image with
  | none => .error .unpinnedImage
  | some digest =>
    match Dict.get table "contracts".toList, Dict.get table "digests".toList with
    | .object contracts, .object digests =>
      match Dict.get digests digest with
      | .null => .error (.unknownDigest digest)
      | .string name =>
        match readContract (Dict.get contracts name) with
        | some contract => .ok contract
        | none => .error (.badContract (.string name))
      | name => if name.hashable then .error (.badContract name) else .error .typeError
    | _, _ => .error .malformedTable

def renderShimEnv (contract : Contract) (secret : Str) : Str :=
  joinWith ['\n'] (contract.envLines.map fun line => replace line secretPlaceholder secret) ++ ['\n']

/-- `find_token`, which reads as `find_credential_secret` of `render_shim_env.py` does. -/
def findToken (credentials label path : Str) : Except EnvFileError (Option Str) :=
  match ShimEnvironment.findCredentialSecret path label credentials with
  | .ok found => .ok found
  | .error (.malformed path line) => .error (.malformedCredentials path line)
  | .error (.emptySecret label path) => .error (.badSecret label path)

/-- `TOKEN_FORBIDDEN`. -/
def isForbidden (c : Char) : Bool := isSpace c || c.toNat < 32 || c.toNat == 127

/-- What `recorded_secret` makes of the credentials file's text. -/
def secretIn (credentials label path : Str) : Except EnvFileError (Option Str) :=
  match findToken credentials label path with
  | .error e => .error e
  | .ok none => .ok none
  | .ok (some token) =>
    if token = [] ∨ token.any isForbidden then .error (.badSecret label path) else .ok (some token)

/-- `KEY_PATTERN`. -/
def isKey (key : Str) : Bool :=
  match key with
  | [] => false
  | c :: rest => c.isUpper && rest.all fun d => d.isUpper || d.isDigit || d == '_'

def validForKey (text key : Str) : Bool :=
  let matching := (splitlines text).filter fun line =>
    decide (strip (line.takeWhile (· != '=')) = key) && line.contains '='
  match matching with
  | [line] => decide (strip ((line.dropWhile (· != '=')).drop 1) ≠ [])
  | _ => false

def alphanumeric : Str :=
  "ABCDEFGHIJKLMNOPQRSTUVWXYZabcdefghijklmnopqrstuvwxyz0123456789".toList

/-- What `new_secret` may return. -/
abbrev Secret : Type := { s : Str // s.length = 48 ∧ ∀ c ∈ s, c ∈ alphanumeric }

def mintText (key : Str) (secret : Secret) : Str := key ++ '=' :: secret.1 ++ ['\n']

section Programs

/-- The operations on the credentials file, the environment file and the temporary beside it. -/
inductive FileOp where
  | credentialsLexists
  | readCredentials
  | lexists
  | isRegular
  | read
  | statMode
  | openExclusive (mode : Nat)
  | write (data : Bytes)
  | fsync
  | mkstemp
  | writeTemporary (data : Bytes)
  | fsyncTemporary
  | chmodTemporary (mode : Nat)
  | replace
  | unlinkTemporary

abbrev Returns : FileOp → Type
  | .credentialsLexists | .lexists | .isRegular => Bool
  | .readCredentials | .read => Str
  | .statMode => Nat
  | _ => Unit

abbrev Ans (op : FileOp) : Type := Except OsError (Returns op)

abbrev Run (α : Type) := Prog FileOp Ans EnvFileError α

def call (op : FileOp) : Run (Returns op) :=
  perform op fun
    | .ok a => pure a
    | .error e => raise (.os e)

def ofExcept {α : Type} (r : Except EnvFileError α) : Run α := done r

def createExclusive (path text : Str) : Run Unit := do
  (call (.openExclusive fileMode)).catchWith fun
    | .os .fileExists => raise (.appeared path)
    | e => raise e
  call (.write (utf8Encode text))
  call .fsync

def replaceAtomic (text : Str) : Run Unit := do
  call .mkstemp
  Prog.catchWith (do
    call (.writeTemporary (utf8Encode text))
    call .fsyncTemporary
    call (.chmodTemporary fileMode)
    call .replace) fun e => do
      (call .unlinkTemporary).catchWith fun
        | .os .fileNotFound => pure ()
        | e' => raise e'
      raise e

def readText (path : Str) : Run (Option Str) := do
  if !(← call .lexists) then pure none
  else if !(← call .isRegular) then raise (.notRegular path)
  else
    let text ← (call .read).catchWith fun _ => raise (.unreadable path)
    pure (some text)

def readCredentials (path : Str) : Run Str := do
  if !(← call .credentialsLexists) then pure []
  else (call .readCredentials).catchWith fun _ => raise (.unreadable path)

def recordedSecret (path label : Str) : Run (Option Str) := do
  let credentials ← readCredentials path
  ofExcept (secretIn credentials label path)

structure MintReport where
  changed : Bool
  created : Bool
  valid : Bool
  sha256 : Str
deriving DecidableEq

structure ShimReport where
  changed : Bool
  sha256 : Str
deriving DecidableEq

/-- What the module is called with for `shim`. -/
structure ShimRequest where
  path : Str
  credentialsPath : Str
  image : Str
  contracts : Dict

variable (sha256 : Bytes → Str)

def sha256Of (text : Str) : Str := sha256 (utf8Encode text)

/-- `mint`, with what the generator would give. -/
def mint (path key : Str) (secret : Secret) (checkMode : Bool) : Run MintReport := do
  if !isKey key then raise .badKey
  else
    match ← readText path with
    | some existing =>
      if validForKey existing key then pure ⟨false, false, true, sha256Of sha256 existing⟩
      else raise (.wrongLines path key)
    | none =>
      if checkMode then pure ⟨true, false, true, []⟩
      else
        createExclusive path (mintText key secret)
        pure ⟨true, true, true, sha256Of sha256 (mintText key secret)⟩

/-- The text that `shim` is to write. -/
def shimText (r : ShimRequest) : Run Str := do
  let contract ← ofExcept (contractForImage r.image r.contracts)
  match ← recordedSecret r.credentialsPath contract.secretLabel with
  | none => raise (.noEntry r.credentialsPath contract.secretLabel)
  | some token => pure (renderShimEnv contract token)

def modeOk (current : Option Str) : Run Bool :=
  if current.isSome then do
    let mode ← call .statMode
    pure (decide (mode % 0o1000 = fileMode))
  else pure false

/-- `if changed and not check_mode`. -/
def replaceWhere (wanted : Bool) (text : Str) : Run Unit :=
  if wanted then replaceAtomic text else pure ()

/-- The rest of `shim`. -/
def placeText (path text : Str) (checkMode : Bool) : Run ShimReport := do
  let current ← readText path
  let closed ← modeOk current
  let changed := decide (current ≠ some text) || !closed
  replaceWhere (changed && !checkMode) text
  pure ⟨changed, sha256Of sha256 text⟩

def shim (r : ShimRequest) (checkMode : Bool) : Run ShimReport := do
  let text ← shimText r
  placeText sha256 r.path text checkMode

end Programs

structure EnvFile where
  regular : Bool
  bytes : Bytes
  mode : Nat
deriving DecidableEq

/-- The file at the path, and the temporaries beside it, the newest first. -/
structure Place where
  file : Option EnvFile
  temporaries : List EnvFile

/-- A text-mode read of bytes. -/
def decoded (bytes : Bytes) : Except OsError Str :=
  match utf8Decode bytes with
  | some text => .ok (universalNewlines text)
  | none => .error .undecodable

def Place.changeTemporary (w : Place) (f : EnvFile → EnvFile) : Place :=
  { w with temporaries := w.temporaries.modifyHead f }

/-- What each operation does on a host that does not fail and where nothing else is at work; the
credentials file holds the given bytes. -/
def handle (credentials : Option Bytes) : Handler FileOp Ans Place
  | w, .credentialsLexists => (.ok credentials.isSome, w)
  | w, .readCredentials => (decoded (credentials.getD []), w)
  | w, .lexists => (.ok w.file.isSome, w)
  | w, .isRegular => (.ok (w.file.any (·.regular)), w)
  | w, .read =>
    match w.file with
    | some f => (decoded f.bytes, w)
    | none => (.error .fileNotFound, w)
  | w, .statMode =>
    match w.file with
    | some f => (.ok f.mode, w)
    | none => (.error .fileNotFound, w)
  | w, .openExclusive mode =>
    match w.file with
    | some _ => (.error .fileExists, w)
    | none => (.ok (), { w with file := some ⟨true, [], mode⟩ })
  | w, .write data => (.ok (), { w with file := w.file.map fun f => { f with bytes := f.bytes ++ data } })
  | w, .fsync => (.ok (), w)
  | w, .mkstemp => (.ok (), { w with temporaries := ⟨true, [], 0o600⟩ :: w.temporaries })
  | w, .writeTemporary data =>
    (.ok (), w.changeTemporary fun f => { f with bytes := f.bytes ++ data })
  | w, .fsyncTemporary => (.ok (), w)
  | w, .chmodTemporary mode => (.ok (), w.changeTemporary fun f => { f with mode := mode })
  | w, .replace =>
    match w.temporaries with
    | f :: rest => (.ok (), ⟨some f, rest⟩)
    | [] => (.error .fileNotFound, w)
  | w, .unlinkTemporary =>
    match w.temporaries with
    | _ :: rest => (.ok (), { w with temporaries := rest })
    | [] => (.error .fileNotFound, w)

end SharedInfra.MailStack
