import SharedInfra.ArchiveCheck.Inspection
import SharedInfra.Python.Lines

/-!
# Asking pulumi

`run_pulumi`, `classify_failure`, `assert_scratch_backend`, `verify_archive`,
`check_passphrase_file`, `verdict_exit_code` and `main` of
`verify-archive-passphrase.py`.  What pulumi answers is part of the run: a child process
for each archive, scratch project and command (`Run.pulumi`).
-/

namespace SharedInfra.ArchiveCheck

open Python

inductive Outcome where
  | pass
  | fail
  | archive
  | inconclusive
deriving DecidableEq

def Outcome.exitCode : Outcome → Nat
  | .pass => 0
  | .fail => 1
  | .archive => 3
  | .inconclusive => 4

def severity : List Outcome := [.fail, .archive, .inconclusive, .pass]

/-- A child process: it cannot be started, or it ends with these bytes. -/
inductive Child where
  | notStarted
  | ended (returnCode : Int) (stdout stderr : Bytes)

structure Scratch where
  backendUrl : Str
  project : Str
  stack : Str
  settings : Str

inductive Command where
  | whoami
  | stackInit
  | stackImport
deriving DecidableEq

structure Archive where
  name : PyStr
  /-- The bytes of the file, where reading it is no `OSError`. -/
  file : Option Bytes

structure Run where
  archives : List Archive
  /-- The parser of the arguments refuses an empty list. -/
  nonempty : archives ≠ []
  /-- The bytes of the passphrase file, where reading it is no `OSError`. -/
  passphrase : Option Bytes
  /-- The pulumi binary is found. -/
  found : Bool
  asJson : Bool
  /-- The directory of the scratch backend of an archive. -/
  stateDir : Nat → Str
  pulumi : Nat → Scratch → Command → Child

/-- What the output of a child is read as; `none` is a `UnicodeDecodeError`. -/
def decodeOutput (bytes : Bytes) : Option Str := (utf8Decode bytes).map universalNewlines

def runPulumi (child : Child) (captureStdout : Bool) : Except Raised (Int × Str × Str) :=
  match child with
  | .notStarted => .error .osError
  | .ended returnCode stdout stderr =>
    match decodeOutput stderr with
    | none => .error .unicodeDecodeError
    | some stderr =>
      if captureStdout then
        match decodeOutput stdout with
        | none => .error .unicodeDecodeError
        | some stdout => .ok (returnCode, stdout, stderr)
      else .ok (returnCode, [], stderr)

/-- The letter a letter is compared as under `re.IGNORECASE`. -/
def foldLetter (c : Char) : Char :=
  if c = 'İ' ∨ c = 'ı' then 'i'
  else if c = 'ſ' then 's'
  else if c = '\u212a' then 'k'
  else c.toLower

def mentions (stderr marker : Str) : Bool :=
  (stderr.map foldLetter).tails.any fun rest => marker.isPrefixOf rest

inductive FailureKind where
  | passphrase
  | authentication
  | deployment
  | unknown
deriving DecidableEq

def classifyFailure (stderr : Str) : FailureKind :=
  if mentions stderr "incorrect passphrase" || mentions stderr "failed to decrypt" then .passphrase
  else if mentions stderr "message authentication failed" then .authentication
  else if mentions stderr "could not deserialize deployment" then .deployment
  else .unknown

/-- The backend that `pulumi whoami` names. -/
def resolvedBackend (stdout : Str) : Str :=
  match (splitlines stdout).find? fun line => startsWith line "Backend URL:" with
  | none => []
  | some line => strip (line.drop "Backend URL:".length)

/-- `assert_scratch_backend`; an error of the answer is the text of a `PreflightError`. -/
def assertScratchBackend (child : Child) (backendUrl : Str) :
    Except Raised (Option Str) :=
  match runPulumi child true with
  | .error what => .error what
  | .ok (returnCode, stdout, _) =>
    if returnCode ≠ 0 then .ok (some "\x60pulumi whoami\x60 failed against the scratch backend")
    else if resolvedBackend stdout ≠ backendUrl then
      .ok (some ("pulumi resolved a backend that is not the scratch one: ".toList ++
        if resolvedBackend stdout = [] then "none reported".toList else resolvedBackend stdout))
    else .ok none

section Verify

variable (run : Run) (index : Nat)

/-- The answer to `stack import`. -/
def importOutcome (info : Info) (returnCode : Int) (stderr : Str) : Outcome × Detail :=
  if returnCode = 0 then (.pass, .opens info.resources info.ciphertext)
  else
    match classifyFailure stderr with
    | .passphrase => (.fail, .notDecrypted)
    | .authentication => (.fail, .notAuthenticated)
    | .deployment => (.archive, .notDeserialised)
    | .unknown => (.inconclusive, .importFailed)

/-- The answer to `stack init`, where it is not 0. -/
def initOutcome (stderr : Str) : Outcome × Detail :=
  match classifyFailure stderr with
  | .passphrase | .authentication => (.fail, .saltMismatch)
  | .deployment | .unknown => (.inconclusive, .initFailed)

/-- `verify_archive` in its scratch project. -/
def runStages (info : Info) (scratch : Scratch) : Except Raised (Outcome × Detail) :=
  match assertScratchBackend (run.pulumi index scratch .whoami) scratch.backendUrl with
  | .error what => .error what
  | .ok (some text) => .ok (.inconclusive, .preflight text)
  | .ok none =>
    match runPulumi (run.pulumi index scratch .stackInit) false with
    | .error what => .error what
    | .ok (returnCode, _, stderr) =>
      if returnCode ≠ 0 then .ok (initOutcome stderr)
      else
        match runPulumi (run.pulumi index scratch .stackImport) false with
        | .error what => .error what
        | .ok (returnCode, _, stderr) => .ok (importOutcome info returnCode stderr)

/-- The scratch project of an archive; `none` is a `UnicodeEncodeError`. -/
def scratchOf (info : Info) : Option Scratch := do
  let project ← plainText info.project
  let stack ← plainText info.stack
  let salt ← plainText info.salt
  return ⟨"file://".toList ++ run.stateDir index, project, stack,
    "encryptionsalt: ".toList ++ salt ++ ['\n']⟩

def verifyArchive (info : Info) : Except Raised (Outcome × Detail) :=
  if info.ciphertext = 0 then .ok (.inconclusive, .noCiphertext)
  else
    match scratchOf run index info with
    | none => .error .unicodeEncodeError
    | some scratch => runStages run index info scratch

end Verify

section Main

structure Result where
  name : PyStr
  outcome : Outcome
  detail : Detail

variable (interpreter : Interpreter) (run : Run)

/-- One turn of the loop of `main`. -/
def checkArchive (index : Nat) (archive : Archive) : Except Raised Result :=
  match inspectArchive interpreter archive.file with
  | .error (.archiveError detail) => .ok ⟨archive.name, .archive, detail⟩
  | .error (.raised what) => .error what
  | .ok info =>
    match verifyArchive run index info with
    | .error what => .error what
    | .ok (outcome, detail) => .ok ⟨archive.name, outcome, detail⟩

/-- `check_passphrase_file`: the file is text with something in it. -/
def passphraseSupplied (file : Option Bytes) : Bool :=
  match file.bind utf8Decode with
  | none => false
  | some content => !(strip (universalNewlines content)).isEmpty

def verdictExitCode (outcomes : List Outcome) : Nat :=
  match severity.find? fun outcome => outcomes.contains outcome with
  | some outcome => outcome.exitCode
  | none => 0

/-- A result can be printed; a name or a `kind` that is a text with a surrogate cannot. -/
def Result.printable (result : Result) : Bool :=
  (plainText result.name).isSome &&
    match result.detail with
    | .otherProvider (.string kind) => (plainText kind).isSome
    | _ => true

/-- `main`: the exit code, or the exception it ends in. -/
def main : Except Raised Nat :=
  if !run.found then .ok 2
  else if !passphraseSupplied run.passphrase then .ok 2
  else
    match run.archives.zipIdx.mapM fun archive => checkArchive interpreter run archive.2 archive.1 with
    | .error what => .error what
    | .ok results =>
      if run.asJson || results.all Result.printable then
        .ok (verdictExitCode (results.map Result.outcome))
      else .error .unicodeEncodeError

def exitStatus : Nat :=
  match main interpreter run with
  | .ok code => code
  | .error _ => 1

end Main

end SharedInfra.ArchiveCheck
