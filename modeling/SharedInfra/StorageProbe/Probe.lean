import SharedInfra.StorageProbe.Documents
import SharedInfra.Effects.Succession

/-!
# A run of the storage probe

`preflight`, the probes, `teardown` and `main` of `probe-object-storage.py`.  Every request may
be answered as it should be, with an error status, or not at all, and may then have been
carried out or not (`does`).
-/

namespace SharedInfra.StorageProbe

open Python Effects Prog

def protectedSuffix : Str := "-pulumi-state".toList

def probeKey : Str := "_probe/object-storage-probe.txt".toList

def lifecycleDocument : Str :=
  ("<LifecycleConfiguration xmlns=\"http://s3.amazonaws.com/doc/2006-03-01/\">" ++
    "<Rule><ID>object-storage-probe</ID><Status>Enabled</Status>" ++
    "<Filter><Prefix></Prefix></Filter>" ++
    "<NoncurrentVersionExpiration><NoncurrentDays>30</NoncurrentDays>" ++
    "</NoncurrentVersionExpiration>" ++
    "<AbortIncompleteMultipartUpload><DaysAfterInitiation>10</DaysAfterInitiation>" ++
    "</AbortIncompleteMultipartUpload>" ++
    "</Rule></LifecycleConfiguration>").toList

def publicReadPolicy (bucketName : Str) : Str :=
  ("\x7b\"Version\":\"2012-10-17\",\"Statement\":[\x7b" ++
    "\"Sid\":\"PublicReadProbePrefixOnly\",\"Effect\":\"Allow\",\"Principal\":\"*\"," ++
    "\"Action\":[\"s3:GetObject\"]," ++ "\"Resource\":[\"arn:aws:s3:::").toList ++ bucketName ++
    "/_probe/*\"]\x7d]\x7d".toList

/-- The requests that are made. -/
inductive Request where
  | head
  | getPolicy
  | putPolicy (document : Str)
  | deletePolicy
  | getLifecycle
  | putLifecycle (document : Str)
  | deleteLifecycle
  | listObjects
  | getVersioning
  | putVersioning (status : Versioning)
  | putObject (key content : Str)
  | listVersions (start : Str)
  | deleteVersion (key version : Str)
  | anonymousGet (key : Str)
  | anonymousList

/-- The requests that change the bucket. -/
def Request.changes : Request → Bool
  | .putPolicy _ => true
  | .deletePolicy => true
  | .putLifecycle _ => true
  | .deleteLifecycle => true
  | .putVersioning _ => true
  | .putObject _ _ => true
  | .deleteVersion _ _ => true
  | _ => false

/-- What a request raises: a `ProbeError`, where the transport failed with an `OSError`, or
another exception, as where an answer breaks off. -/
inductive Raised where
  | probeError
  | other
deriving DecidableEq

abbrev Ans (_ : Request) : Type := Except Raised Response

abbrev Run (α : Type) := Prog Request Ans Raised α

def request (r : Request) : Run Response := perform r fun answer => done answer

def isAbsent (r : Response) : Bool :=
  if r.status == 404 then true
  else r.status == 403 && (r.errorCode == some "NoSuchBucketPolicy".toList ||
    r.errorCode == some "NoSuchLifecycleConfiguration".toList)

/-- A document that `PUT` would replace. -/
def refusalOf (present question : String) (r : Response) : List Str :=
  if r.ok then [present.toList]
  else if isAbsent r then []
  else ["could not determine whether ".toList ++ question.toList ++ " exists (".toList ++
    r.describe ++ ")".toList]

def refusalOfListing (r : Response) : List Str :=
  match (if r.ok then countContents r.body else none) with
  | none => ["could not determine whether the bucket is empty (".toList ++ r.describe ++
      ")".toList]
  | some 0 => []
  | some _ => [("the bucket is not empty; this script publishes an anonymous-read grant" ++
      " over _probe/ and should only ever run on a scratch bucket").toList]

def preflight : Run (List Str) := do
  let policy ← request .getPolicy
  let lifecycle ← request .getLifecycle
  let listing ← request .listObjects
  return refusalOf ("the bucket already has a bucket policy, which PUT ?policy would replace" ++
      " wholesale and teardown would then delete") "a bucket policy" policy ++
    refusalOf ("the bucket already has a lifecycle configuration, which PUT ?lifecycle" ++
      " would replace wholesale") "a lifecycle configuration" lifecycle ++
    refusalOfListing listing

inductive Verdict where
  | pass
  | fail
  | unknown
deriving DecidableEq

def verdictOf (b : Bool) : Verdict := if b then .pass else .fail

structure Result where
  name : String
  verdict : Verdict

/-- What the versioning was, if it was read. -/
inductive Original where
  | unknown
  | status (value : Option Str)

def probeReachable : Run Result := do
  let resp ← request .head
  return ⟨"Bucket reachable, credentials valid", verdictOf resp.ok⟩

def readVersioning : Run Original := do
  let resp ← request .getVersioning
  return if resp.ok then .status (versioningStatus resp.body) else .unknown

def setVersioning (status : Versioning) : Run Response := request (.putVersioning status)

def isEnabled : Original → Bool
  | .unknown => false
  | .status value => value == some Versioning.enabled.text

def probeVersioning : Run Result := do
  let put ← setVersioning .enabled
  if put.ok then
    let status ← readVersioning
    return ⟨"Versioning can be enabled", verdictOf (isEnabled status)⟩
  else return ⟨"Versioning can be enabled", .fail⟩

/-- The loop of `probe_versions_retained`: whether every `PUT` was accepted. -/
def putAll : List Str → Run Bool
  | [] => pure true
  | content :: rest => do
    let put ← request (.putObject probeKey content)
    if put.ok then putAll rest else return false

def probeVersionsRetained : Run Result := do
  let accepted ← putAll ["first".toList, "second".toList]
  if accepted then
    let listing ← request (.listVersions probeKey)
    return ⟨"A replaced object retains its previous version",
      verdictOf (countVersions listing.body ≥ 2)⟩
  else return ⟨"A replaced object retains its previous version", .fail⟩

def probeLifecycle : Run Result := do
  let put ← request (.putLifecycle lifecycleDocument)
  if put.ok then
    let answer ← request .getLifecycle
    return ⟨"30-day noncurrent lifecycle is accepted",
      verdictOf (lifecycleNoncurrentDays answer.body == some 30)⟩
  else return ⟨"30-day noncurrent lifecycle is accepted", .fail⟩

def probePublicReadNotListable (bucketName : Str) : Run (List Result) := do
  let put ← request (.putPolicy (publicReadPolicy bucketName))
  if put.ok then
    let anonObject ← request (.anonymousGet probeKey)
    let anonList ← request .anonymousList
    return [⟨"Bucket policy accepted", .pass⟩,
      ⟨"Anonymous object read succeeds", verdictOf (anonObject.status == 200)⟩,
      ⟨"Anonymous bucket listing is refused",
        verdictOf (anonList.status == 401 || anonList.status == 403)⟩]
  else return [⟨"Bucket policy accepted", .fail⟩]

/-- The probes after the first. -/
def furtherProbes (bucketName : Str) (reachable : Result) : Run (List Result) := do
  let versioning ← probeVersioning
  let retained ← probeVersionsRetained
  let lifecycle ← probeLifecycle
  let publicRead ← probePublicReadNotListable bucketName
  return reachable :: versioning :: retained :: lifecycle :: publicRead

def runProbes (bucketName : Str) : Run (List Result) := do
  let reachable ← probeReachable
  if reachable.verdict = .pass then furtherProbes bucketName reachable
  else return [reachable]

/-- The steps of the teardown. -/
inductive Step where
  | removePolicy
  | removeLifecycle
  | listVersions
  | deleteVersion (key version : Str)
  | restoreVersioning (status : Versioning)
  | suspendVersioning
deriving DecidableEq

def Step.text : Step → Str
  | .removePolicy => "removing the public-read bucket policy".toList
  | .removeLifecycle => "removing the lifecycle configuration".toList
  | .listVersions => "listing probe object versions".toList
  | .deleteVersion key version =>
    "deleting ".toList ++ key ++ " version ".toList ++ version
  | .restoreVersioning status => "restoring versioning to ".toList ++ status.text
  | .suspendVersioning => "suspending versioning".toList

/-- The failures that are reported. -/
inductive Failure where
  | incomplete (step : Step)
  | refused (step : Step) (answer : Str)
  | unparsed
  | unknownVersioning
  | teardownRaised
deriving DecidableEq

/-- The lines of the report; what was raised is left out. -/
def Failure.text : Failure → Str
  | .incomplete step => step.text ++ " FAILED to complete -- check and undo by hand".toList
  | .refused step answer =>
    step.text ++ " FAILED (".toList ++ answer ++ ") -- undo by hand".toList
  | .unparsed => "probe object versions could not be parsed -- delete them by hand".toList
  | .unknownVersioning =>
    ("the bucket's original versioning state could not be read, so versioning was" ++
      " left exactly as this run set it (Enabled) -- set it back by hand").toList
  | .teardownRaised => "teardown itself raised -- undo by hand".toList

/-- What `attempt` makes of an outcome: the answer, if there was one, and the failures. -/
def judged (step : Step) : Except Raised Response → Run (Option Response × List Failure)
  | .ok resp => pure (some resp, if resp.ok then [] else [.refused step resp.describe])
  | .error .probeError => pure (none, [.incomplete step])
  | .error .other => raise .other

/-- `attempt`. -/
def attemptStep (step : Step) (r : Request) : Run (Option Response × List Failure) :=
  (request r).resume (judged step)

def deleteVersions : List (Str × Str) → Run (List Failure)
  | [] => pure []
  | (key, version) :: rest => do
    let (_, failures) ← attemptStep (.deleteVersion key version) (.deleteVersion key version)
    let others ← deleteVersions rest
    return failures ++ others

/-- The deletion of what an answer lists. -/
def deleteListed : Option Response → Run (List Failure)
  | none => pure []
  | some listing =>
    if listing.ok then
      match listing.body with
      | none => pure [.unparsed]
      | some root => deleteVersions (listedVersions root)
    else pure []

def originalStatus (value : Option Str) : Option Versioning :=
  if value = some Versioning.enabled.text then some .enabled
  else if value = some Versioning.suspended.text then some .suspended
  else none

/-- The restoring of the versioning; whether the note is due that there is no way back. -/
def restoreVersioning : Original → Run (List Failure × Bool)
  | .unknown => pure ([.unknownVersioning], false)
  | .status value =>
    match originalStatus value with
    | some status => do
      let (_, failures) ← attemptStep (.restoreVersioning status) (.putVersioning status)
      return (failures, false)
    | none => do
      let (resp, failures) ← attemptStep .suspendVersioning (.putVersioning .suspended)
      return (failures, resp.any Response.ok)

/-- `teardown`: the failures, and whether there is an advisory. -/
def teardown (original : Original) : Run (List Failure × Bool) := do
  let (_, policy) ← attemptStep .removePolicy .deletePolicy
  let (_, lifecycle) ← attemptStep .removeLifecycle .deleteLifecycle
  let (listing, listed) ← attemptStep .listVersions (.listVersions probeKey)
  let deleted ← deleteListed listing
  let (restored, advisory) ← restoreVersioning original
  return (policy ++ lifecycle ++ listed ++ deleted ++ restored, advisory)

structure Args where
  bucket : Str
  accessKey : Str
  secretKey : Str

/-- What a run ends with. -/
structure Outcome where
  status : Nat
  refusals : List Str
  results : List Result
  failures : List Failure
  advisory : Bool

def refusedRun (refusals : List Str) : Outcome := ⟨2, refusals, [], [], false⟩

def probeRunUnknown : List Result := [⟨"Probe run", .unknown⟩]

def resultsOf : Except Raised (List Result) → List Result
  | .ok results => results
  | .error _ => probeRunUnknown

def observeBucket (bucketName : Str) : Run (Original × List Result) :=
  readVersioning.resume fun
    | .ok original => (runProbes bucketName).resume fun r => pure (original, resultsOf r)
    | .error _ => pure (.unknown, probeRunUnknown)

def failuresOf : Except Raised (List Failure × Bool) → List Failure × Bool
  | .ok torn => torn
  | .error _ => ([.teardownRaised], false)

def statusOf (results : List Result) (failures : List Failure) : Nat :=
  if results.any (fun r => r.verdict == .fail || r.verdict == .unknown) || !failures.isEmpty then 1
  else 0

/-- The report of a run. -/
def concluded (results : List Result) (torn : List Failure × Bool) : Outcome :=
  ⟨statusOf results torn.1, [], results, torn.1, torn.2⟩

def probeAndTearDown (bucketName : Str) : Run Outcome := do
  let (original, results) ← observeBucket bucketName
  (teardown original).resume fun r => pure (concluded results (failuresOf r))

/-- What follows the pre-flight. -/
def afterPreflight (bucketName : Str) : Except Raised (List Str) → Run Outcome
  | .ok [] => probeAndTearDown bucketName
  | .ok refusals => pure (refusedRun refusals)
  | .error .probeError => pure (refusedRun [])
  | .error .other => raise .other

def main (args : Args) : Run Outcome :=
  if endsWith args.bucket protectedSuffix then pure (refusedRun [])
  else if args.accessKey.isEmpty || args.secretKey.isEmpty then pure (refusedRun [])
  else preflight.resume (afterPreflight args.bucket)

/-- The bucket, and whether an answer has broken off. -/
structure World where
  bucket : Bucket
  broken : Bool

/-- What a request that is carried out does to the bucket. -/
inductive Carried (b : Bucket) : Request → Bucket → Prop where
  | read {r : Request} (h : r.changes = false) : Carried b r b
  | putPolicy (document : Str) : Carried b (.putPolicy document) { b with policy := some document }
  | deletePolicy : Carried b .deletePolicy { b with policy := none }
  | putLifecycle (document : Str) :
      Carried b (.putLifecycle document) { b with lifecycle := some document }
  | deleteLifecycle : Carried b .deleteLifecycle { b with lifecycle := none }
  | putVersioning (status : Versioning) :
      Carried b (.putVersioning status) { b with versioning := some status }
  | putObject (key content id : Str) (hid : id ≠ []) (hnull : id ≠ "null".toList)
      (hfresh : id ∉ b.versions.map Version.id) :
      Carried b (.putObject key content) (b.put key id)
  | deleteVersion (key version : Str) :
      Carried b (.deleteVersion key version) (b.delete key version)

/-- Some of the versions of the keys that start with a text, up to a page of them. -/
def page (b : Bucket) (start : Str) : List Version := (b.versionsUnder start).take 1000

/-- What the answer to a request says of the bucket, if it is no error. -/
def Proper (b : Bucket) (r : Request) (answer : Response) : Prop :=
  match r with
  | .getPolicy => b.policy ≠ none
  | .getLifecycle => b.lifecycle ≠ none
  | .listObjects => answer.body = some (objectsDocument ((b.objects.take 1).map Version.key))
  | .getVersioning => answer.body = some (versioningDocument b.versioning)
  | .listVersions start => answer.body = some (versionsDocument (page b start))
  | _ => True

def does (w : World) (r : Request) (answer : Ans r) (w' : World) : Prop :=
  match answer with
  | .ok resp =>
    if resp.ok then
      Proper w.bucket r resp ∧ ∃ b, Carried w.bucket r b ∧ w' = { w with bucket := b }
    else w' = w ∨ ∃ b, Carried w.bucket r b ∧ w' = { w with bucket := b }
  | .error .probeError => w' = w ∨ ∃ b, Carried w.bucket r b ∧ w' = { w with bucket := b }
  | .error .other => w' = { w with broken := true } ∨
      ∃ b, Carried w.bucket r b ∧ w' = { bucket := b, broken := true }

end SharedInfra.StorageProbe
