import SharedInfra.Effects.Moves
import SharedInfra.Python.Integers
import SharedInfra.Python.Replace
import SharedInfra.Python.Values
import SharedInfra.Sequences.Pattern

/-!
# The audit of secrets providers

`audit-pulumi-secrets.py`: the reader of the configuration files, the findings on the stacks and
the provider-selection sites of an inventory, and the scans of the trees.  The inventory is any JSON
value, and what its shape makes the program raise is in the model.
-/

namespace SharedInfra.SecretsAudit

open Python
open Sequences (Pattern)

def bom : Char := Char.ofNat 0xfeff

/-- `str.strip("'\"")`. -/
def stripQuotes (s : Str) : Str :=
  (s.dropWhile fun c => c == '\'' || c == '"').rdropWhile fun c => c == '\'' || c == '"'

/-- What opens a folded or a literal scalar. -/
def blockOpeners : List Str := [">".toList, "|".toList, ">-".toList, "|-".toList]

/-- The key and the value that one line adds. -/
def readScalar (line : Str) : Option (Str × Str) :=
  if line = [] ∨ line.head?.any isSpace ∨ startsWith (lstrip line) "#".toList then none
  else
    match line.dropWhile (· ≠ ':') with
    | [] => none
    | _ :: rest =>
      let value := strip rest
      if value = [] ∨ value ∈ blockOpeners then none
      else some (stripQuotes (strip (line.takeWhile (· ≠ ':'))), stripQuotes value)

def dropBom (text : Str) : Str := if text.head? = some bom then text.tail else text

/-- The pairs in the order of the lines. -/
def readTopLevelScalars (text : Str) : List (Str × Str) :=
  (splitlines (dropBom text)).filterMap readScalar

/-- `scalars.get(key)` of the dict built from the pairs. -/
def scalar (found : List (Str × Str)) (key : Str) : Option Str := found.reverse.lookup key

inductive Kind where
  | gcpkms
  | passphrase
  | absent
  | unknown
deriving DecidableEq

def Kind.word : Kind → Str
  | .gcpkms => "gcpkms".toList
  | .passphrase => "passphrase".toList
  | .absent => "absent".toList
  | .unknown => "unknown".toList

def classifySecretsProvider (configText : Str) : Kind × Option Str :=
  let scalars := readTopLevelScalars configText
  match scalar scalars "encryptedkey".toList with
  | some key => (.gcpkms, some ((scalar scalars "secretsprovider".toList).getD key))
  | none =>
    match scalar scalars "secretsprovider".toList with
    | none =>
      match scalar scalars "encryptionsalt".toList with
      | some salt => (.passphrase, some salt)
      | none => (.absent, none)
    | some provider =>
      if startsWith provider "gcpkms://".toList then (.gcpkms, some provider)
      else if provider = "passphrase".toList then
        (.passphrase, scalar scalars "encryptionsalt".toList)
      else (.unknown, some provider)

/-- What ends a run: the exceptions of the interpreter, and `UnreadableFilesError`. -/
inductive Raised where
  | attributeError
  | keyError
  | typeError
  | osError
  | unicodeError
  | unreadableFiles (paths : List Str)
deriving DecidableEq

/-- `bool(value)`. -/
def truthy : Val → Bool
  | .null => false
  | .bool value => value
  | .number value => decide (value ≠ 0)
  | .string text => decide (text ≠ [])
  | .array items => decide (items ≠ [])
  | .object fields => decide (fields ≠ [])

/-- `value[name]`. -/
def item (name : Str) : Val → Except Raised Val
  | .object fields => (Dict.get? fields name).elim (.error .keyError) .ok
  | _ => .error .typeError

/-- `value.get(name)`, with `None` where there is none. -/
def get (name : Str) : Val → Except Raised Val
  | .object fields => .ok (Dict.get fields name)
  | _ => .error .attributeError

/-- `value.get(name, default)`. -/
def getOr (name : Str) (default : Val) : Val → Except Raised Val
  | .object fields => .ok ((Dict.get? fields name).getD default)
  | _ => .error .attributeError

/-- What a `for` goes through. -/
def iter : Val → Except Raised (List Val)
  | .array items => .ok items
  | .object fields => .ok (fields.map fun field => .string field.1)
  | .string text => .ok (text.map fun c => .string [c])
  | _ => .error .typeError

def asText : Val → Except Raised Str
  | .string text => .ok text
  | _ => .error .typeError

/-- A value that is an element of a set or the key of a dict. -/
def hashed (value : Val) : Except Raised Val :=
  if value.hashable then .ok value else .error .typeError

/-- `str(value)` and `repr(value)`. -/
structure Format where
  str : Val → Str
  repr : Val → Str

/-- What is at a path: `read_text()` gives its text where its bytes are UTF-8, and
`read_text(errors="replace")` always gives one. -/
inductive Node where
  | missing
  | unreadable (strerror : Str)
  | file (text : Option Str) (lossy : Str)

/-- `path.exists()`. -/
def Node.exists : Node → Bool
  | .missing => false
  | _ => true

/-- `path.read_text(errors="replace")`. -/
def Node.readLossy : Node → Except Raised Str
  | .file _ lossy => .ok lossy
  | _ => .error .osError

/-- `path.read_text()`. -/
def Node.readText : Node → Except Raised Str
  | .file (some text) _ => .ok text
  | .file none _ => .error .unicodeError
  | _ => .error .osError

/-- A file that `os.walk` finds, with its directories; `none` where it cannot be read. -/
structure ScanFile where
  directories : List Str
  name : Str
  text : Option Str

/-- What a run reads, and the names of the paths.  A file or a tree is of this repository or of a
repository below `--root`. -/
structure World where
  inventory : Option Val
  file : Option Str → Str → Node
  fullPath : Option Str → Str → Str
  tree : Option Str → List ScanFile
  repos : Option (List (Str × Bool))

section Stacks

def thisRepo : Str := "shared-infra".toList

def terminalStates : List Str :=
  ["migrate".toList, "destroy".toList, "migrate-or-destroy".toList, "never-kms".toList]

inductive Status where
  | migrated
  | attestedMigrated
  | attestedRemoved
  | pending
  | unresolved
  | needsAttestation
  | drift
  | missing
deriving DecidableEq

def Status.word : Status → Str
  | .migrated => "migrated".toList
  | .attestedMigrated => "attested-migrated".toList
  | .attestedRemoved => "attested-removed".toList
  | .pending => "pending".toList
  | .unresolved => "unresolved".toList
  | .needsAttestation => "needs-attestation".toList
  | .drift => "drift".toList
  | .missing => "missing".toList

def satisfiedBy (terminalState : Val) : List Status :=
  if terminalState.isString "migrate".toList then [.migrated, .attestedMigrated]
  else if terminalState.isString "destroy".toList then [.attestedRemoved]
  else if terminalState.isString "migrate-or-destroy".toList then
    [.migrated, .attestedMigrated, .attestedRemoved]
  else if terminalState.isString "never-kms".toList then
    [.needsAttestation, .migrated, .attestedMigrated]
  else []

def isoDate : Pattern Char :=
  .seq ((Pattern.one isDecimal).times 4) (.seq (.one (· == '-'))
    (.seq ((Pattern.one isDecimal).times 2) (.seq (.one (· == '-'))
      ((Pattern.one isDecimal).times 2))))

inductive Attested where
  | removed
  | migrated
deriving DecidableEq

def Attested.status : Attested → Status
  | .removed => .attestedRemoved
  | .migrated => .attestedMigrated

/-- `attested-removed` or `attested-migrated`. -/
def Attested.word (attested : Attested) : Str := attested.status.word

/-- What `read_attestation` makes of an entry, with its detail. -/
inductive Attestation where
  | none
  | drift (detail : Str)
  | made (attested : Attested) (detail : Str)

variable (format : Format)

/-- An attestation of a known state. -/
def readStatement (attested : Attested) (attestation : Val) : Except Raised Attestation := do
  let date ← get "date".toList attestation
  let evidence ← get "evidence".toList attestation
  if !truthy date then return .drift "attestation for this stack has no date".toList
  if !truthy evidence then return .drift "attestation for this stack has no evidence".toList
  if !isoDate.fullMatch (format.str date) then
    return .drift ("attestation date is not YYYY-MM-DD: ".toList ++ format.repr date)
  return .made attested (format.str date ++ ": ".toList ++ format.str evidence)

def readAttestation (entry : Val) : Except Raised Attestation := do
  let attestation ← get "attestation".toList entry
  if !truthy attestation then return .none
  let state ← get "state".toList attestation
  if state.isString "removed".toList then readStatement format .removed attestation
  else if state.isString "migrated".toList then readStatement format .migrated attestation
  else return .drift ("attestation records an unknown state: ".toList ++ format.repr state)

def attestationAgreesWith : Attested → List Kind
  | .migrated => [.passphrase, .absent]
  | .removed => []

/-- Where the configuration of an entry is. -/
inductive Place where
  | none
  | unreachable
  | at (repo : Option Str) (path : Str)
deriving DecidableEq

/-- `resolve_config_path`; whether there is one to reach is told by `config_path`. -/
def resolveConfigPath (root : Bool) (entry : Val) : Except Raised Place := do
  let path ← get "config_path".toList entry
  if !truthy path then return .none
  let repo ← get "repo".toList entry
  if repo.isString thisRepo then return .at none (← asText path)
  if !root || decide (repo = .null) then return .unreachable
  let repo ← asText repo
  return .at (some repo) (← asText path)

/-- What an entry comes to. -/
structure Judgement where
  provider : Option Kind
  status : Status
  detail : Str
  attested : Bool

def judged (status : Status) (detail : Str) : Judgement := ⟨none, status, detail, false⟩

/-- An attestation that is taken. -/
def asAttested (attested : Attested) (detail : Str) : Judgement :=
  ⟨none, attested.status, detail, true⟩

def judgeText (text : Str) : Judgement :=
  match classifySecretsProvider text with
  | (.gcpkms, detail) => ⟨some .gcpkms, .pending, detail.getD [], false⟩
  | (.passphrase, detail) =>
    if detail.getD [] = [] then
      ⟨some .passphrase, .drift, "passphrase provider with no encryptionsalt".toList, false⟩
    else ⟨some .passphrase, .migrated, detail.getD [], false⟩
  | (.absent, _) =>
    ⟨some .absent, .needsAttestation, ("no secretsprovider, encryptedkey or encryptionsalt in " ++
      "the file -- record an attestation once this stack reaches its terminal state").toList,
      false⟩
  | (.unknown, detail) =>
    ⟨some .unknown, .drift,
      strip ("unexpected secrets provider: ".toList ++ (Kind.unknown.word ++ ' ' :: detail.getD [])),
      false⟩

def judgeAttested (attested : Attested) (attestedDetail path : Str) (node : Node) :
    Except Raised Judgement :=
  if !node.exists then
    match attested with
    | .removed => .ok (asAttested .removed attestedDetail)
    | .migrated => .ok (judged .drift
        ("attestation claims attested-migrated but ".toList ++ (path ++ " is gone".toList)))
  else
    node.readText.map fun text =>
      let kind := (classifySecretsProvider text).1
      if kind ∈ attestationAgreesWith attested then asAttested attested attestedDetail
      else judged .drift ("attestation claims ".toList ++ (attested.word ++
        (" but ".toList ++ (path ++ (" reports ".toList ++ kind.word)))))

def judgeFile (fullPath : Str) : Node → Except Raised Judgement
  | .missing => .ok (judged .missing (fullPath ++ ": No such file or directory".toList))
  | .unreadable strerror => .ok (judged .missing (fullPath ++ ": ".toList ++ strerror))
  | .file none _ => .error .unicodeError
  | .file (some text) _ => .ok (judgeText text)

variable (world : World)

def judgePlace (attestation : Attestation) (repo : Val) (place : Place) : Except Raised Judgement :=
  match place with
  | .none =>
    match attestation with
    | .made attested detail => .ok (asAttested attested detail)
    | _ => .ok (judged .needsAttestation
        "no committed configuration file; nothing here can check this stack".toList)
  | .unreachable => .ok (judged .unresolved
      ("repo ".toList ++ (format.repr repo ++ " not reachable from --root".toList)))
  | .at place path =>
    match attestation with
    | .made attested detail => judgeAttested attested detail path (world.file place path)
    | _ => judgeFile (world.fullPath place path) (world.file place path)

/-- `audit_stack`, behind the names. -/
def judgeEntry (root : Bool) (entry terminalState repo : Val) : Except Raised Judgement := do
  let terminalState ← hashed terminalState
  if !terminalStates.any terminalState.isString then
    return judged .drift ("inventory gives an unknown terminal_state: ".toList ++
      format.repr terminalState)
  match ← readAttestation format entry with
  | .drift detail => return judged .drift detail
  | attestation => judgePlace format world attestation repo (← resolveConfigPath root entry)

structure Finding where
  stack : Str
  repo : Val
  terminalState : Val
  judgement : Judgement

def auditStack (root : Bool) (entry : Val) : Except Raised Finding := do
  let project ← item "project".toList entry
  let stack ← item "stack".toList entry
  let terminalState ← get "terminal_state".toList entry
  let repo ← get "repo".toList entry
  let judgement ← judgeEntry format world root entry terminalState repo
  return ⟨format.str project ++ '/' :: format.str stack, repo, terminalState, judgement⟩

def satisfiesTerminalState (finding : Finding) : Bool :=
  decide (finding.judgement.status ∈ satisfiedBy finding.terminalState)

end Stacks

section Sites

inductive SiteStatus where
  | drift
  | retiredUnverified
  | live
  | retired
deriving DecidableEq

def SiteStatus.word : SiteStatus → Str
  | .drift => "drift".toList
  | .retiredUnverified => "retired-unverified".toList
  | .live => "live".toList
  | .retired => "retired".toList

structure SiteFinding where
  site : Str
  status : SiteStatus
  detail : Val

variable (format : Format) (world : World)

/-- A site whose file was read. -/
def judgeSite (label : Str) (claimed : Bool) (note : Val) (marker text : Str) : SiteFinding :=
  if occursIn marker text then
    if claimed then
      ⟨label, .drift, .string ("claims retired but still contains ".toList ++
        format.repr (.string marker))⟩
    else ⟨label, .live, note⟩
  else
    if claimed then
      ⟨label, .retired, .string ("verified: no ".toList ++ (format.repr (.string marker) ++
        " in the file".toList))⟩
    else
      ⟨label, .drift, .string ("inventory says live but ".toList ++
        (format.repr (.string marker) ++ " is gone -- flip `retired` to true".toList))⟩

/-- The file of a site, where `--root` makes it reachable. -/
def siteNode (root : Bool) (repo path : Val) : Except Raised Node :=
  if root && truthy repo then do
    let repo ← asText repo
    let path ← asText path
    return world.file (some repo) path
  else .ok .missing

def auditSite (root : Bool) (site : Val) : Except Raised SiteFinding := do
  let repo ← get "repo".toList site
  let path ← item "path".toList site
  let label := format.str repo ++ '/' :: format.str path
  let marker ← getOr "must_not_contain".toList (.string "gcpkms://".toList) site
  let note ← getOr "note".toList (.string []) site
  match ← get "retired".toList site with
  | .bool claimed =>
    let node ← siteNode world root repo path
    if !node.exists then
      if claimed then
        return ⟨label, .retiredUnverified, .string ("claims retired, but the file was not " ++
          "reachable to check -- pass --root").toList⟩
      else return ⟨label, .live, note⟩
    else
      let text ← node.readLossy
      return judgeSite format label claimed note (← asText marker) text
  | claimed =>
    return ⟨label, .drift, .string ("`retired` must be true or false, not ".toList ++
      format.repr claimed)⟩

/-- `inventory.get(name, [])`, gone through. -/
def listed (name : Str) (inventory : Val) : Except Raised (List Val) := do
  iter (← getOr name (.array []) inventory)

def auditProviderSelectionSites (inventory : Val) (root : Bool) :
    Except Raised (List SiteFinding) := do
  (← listed "provider_selection_sites".toList inventory).mapM (auditSite format world root)

end Sites

section Scans

def backendReference : Pattern Char :=
  .alt (.seq (.literal "gs://branchleft-".toList)
      (.seq (.star (.one fun c => c.isLower || c.isDigit || c == '-'))
        (.literal "pulumi-state".toList)))
    (.alt (.literal "s3://branchleft-pulumi-state".toList)
      (.seq (.literal "pulumi login ".toList)
        (.seq (.opt (.one (· == '"'))) (.literal "gs://$".toList))))

def providerSelection : Pattern Char :=
  .seq (.literal "--secrets-provider".toList)
    (.seq (.plus (.one fun c => c == '=' || c == ' '))
      (.seq (.opt (.one fun c => c == '"' || c == '\'')) (.literal "gcpkms://".toList)))

def scannableSuffixes : List Str :=
  [".yml".toList, ".yaml".toList, ".md".toList, ".sh".toList, ".ts".toList, ".py".toList,
    ".json".toList]

def providerSelectionSuffixes : List Str :=
  [".yml".toList, ".yaml".toList, ".sh".toList, ".ts".toList]

def skipDirs : List Str :=
  [".git".toList, ".worktrees".toList, "node_modules".toList, "graphify-out".toList,
    "dist".toList, "vendor".toList]

/-- `path.relative_to(tree).as_posix()`. -/
def ScanFile.path (file : ScanFile) : Str := joinWith ['/'] (file.directories ++ [file.name])

def sorted (texts : List Str) : List Str := texts.mergeSort (· ≤ ·)

def scanned (suffixes : List Str) (files : List ScanFile) : List ScanFile :=
  files.filter fun file =>
    decide (∀ d ∈ file.directories, d ∉ skipDirs) && suffixes.any (endsWith file.name)

def scanPattern (files : List ScanFile) (pattern : Pattern Char) (suffixes : List Str) :
    Except Raised (List Str) :=
  let read := scanned suffixes files
  let unreadable := (read.filter fun file => file.text.isNone).map ScanFile.path
  if unreadable = [] then
    .ok ((read.filter fun file => file.text.any pattern.search).map ScanFile.path).dedup
  else .error (.unreadableFiles (sorted unreadable))

/-- A set of values: of equal ones the first. -/
def setOf (values : List Val) : List Val :=
  values.foldl (fun set v => if set.any v.same then set else set ++ [v]) []

def text? : Val → Option Str
  | .string text => some text
  | _ => none

def number? : Val → Option ℚ
  | .number value => some value
  | .bool value => some (if value then 1 else 0)
  | _ => none

/-- `sorted(values)`, for the values of a set: texts have an order, numbers have one, and nothing
else is compared. -/
def sortedVals (values : List Val) : Except Raised (List Val) :=
  if values.length ≤ 1 then .ok values
  else if values.all fun v => (text? v).isSome then
    .ok ((sorted (values.filterMap text?)).map .string)
  else if values.all fun v => (number? v).isSome then
    .ok (values.mergeSort fun a b => decide ((number? a).getD 0 ≤ (number? b).getD 0))
  else .error .typeError

structure References where
  undeclared : List Str
  stale : List Val

variable (world : World)

def declaredReferences (inventory : Val) : Except Raised (List Val) := do
  (← listed "backend_reference_sites".toList inventory).mapM fun site => do
    hashed (← item "path".toList site)

def scanBackendReferences (files : List ScanFile) : Except Raised (List Str) :=
  scanPattern files backendReference scannableSuffixes

def auditBackendReferences (inventory : Val) : Except Raised References := do
  let declared ← declaredReferences inventory
  let found ← scanBackendReferences (world.tree none)
  let stale ← sortedVals (setOf (declared.filter fun v => !found.any v.isString))
  return ⟨sorted (found.filter fun path => !declared.any (·.isString path)), stale⟩

def scanProviderSelectionHits (files : List ScanFile) : Except Raised (List Str) :=
  scanPattern files providerSelection providerSelectionSuffixes

def declaredSites (inventory : Val) : Except Raised (List (Val × Val)) := do
  (← listed "provider_selection_sites".toList inventory).mapM fun site => do
    let repo ← get "repo".toList site
    let path ← item "path".toList site
    let repo ← hashed (if truthy repo then repo else .string thisRepo)
    let path ← hashed path
    return (repo, path)

def undeclaredHits (declared : List (Val × Val)) (repo : Str) (hits : List Str) : List Str :=
  hits.filter fun hit => !declared.any fun site => site.1.isString repo && site.2.isString hit

/-- The directories below `--root` that are scanned. -/
def siblings (root : Bool) : Except Raised (List Str) :=
  if root then
    match world.repos with
    | none => .error .osError
    | some entries => .ok (sorted ((entries.filter fun entry =>
      entry.2 && decide (entry.1 ∉ skipDirs)).map Prod.fst))
  else .ok []

def auditProviderSelectionScan (inventory : Val) (root : Bool) : Except Raised (List Str) := do
  let declared ← declaredSites inventory
  let own ← scanProviderSelectionHits (world.tree none)
  let others ← (← siblings world root).mapM fun repo => do
    let hits ← scanProviderSelectionHits (world.tree (some repo))
    return (undeclaredHits declared repo hits).map fun hit => repo ++ '/' :: hit
  return sorted (undeclaredHits declared thisRepo own ++ others.flatten).dedup

end Scans

end SharedInfra.SecretsAudit
