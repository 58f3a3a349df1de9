import SharedInfra.Python.Integers
import SharedInfra.Python.Replace
import SharedInfra.Python.Splitting
import SharedInfra.Sequences.Backtrack

/-!
# The caller of the gated apply

The `caller` check of `check_delivery.py`: what it finds in the caller's workflow, and the
environments it reads in every other workflow file.  A file is the document that YAML reads
from it; three checks that read no environment are any functions (`Checks`).  What an exception
ends is `none`.
-/

namespace SharedInfra.Delivery

open Python Sequences

/-- What YAML reads; `other` is a number, a date or nothing at all. -/
inductive Obj (ω : Type) where
  | text (s : Str)
  | bool (b : Bool)
  | list (items : List (Obj ω))
  | mapping (entries : List (Obj ω × Obj ω))
  | other (value : ω)

/-- What the interpreter makes of values and names. -/
structure Interpreter (ω : Type) where
  str : Obj ω → Str
  repr : Option (Obj ω) → Str
  casefold : Str → Str

/-- What `trigger_findings`, `proof_findings` and `secret_findings`, which read no environment,
find. -/
structure Checks (ω : Type) where
  triggerFindings : Option (Obj ω) → List Str
  proofFindings : Option (Obj ω) → List Str
  secretFindings : Option (Obj ω) → List Str

variable {ω : Type} (i : Interpreter ω) (checks : Checks ω)

abbrev Mapping (ω : Type) := List (Str × Obj ω)

def Mapping.put (key : Str) (item : Obj ω) : Mapping ω → Mapping ω
  | [] => [(key, item)]
  | e :: d => if e.1 = key then (key, item) :: d else e :: put key item d

def strOf : Obj ω → Str
  | .text s => s
  | .bool b => if b then "True".toList else "False".toList
  | key => i.str key

def asMapping : Option (Obj ω) → Option (Mapping ω)
  | some (.mapping entries) => some (entries.foldl (fun d e => d.put (strOf i e.1) e.2) [])
  | _ => none

def Mapping.get (d : Mapping ω) (key : Str) : Option (Obj ω) := d.lookup key

/-- The keys in order. -/
def Mapping.keys (d : Mapping ω) : List Str := (d.map Prod.fst).insertionSort (· ≤ ·)

/-- The value is the text. -/
def isText (s : Str) : Option (Obj ω) → Bool
  | some (.text t) => t == s
  | _ => false

/-- The value is the list of these texts. -/
def isTexts (texts : List Str) : Option (Obj ω) → Bool
  | some (.list items) =>
    items.length == texts.length && (items.zip texts).all fun e => isText e.2 (some e.1)
  | _ => false

/-- What a mapping holds under a text. -/
def Obj.at (key : Str) : Obj ω → Option (Obj ω)
  | .mapping entries => (entries.find? fun e => isText key (some e.1)).map Prod.snd
  | _ => none

/-- The value is the mapping of exactly these texts. -/
def isMembers (members : List (Str × Str)) : Option (Obj ω) → Bool
  | some (.mapping entries) => entries.length == members.length &&
      members.all fun member => isText member.2 ((Obj.mapping entries).at member.1)
  | _ => false

def jobName : Str := "delivery"
def environmentName : Str := "ansible-hosts"
def callerFile : Str := "ansible-delivery.yml"
def minRelease : List Nat := [1, 0, 23]
def pushPlaybook : Str := "ansible/playbooks/demo1.yml"
def roleDirectories : List Str := ["roles/*".toList, "patterns/*".toList]
def pythonPaths : Str := "harness checks"
def roleTestCommand : Str := "harness/run_harness.py"
def gateCheckName : Str := "Lint and test the Ansible roles"
def skipInput : Str := "skip-rerun-after-merge-group"
def checkNameInput : Str := "merge-group-check-name"
def pushPlaybookInput : Str := "push-playbook"
def proofJob : Str := "queue-proof"

/-- An expression of a workflow: the text between its braces. -/
def expression (inner : Str) : Str := "$\x7b\x7b ".toList ++ inner ++ " \x7d\x7d".toList

def permissions : List (Str × Str) :=
  [("contents".toList, "read".toList), ("actions".toList, "read".toList)]

def skipExpression : Str := expression "needs.queue-proof.outputs.tested == 'true'"

def workflowKeys : List Str := ["name", "on", "permissions", "jobs"].map String.toList
def jobKeys : List Str := ["uses", "with", "secrets", "needs"].map String.toList
def inputKeys : List Str :=
  ["environment".toList, "role-directories".toList, "python-paths".toList,
    "role-test-command".toList, skipInput, checkNameInput, "shard-timeout-minutes".toList,
    pushPlaybookInput]

/-- `WHY`. -/
def why : List (Str × Str) :=
  [("dry-run", "a dry run replaces the host call, so a green run would reach no host"),
    ("dry-run-stub", "a stand-in for the host"),
    ("if", "a condition can skip the delivery without a red run"),
    ("needs", "a dependency can skip the delivery without a red run"),
    ("continue-on-error", "a failed proof would read as a pass"),
    ("environment", "the environment is an input of the call, not a job key"),
    ("permissions", "the token is set once, for the whole workflow")].map
    fun (key, text) => (key.toList, text.toList)

/-- `{text!r}` of a text of the module, which holds no quote. -/
def quoted (text : Str) : Str := '\'' :: text ++ ['\'']

def quotedList (texts : List Str) : Str :=
  '[' :: joinWith ", " (texts.map quoted) ++ [']']

def got (value : Option (Obj ω)) : Str := ", got ".toList ++ i.repr value

def unexpected (mapping : Mapping ω) (allowed : List Str) (place : Str) : List Str :=
  (mapping.keys.filter (· ∉ allowed)).map fun key =>
    place ++ " has ".toList ++ key ++ ", which is not allowed".toList ++
      ((why.lookup key).map (": ".toList ++ ·)).getD []

/-- A finding where a check fails. -/
def need (holds : Bool) (finding : Str) : List Str := if holds then [] else [finding]

/-- The lines of `role-directories` that are not empty are the directories. -/
def isDirectories : Option (Obj ω) → Bool
  | some (.text s) => (splitlines s).filter (· ≠ []) == roleDirectories
  | _ => false

def inputFindings (inputs : Option (Obj ω)) (otherEnvironments : List Str) : List Str :=
  match asMapping i inputs with
  | none => ["with must be a mapping of the call's inputs".toList ++ got i inputs]
  | some given =>
    let environment := given.get "environment"
    let value := fun key => given.get key
    unexpected given inputKeys "with" ++
    need (isText environmentName environment)
      ("with.environment must be ansible-hosts".toList ++ got i environment) ++
    (match environment with
      | some (.text s) =>
        need (decide (i.casefold s ∉ otherEnvironments.map i.casefold))
          ("with.environment ".toList ++ s ++ (" is also an environment of another workflow " ++
            "here, so one approval could release both an Ansible apply and a Pulumi apply").toList)
      | _ => []) ++
    need (isDirectories (value "role-directories"))
      ("with.role-directories must be ".toList ++ quotedList roleDirectories ++
        " so a delivery covers what the pull request gate covers".toList ++
        got i (value "role-directories")) ++
    need (isText pythonPaths (value "python-paths"))
      ("with.python-paths must be ".toList ++ quoted pythonPaths ++
        got i (value "python-paths")) ++
    need (isText roleTestCommand (value "role-test-command"))
      ("with.role-test-command must be ".toList ++ quoted roleTestCommand ++
        (", the entry point the pull request gate runs, so a delivery tests a role as the gate " ++
          "does").toList ++ got i (value "role-test-command")) ++
    need (isText skipExpression (value skipInput))
      ("with.".toList ++ skipInput ++ " must be \"".toList ++ skipExpression ++ ("\", so only a " ++
        "commit the proof job found tested by the merge queue skips the re-test").toList ++
        got i (value skipInput)) ++
    need (isText gateCheckName (value checkNameInput))
      ("with.".toList ++ checkNameInput ++ " must be ".toList ++ quoted gateCheckName ++
        ", the gate job of ansible.yml".toList ++ got i (value checkNameInput)) ++
    need (isText pushPlaybook (value pushPlaybookInput))
      ("with.".toList ++ pushPlaybookInput ++ " must be ".toList ++ quoted pushPlaybook ++
        ", the playbook the receiver of a pushed host runs".toList ++
        got i (value pushPlaybookInput))

/-- The numbers of a call of the reusable workflow at an exact tag (`REUSABLE`). -/
def releaseOf : Option (Obj ω) → Option (List Str)
  | some (.text uses) =>
    let path : Str := "branchLeft/github-workflows/.github/workflows/ansible-gated-apply.yml@v"
    let parts := splitOnChar '.' (uses.drop path.length)
    if startsWith uses path && parts.length == 3 &&
        parts.all (fun part => !part.isEmpty && part.all Char.isDigit) then some parts
    else none
  | _ => none

def useFindings (uses : Option (Obj ω)) : Option (List Str) :=
  match releaseOf uses with
  | none => some [("job delivery must call ansible-gated-apply.yml of branchLeft/" ++
      "github-workflows at an exact tag vMAJOR.MINOR.PATCH (CI-5)").toList ++ got i uses]
  | some parts => (parts.mapM intOfDigits).map fun numbers =>
      need (decide ¬ numbers < minRelease)
        ("job delivery calls ".toList ++ i.repr uses ++ (", older than v1.0.23, the first " ++
          "release that declares the per-host key map secrets: a call that passes a secret or " ++
          "an input the workflow does not declare fails").toList)

def jobFindings (jobs : Option (Obj ω)) (otherEnvironments : List Str) : Option (List Str) :=
  match asMapping i jobs with
  | none =>
    some ["jobs must hold exactly the two jobs queue-proof and delivery".toList ++ got i jobs]
  | some declared =>
    if declared.keys ≠ [proofJob, jobName].insertionSort (· ≤ ·) then
      some ["jobs must hold exactly the two jobs queue-proof and delivery".toList ++ got i jobs]
    else
      let findings := checks.proofFindings (declared.get proofJob)
      match asMapping i (declared.get jobName) with
      | none => some (findings ++
          ["job delivery must be a mapping".toList ++ got i (declared.get jobName)])
      | some job => do
        let needs := match job.get "needs" with
          | none =>
            ["job delivery must have needs ['queue-proof'], so it waits for the proof".toList]
          | some value => need (isTexts [proofJob] (some value))
              ("job delivery has needs ".toList ++ i.repr (some value) ++ (", which is not " ++
                "allowed: it must be exactly ['queue-proof'], so it waits for the proof and for " ++
                "nothing that could skip it").toList)
        let uses ← useFindings i (job.get "uses")
        some (findings ++ unexpected job jobKeys "job delivery" ++ needs ++ uses ++
          inputFindings i (job.get "with") otherEnvironments ++
          checks.secretFindings (job.get "secrets"))

def callerFindings (workflow : Obj ω) (otherEnvironments : List Str) : Option (List Str) :=
  match asMapping i (some workflow) with
  | none => some [".github/workflows/ansible-delivery.yml is not a YAML mapping".toList]
  | some top => do
    let jobs ← jobFindings i checks (top.get "jobs") otherEnvironments
    some (unexpected top workflowKeys "the workflow" ++ checks.triggerFindings (top.get "on") ++
      need (isMembers permissions (top.get "permissions"))
        (("permissions must be exactly contents: read and actions: read (the plan job reads the " ++
          "run record)").toList ++ got i (top.get "permissions")) ++ jobs)

def isBlank (c : Char) : Bool := c == ' ' || c == '\t'

def isNameStart (c : Char) : Bool := c.isAlpha || c == '_'

def isNameChar (c : Char) : Bool := c.isAlphanum || c == '_' || c == '-'

def isLiteralChar (c : Char) : Bool := isNameChar c || c == '.'

def one (p : Char → Bool) : Matcher Char Char
  | [] => []
  | c :: s => if p c then [(c, s)] else []

def identifier : Matcher Char Str := do
  let c ← one isNameStart
  let rest ← Matcher.star isNameChar
  pure (c :: rest)

/-- `ENVIRONMENT_LITERAL` between quotes. -/
def literal : Matcher Char Str := do
  Matcher.word "'".toList
  let c ← one Char.isAlphanum
  let rest ← Matcher.star isLiteralChar
  Matcher.word "'".toList
  pure (c :: rest)

/-- A word with blanks on both of its sides. -/
def between (w : Str) : Matcher Char Unit := do
  let _ ← Matcher.plus isBlank
  Matcher.word w
  let _ ← Matcher.plus isBlank
  pure ()

/-- `CHOSEN_ENVIRONMENT`. -/
def chosenEnvironment : Matcher Char (Str × Str) := do
  Matcher.word "$\x7b\x7b".toList
  let _ ← Matcher.plus isBlank
  Matcher.word "needs.".toList
  let _ ← identifier
  Matcher.word ".outputs.".toList
  let _ ← identifier
  between "=="
  let first ← literal
  between "&&"
  Matcher.word ('\'' :: first ++ ['\''])
  between "||"
  let second ← literal
  let _ ← Matcher.plus isBlank
  Matcher.word "\x7d\x7d".toList
  pure (first, second)

def chosenEnvironments (text : Str) : Option (Str × Str) :=
  ((chosenEnvironment text).find? fun found => found.2.isEmpty).map Prod.fst

/-- What reading a file as YAML comes to. -/
inductive Loaded (ω : Type) where
  | document (d : Obj ω)
  | problem (kind : Str)
  | raises

structure WorkflowFile (ω : Type) where
  name : Str
  loaded : Loaded ω

def problemText (name kind : Str) : Str := name ++ " cannot be read as YAML: ".toList ++ kind

/-- `glob("*.y*ml")`. -/
def isGlobbed (name : Str) : Bool :=
  name.tails.any fun rest => startsWith rest ".y" && endsWith (rest.drop 2) "ml"

/-- The values at which a job names an environment. -/
def spelled (job : Mapping ω) : List (Option (Obj ω)) :=
  job.get "environment" ::
    match job.get "uses" with
    | some (.text _) => [((asMapping i (job.get "with")).getD []).get "environment"]
    | _ => []

def namedValue (environment : Option (Obj ω)) : Option (Obj ω) :=
  match asMapping i environment with
  | some named => named.get "name"
  | none => environment

/-- The environments one value names, and the finding of one that cannot be read. -/
def environmentsOf (file : Str) (environment : Option (Obj ω)) : List Str × List Str :=
  match namedValue i environment with
  | some (.text s) =>
    if occursIn "$\x7b\x7b" s then
      match chosenEnvironments s with
      | none => ([], [file ++ " names an environment by expression ".toList ++
          i.repr (some (.text s)) ++
          ": C4 cannot read which environment it releases, so it is a finding".toList])
      | some (first, second) => ([first, second], [])
    else ([s], [])
  | _ => ([], [])

def jobEnvironments (file : Str) (job : Obj ω) : List Str × List Str :=
  match asMapping i (some job) with
  | none => ([], [])
  | some declared =>
    let found := (spelled i declared).map (environmentsOf i file)
    (found.flatMap Prod.fst, found.flatMap Prod.snd)

def fileEnvironments (file : WorkflowFile ω) : Option (List Str × List Str) :=
  match file.loaded with
  | .raises => none
  | .problem kind => some ([], [problemText file.name kind])
  | .document d =>
    let jobs := ((asMapping i (some d)).bind fun top => asMapping i (top.get "jobs")).getD []
    let found := jobs.map fun job => jobEnvironments i file.name job.2
    some (found.flatMap Prod.fst, found.flatMap Prod.snd)

/-- The names are a set; only whether it holds a name is asked. -/
def environmentsUsed (files : List (WorkflowFile ω)) (skip : Str) :
    Option (List Str × List Str) := do
  let chosen := (files.filter fun file => isGlobbed file.name && file.name != skip).mergeSort
    fun a b => decide (a.name ≤ b.name)
  let found ← chosen.mapM (fileEnvironments i)
  some (found.flatMap Prod.fst, found.flatMap Prod.snd)

/-- The caller's file, or the failure of opening it. -/
def callerLoaded (files : List (WorkflowFile ω)) : Loaded ω :=
  ((files.find? fun file => file.name == callerFile).map (·.loaded)).getD
    (.problem "FileNotFoundError")

def checkCaller (files : List (WorkflowFile ω)) : Option (List Str) := do
  let (others, findings) ← environmentsUsed i files callerFile
  match callerLoaded files with
  | .raises => none
  | .problem kind => some (findings ++ [problemText callerFile kind])
  | .document d => (callerFindings i checks d others).map (findings ++ ·)

end SharedInfra.Delivery
