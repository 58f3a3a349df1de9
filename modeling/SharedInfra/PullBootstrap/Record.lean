import SharedInfra.Python.Utf8
import SharedInfra.Python.Values

/-!
# Git as a graph of commits

A history is a graph of commits without a cycle, each with the content of its files.  `git log -1`
walks from a commit to the first parent that has the same content, and stops where no parent has
(`lastChange`).  What it answers is an ancestor (`isAncestor_of_lastChange`), and a change on a line
of commits is found (`lastChange_ne_of_changedSince`).
-/

namespace SharedInfra.PullBootstrap

open Python

/-- So many lower-case hexadecimal digits. -/
def isHex (length : Nat) (s : Str) : Bool :=
  s.length == length && s.all fun c => c.isDigit || ('a' ≤ c && c ≤ 'f')

/-- The commits that a repository holds: the parents of each and its files. -/
structure History where
  parents : Str → Option (List Str)
  file : Str → Str → Option Bytes
  rank : Str → Nat
  fullId : ∀ c, (parents c).isSome → isHex 40 c = true
  older : ∀ c ps, parents c = some ps → ∀ p ∈ ps, rank p < rank c

namespace History

/-- `git log -1 --format=%H <commit> -- <path>`. -/
def lastChange (h : History) (path c : Str) : Option Str :=
  match _hparents : h.parents c with
  | none => none
  | some ps =>
    match _hfind : ps.find? fun p => h.file p path == h.file c path with
    | some p => lastChange h path p
    | none => if ps = [] ∧ h.file c path = none then none else some c
termination_by h.rank c
decreasing_by exact h.older c ps _hparents p (List.mem_of_find?_eq_some _hfind)

/-- `git merge-base --is-ancestor <commit> <other>`. -/
def isAncestor (h : History) (a c : Str) : Bool :=
  match _hparents : h.parents c with
  | none => false
  | some ps => a == c || ps.attach.any fun p => isAncestor h a p.1
termination_by h.rank c
decreasing_by exact h.older c ps _hparents p.1 p.2

variable {h : History} {path a c p old : Str} {ps : List Str}

theorem lastChange_none (hparents : h.parents c = none) : h.lastChange path c = none := by
  rw [lastChange]
  split
  · rfl
  next ps hps => cases hparents.symm.trans hps

theorem lastChange_some (hparents : h.parents c = some ps) : h.lastChange path c =
    match ps.find? fun p => h.file p path == h.file c path with
    | some p => h.lastChange path p
    | none => if ps = [] ∧ h.file c path = none then none else some c := by
  rw [lastChange]
  split
  next hnone => cases hnone.symm.trans hparents
  next ps' hps =>
    obtain rfl := Option.some.inj (hps.symm.trans hparents)
    split
    next p hfind => rw [hfind]
    next hfind => rw [hfind]

theorem isAncestor_iff (hparents : h.parents c = some ps) :
    h.isAncestor a c = true ↔ a = c ∨ ∃ p ∈ ps, h.isAncestor a p = true := by
  rw [isAncestor]
  split
  next hnone => cases hnone.symm.trans hparents
  next ps' hps =>
    obtain rfl := Option.some.inj (hps.symm.trans hparents)
    simp only [Bool.or_eq_true, beq_iff_eq, List.any_eq_true, List.mem_attach, true_and,
      Subtype.exists, exists_prop]

theorem lastChange_spec (path c : Str) : ∀ a, h.lastChange path c = some a →
    h.isAncestor a c = true ∧ (h.parents a).isSome = true ∧ h.rank a ≤ h.rank c := by
  induction hn : h.rank c using Nat.strong_induction_on generalizing c with
  | _ n ih =>
    intro a ha
    cases hparents : h.parents c with
    | none => cases (lastChange_none hparents).symm.trans ha
    | some ps =>
      rw [lastChange_some hparents] at ha
      cases hfind : ps.find? fun p => h.file p path == h.file c path with
      | some p =>
        rw [hfind] at ha
        have hp := List.mem_of_find?_eq_some hfind
        have hlt := h.older c ps hparents p hp
        obtain ⟨hanc, hsome, hrank⟩ := ih (h.rank p) (hn ▸ hlt) p rfl a ha
        exact ⟨(isAncestor_iff hparents).mpr (Or.inr ⟨p, hp, hanc⟩), hsome, by omega⟩
      | none =>
        rw [hfind] at ha
        simp only at ha
        split_ifs at ha
        obtain rfl := Option.some.inj ha
        refine ⟨(isAncestor_iff hparents).mpr (Or.inl rfl), ?_, hn.le⟩
        rw [hparents]
        rfl

theorem isAncestor_of_lastChange (ha : h.lastChange path c = some a) : h.isAncestor a c = true :=
  (lastChange_spec path c a ha).1

/-- A line of commits without a merge leads back to an older one. -/
inductive Since (h : History) (old : Str) : Str → Prop
  | here : Since h old old
  | later {c p : Str} (hparents : h.parents c = some [p]) (hp : Since h old p) : Since h old c

/-- On the line, a commit changes the file. -/
inductive ChangedSince (h : History) (path old : Str) : Str → Prop
  | change {c p : Str} (hparents : h.parents c = some [p]) (hp : Since h old p)
      (hfile : h.file p path ≠ h.file c path) : ChangedSince h path old c
  | later {c p : Str} (hparents : h.parents c = some [p]) (hp : ChangedSince h path old p) :
      ChangedSince h path old c

theorem rank_le_of_since (hc : Since h old c) : h.rank old ≤ h.rank c := by
  induction hc with
  | here => exact le_rfl
  | later hparents _ ih => exact ih.trans (h.older _ _ hparents _ List.mem_cons_self).le

theorem lastChange_of_changedSince (hc : ChangedSince h path old c) :
    ∃ a, h.lastChange path c = some a ∧ h.rank old < h.rank a := by
  induction hc with
  | @change c p hparents hp hfile =>
    refine ⟨c, ?_, (rank_le_of_since hp).trans_lt (h.older _ _ hparents _ List.mem_cons_self)⟩
    have hnone : [p].find? (fun p => h.file p path == h.file c path) = none := by
      simpa using hfile
    rw [lastChange_some hparents, hnone]
    simp
  | @later c p hparents hp ih =>
    obtain ⟨a, ha, hrank⟩ := ih
    rw [lastChange_some hparents]
    cases hfind : [p].find? fun p => h.file p path == h.file c path with
    | some p' =>
      obtain rfl := List.mem_singleton.mp (List.mem_of_find?_eq_some hfind)
      exact ⟨a, ha, hrank⟩
    | none =>
      have hsome := (lastChange_spec path p a ha).2.2
      refine ⟨c, by simp, ?_⟩
      have hlt := h.older _ _ hparents _ List.mem_cons_self
      omega

theorem lastChange_ne_of_changedSince (hc : ChangedSince h path old c) :
    h.lastChange path c ≠ h.lastChange path old := by
  obtain ⟨a, ha, hrank⟩ := lastChange_of_changedSince hc
  intro heq
  rw [ha] at heq
  have hle := (lastChange_spec path old a heq.symm).2.2
  omega

end History

/-!
# The bootstrap record

`pull_bootstrap.py`: `generate` pins each fetched file at its last commit, with the digest and the
address it has there, and adds the configuration that the files give; `verify` checks a record piece
by piece against a fresh fetch of `main`.
-/

def rawBase : Str := "https://raw.githubusercontent.com/branchLeft/shared-infra".toList

def playbookPath : Str := "ansible/playbooks/edge1.yml".toList

/-- `FETCHED`: the three files a host fetches, by the name the record gives them. -/
def fetched : List (Str × Str) :=
  [("wrapper".toList, "ansible/roles/pull_trigger/files/pull_trigger.py".toList),
    ("program".toList, "ansible/roles/ansible_runtime/files/install_runtime.py".toList),
    ("lock".toList, "ansible/requirements.txt".toList)]

def defaultsPath : Str := "ansible/roles/pull_trigger/defaults/main.yml".toList

def varsPath : Str := "ansible/roles/pull_trigger/vars/main.yml".toList

def tasksPath : Str := "ansible/roles/pull_trigger/tasks/main.yml".toList

def commonPath : Str := "ansible/playbooks/includes/pull_trigger_common.yml".toList

def trustPath : Str := "ansible/trust/edge1.yml".toList

def inputs : List Str := [defaultsPath, varsPath, tasksPath, commonPath, trustPath, playbookPath]

section Repositories

/-- A `BootstrapError` with its text, or an exception that the tool does not catch. -/
inductive Failure where
  | bootstrap (message : Str)
  | uncaught (error : Str)
deriving DecidableEq

/-- A repository: its history, what git answers where it is asked for more (the text it prints, or
what it says where it fails) and the files of the checkout. -/
structure Repo where
  history : History
  isShallow : Except Str Str
  fetch : Except Str Unit
  fetchHead : Except Str Str
  head : Except Str Str
  status : Except Str Str
  missing : Str → Str → Str
  readText : Str → Except Str Str

/-- The digits of a SHA-256. -/
abbrev HexDigest := {s : Str // isHex 64 s = true}

/-- `git`: a failing command is a `BootstrapError`. -/
def git {α : Type} (args : List Str) (answer : Except Str α) : Except Failure α :=
  answer.mapError fun detail =>
    .bootstrap ("git ".toList ++ joinWith [' '] args ++ " failed: ".toList ++ detail)

variable (repo : Repo)

def head : Except Failure Str := git ["rev-parse".toList, "HEAD".toList] repo.head

def mainTip : Except Failure Str :=
  (git ["fetch".toList, "--quiet".toList, "origin".toList, "refs/heads/main".toList]
    repo.fetch).bind fun _ =>
  (git ["rev-parse".toList, "FETCH_HEAD".toList] repo.fetchHead).bind fun tip =>
  if isHex 40 tip then .ok tip
  else .error (.bootstrap "origin/main did not resolve to a commit".toList)

def refuseShallow : Except Failure Unit :=
  (git ["rev-parse".toList, "--is-shallow-repository".toList] repo.isShallow).bind fun answer =>
  if answer = "false".toList then .ok ()
  else .error (.bootstrap ("the repository is a shallow clone, so the last commit that changed a " ++
    "file cannot be read from it: check it out with the whole history (fetch-depth 0)").toList)

def checkedOutTip (rule : Str) : Except Failure Str :=
  (refuseShallow repo).bind fun _ => (mainTip repo).bind fun tip => (head repo).bind fun top =>
  if top = tip then .ok tip
  else .error (.bootstrap ("HEAD ".toList ++ top ++ " is not the tip of origin/main (".toList ++ tip ++
    "): ".toList ++ rule))

def lastCommit (path : Str) : Except Failure Str :=
  (git ["log".toList, "-1".toList, "--format=%H".toList, "HEAD".toList, "--".toList, path]
    repo.head).bind fun top =>
  match repo.history.lastChange path top with
  | some commit =>
    if isHex 40 commit then .ok commit
    else .error (.bootstrap ("no commit changed ".toList ++ path))
  | none => .error (.bootstrap ("no commit changed ".toList ++ path))

variable (sha256 : Bytes → HexDigest)

def blobSha256 (commit path : Str) : Except Failure HexDigest :=
  (git ["show".toList, commit ++ ':' :: path]
    (match repo.history.file commit path with
      | some content => .ok content
      | none => .error (repo.missing commit path))).map sha256

def rawUrl (commit path : Str) : Str := rawBase ++ '/' :: commit ++ '/' :: path

/-- The text of a file of the checkout; what cannot be read is not caught. -/
def readText (path : Str) : Except Failure Str := (repo.readText path).mapError .uncaught

/-- `read_inputs`, the texts in the order of `inputs`. -/
def readInputs : Except Failure (List Str) :=
  (git (["status".toList, "--porcelain".toList, "--".toList] ++ inputs ++ fetched.map Prod.snd)
    repo.status).bind fun changed =>
  if changed ≠ [] then
    .error (.bootstrap ("an input has changes that are not committed: ".toList ++ changed))
  else inputs.mapM (readText repo)

/-- `check_playbook` and `render_config`, each of the texts that it reads. -/
structure Rendering where
  checkPlaybook : Str → Except Failure Unit
  renderConfig (tasks defaults vars common trust : Str) : Except Failure Str

variable (rendering : Rendering)

def repositoryConfig : Except Failure Str :=
  (readInputs repo).bind fun
    | [defaults, vars, tasks, common, trust, playbook] =>
      (rendering.checkPlaybook playbook).bind fun _ =>
        rendering.renderConfig tasks defaults vars common trust
    | _ => .error (.uncaught "KeyError".toList)

end Repositories

section Building

/-- Why a build needs the tip. -/
def buildRule : Str := "a record is built from main, never from a branch".toList

variable (repo : Repo) (sha256 : Bytes → HexDigest) (rendering : Rendering)

def entryOf (commit : Str) (digest : HexDigest) (path : Str) : Val :=
  .object [("pin".toList, .string commit), ("sha256".toList, .string digest.1),
    ("url".toList, .string (rawUrl commit path))]

def buildEntry (file : Str × Str) : Except Failure (Str × Val) :=
  (lastCommit repo file.2).bind fun commit =>
    (blobSha256 repo sha256 commit file.2).map fun digest => (file.1, entryOf commit digest file.2)

def buildRecord : Except Failure Dict :=
  (checkedOutTip repo buildRule).bind fun _ =>
  (repositoryConfig repo rendering).bind fun config =>
  (fetched.mapM (buildEntry repo sha256)).map fun entries =>
    ("schema".toList, .number 1) :: (entries ++ [("config".toList, .string config)])

end Building

section Verifying

/-- Why a check needs the tip. -/
def checkRule : Str := "a record is checked against main, never against a branch".toList

variable (repo : Repo) (sha256 : Bytes → HexDigest) (rendering : Rendering)

/-- `set(entry) == names`. -/
def hasExactly (fields : Dict) (names : List Str) : Bool :=
  fields.all (fun field => decide (field.1 ∈ names)) &&
    names.all fun name => (Dict.get? fields name).isSome

/-- `verify_entry` of a pin that is a full commit id. -/
def verifyPin (tip name path pin : Str) (digest url : Val) : Except Failure (List Str) :=
  let problems :=
    (match digest with
      | .string s => if isHex 64 s then [] else
          [name ++ ": the sha256 is not 64 lowercase hex digits".toList]
      | _ => [name ++ ": the sha256 is not 64 lowercase hex digits".toList]) ++
    if url.isString (rawUrl pin path) then []
    else [name ++ ": the url does not name the recorded pin and the file".toList]
  if !repo.history.isAncestor pin tip then
    .ok (problems ++ [name ++ ": the pin is not an ancestor of origin/main".toList])
  else
    (lastCommit repo path).map fun commit =>
      problems ++
      (match repo.history.file pin path with
        | some content => if digest.isString (sha256 content).1 then [] else
            [name ++ ": the sha256 is not that of the file at the pin".toList]
        | none => [name ++ ": the sha256 is not that of the file at the pin".toList]) ++
      if commit ≠ pin then
        [name ++ ": a later commit changed the file, so the pin is stale".toList]
      else []

def verifyEntry (tip name path : Str) (entry : Val) : Except Failure (List Str) :=
  match entry with
  | .object fields =>
    if hasExactly fields ["pin".toList, "sha256".toList, "url".toList] then
      match Dict.get fields "pin".toList with
      | .string pin =>
        if isHex 40 pin then
          verifyPin repo sha256 tip name path pin (Dict.get fields "sha256".toList)
            (Dict.get fields "url".toList)
        else .ok [name ++ ": the pin is not a full commit id".toList]
      | _ => .ok [name ++ ": the pin is not a full commit id".toList]
    else .ok [name ++ ": the entry is not a pin, a sha256 and a url".toList]
  | _ => .ok [name ++ ": the entry is not a pin, a sha256 and a url".toList]

/-- `except BootstrapError as error: problems.append(...)`. -/
def caught (label : Str) (x : Except Failure (List Str)) : Except Failure (List Str) :=
  match x with
  | .error (.bootstrap message) => .ok [label ++ message]
  | x => x

/-- What is wrong with the configuration of a record. -/
def verifyConfig (config : Val) : Except Failure (List Str) :=
  (repositoryConfig repo rendering).map fun text =>
    if config.isString text then [] else
      ["config: differs from the one the repository's files give".toList]

/-- `verify_record`, of a record of the schema. -/
def verifyMembers (fields : Dict) : Except Failure (List Str) :=
  match checkedOutTip repo checkRule with
  | .error (.bootstrap message) => .ok [message]
  | .error e => .error e
  | .ok tip =>
    (fetched.mapM fun file => caught (file.1 ++ ": ".toList)
      (verifyEntry repo sha256 tip file.1 file.2 (Dict.get fields file.1))).bind fun problems =>
    (caught "config: ".toList (verifyConfig repo rendering (Dict.get fields "config".toList))).map
      fun config => problems.flatten ++ config

def verifyRecord (record : Val) : Except Failure (List Str) :=
  match record with
  | .object fields =>
    if (Dict.get fields "schema".toList).same (.number 1) then
      verifyMembers repo sha256 rendering fields
    else .ok ["the record is not schema 1".toList]
  | _ => .ok ["the record is not schema 1".toList]

end Verifying

end SharedInfra.PullBootstrap
