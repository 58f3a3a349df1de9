import SharedInfra.Python.Text
import SharedInfra.Sequences.Worklist

/-!
# Choosing the shards of a CI run

`ci_select.py`: from the changed paths and what the scans of the repository say
(`Tree`), the units that are affected (`neededUnits`) and the shards to run
(`select`).

Sets are iterated in an order of their own; the order is a parameter.
-/

namespace SharedInfra.Selection

open Python Sequences

/-- A dictionary from paths to sets of units. -/
abbrev Graph := List (Str × Finset Str)

/-- `d.get(path, set())`. -/
def Graph.get (d : Graph) (path : Str) : Finset Str := (d.lookup path).getD ∅

/-- `d.setdefault(path, set()).update(named)`. -/
def Graph.update : Graph → Str → Finset Str → Graph
  | [], path, named => [(path, named)]
  | (key, value) :: rest, path, named =>
    if key = path then (key, value ∪ named) :: rest
    else (key, value) :: Graph.update rest path named

/-- What the scans of a repository tree say. -/
structure Tree where
  readsByPath : Graph
  textReferences : Graph
  roleEdges : Graph
  unresolved : List (Str × Str)

/-- One entry of the shard list. -/
structure Shard where
  name : Str
  path : Str
  scenario : Str
  kind : Str
deriving DecidableEq

def skeleton : Str := "ansible/role_skeleton"
def pullRequest : Str := "pull_request"
def mergeGroup : Str := "merge_group"
def push : Str := "push"

def everyShard : List Str :=
  ["ansible/harness/", "ansible/checks/ci_select.py", "ansible/checks/check_pins.py",
    "ansible/checks/pip-requirements.txt", "ansible/pyproject.toml", "ansible/requirements.in",
    "ansible/requirements.txt", "ansible/requirements.yml", ".ansible-lint", ".yamllint",
    ".github/workflows/ansible.yml"]

def lintOnly : List Str :=
  ["ansible/README.md", "ansible/checks/", "ansible/inventories/", "ansible/playbooks/",
    "ansible/tools/", "ansible/trust/"]

/-- `inside`: an entry that ends in a slash holds everything under it. -/
def inside (path : Str) (entries : List Str) : Bool :=
  entries.any fun entry =>
    if endsWith entry ['/'] then startsWith path entry else decide (path = entry)

def unitUnder (group path : Str) : Option Str :=
  if startsWith path group then
    let rest := path.drop group.length
    let name := rest.takeWhile (· != '/')
    if name.isEmpty || (rest.drop name.length).isEmpty then none else some (group ++ name)
  else none

/-- `UNIT`: the role or pattern directory a path is in. -/
def unitOf (path : Str) : Option Str :=
  (unitUnder "ansible/roles/" path).or (unitUnder "ansible/patterns/" path)

/-- The branches of the loop of `needed_units` over the changed paths. -/
inductive PathKind where
  | everyShard
  | unit (path : Str)
  | lintOnly
  | unnamed
  | outside
deriving DecidableEq

/-- The branch one changed path takes. -/
def kindOf (path : Str) : PathKind :=
  if inside path everyShard then .everyShard
  else match unitOf path with
    | some unit => .unit unit
    | none =>
      if startsWith path (skeleton ++ ['/']) then .unit skeleton
      else if startsWith path "ansible/" then
        if inside path lintOnly then .lintOnly else .unnamed
      else .outside

/-- The loop of `needed_units`: the units and the outside paths, or `none` for every shard. -/
def changedUnits : List Str → Finset Str → List Str → Option (Finset Str × List Str)
  | [], wanted, outside => some (wanted, outside)
  | path :: rest, wanted, outside =>
    match kindOf path with
    | .everyShard => none
    | .unit unit => changedUnits rest (insert unit wanted) outside
    | .lintOnly => changedUnits rest wanted outside
    | .unnamed => none
    | .outside => changedUnits rest wanted (outside ++ [path])

/-- Whether a changed path is a read path or under it. -/
def isRead (path read : Str) : Bool := decide (path = read) || startsWith path (read ++ ['/'])

def addReaders (reads : Graph) (wanted : Finset Str) (path : Str) : Finset Str :=
  reads.foldl (fun wanted entry => if isRead path entry.1 then wanted ∪ entry.2 else wanted)
    wanted

/-- `references`: the edges of both scans. -/
def references (tree : Tree) : Graph :=
  tree.roleEdges.foldl (fun joined entry => joined.update entry.1 entry.2) tree.textReferences

/-- Every unit that runs when another changes. -/
def Graph.values (d : Graph) : Finset Str := d.foldr (fun entry all => entry.2 ∪ all) ∅

/-- `needed_units`; `none` is every shard. -/
def neededUnits (order : SetOrder Str) (changed : List Str) (tree : Tree) : Option (Finset Str) :=
  match changedUnits changed ∅ [] with
  | none => none
  | some (named, outside) =>
    let wanted := outside.foldl (addReaders tree.readsByPath) named
    if wanted = ∅ then some wanted
    else
      let namedBy := references tree
      let closed := close order namedBy.get namedBy.values wanted
      if tree.unresolved ≠ [] then none else some closed

def select (order : SetOrder Str) (event : Str) (changed : Option (List Str))
    (shards : List Shard) (tree : Tree) : List Shard :=
  if event = push then []
  else match changed with
    | none => shards
    | some changed =>
      if event ∉ [pullRequest, mergeGroup] then shards
      else match neededUnits order changed tree with
        | none => shards
        | some wanted => shards.filter fun shard => shard.path ∈ wanted

end SharedInfra.Selection
