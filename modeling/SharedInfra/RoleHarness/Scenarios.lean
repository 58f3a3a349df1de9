import SharedInfra.Python.Text

/-!
# The scenarios of a role

What the harness reads of the `molecule/` directory of a role: the steps a
scenario leaves out, and the limits that every scenario of the role is held to,
whichever one the run is for.
-/

namespace SharedInfra.RoleHarness

open Python

/-- What stands at a path. -/
inductive PathState where
  | absent
  /-- A link to nothing. -/
  | dangling
  /-- Something that is not a regular file. -/
  | other
  | file (text : Str)
  deriving DecidableEq

/-- An entry of `molecule/`, followed if it is a link: its `molecule.yml` and the text of its
`skip-steps.txt`, if that is a file. -/
structure ScenarioDir where
  name : Str
  isDir : Bool
  moleculeYml : PathState
  skipSteps : Option Str
  deriving DecidableEq

/-- A directory of a role or a pattern, with the entries of its `molecule/`. -/
structure RoleDir where
  name : Str
  isDir : Bool
  molecule : List ScenarioDir
  nodup : (molecule.map ScenarioDir.name).Nodup

/-- A path of the role is a regular file, or a link to one. -/
def RoleDir.hasScenarioFile (role : RoleDir) (scenario : Str) : Bool :=
  role.molecule.any fun dir =>
    dir.name == scenario && dir.isDir &&
      match dir.moleculeYml with
      | .file _ => true
      | _ => false

/-- `sorted((role / "molecule").glob("*/molecule.yml"))`, each by its directory; the star takes
hidden directories too. -/
def RoleDir.globbed (role : RoleDir) : List ScenarioDir :=
  (role.molecule.filter fun dir => dir.isDir && dir.moleculeYml != .absent).mergeSort
    fun a b => decide (a.name ≤ b.name)

def defaultScenario : Str := "default".toList

def skipFile : Str := "skip-steps.txt".toList

def skippableSteps : List Str :=
  ["check-fresh".toList, "idempotence".toList, "verify".toList, "check-configured".toList,
    "molecule-check".toList]

def readSkips (dir : ScenarioDir) : List Str × List Str :=
  match dir.skipSteps with
  | none => ([], [])
  | some text =>
    let label := "molecule/".toList ++ dir.name ++ "/".toList ++ skipFile
    let lines := (splitlines text).map strip
    let names := (lines.filter fun line => line ≠ [] ∧ !startsWith line "#".toList).eraseDups
    let refused := names.filter fun name => name ∉ skippableSteps
    if refused = [] then (names, [])
    else ([], [label ++ ": cannot leave out ".toList ++ joinWith ", ".toList refused ++
      " (only ".toList ++ joinWith ", ".toList skippableSteps ++ " may be)".toList])

def skipProblems (role : RoleDir) : List Str :=
  let read := role.globbed.map readSkips
  let dropped := skippableSteps.filter fun step => read.all fun skips => step ∈ skips.1
  read.flatMap (·.2) ++ if read = [] then []
    else dropped.map fun step => step ++ " runs in no scenario: every scenario's ".toList ++
      skipFile ++ " leaves it out".toList

/-- `check_scenarios`; `problems` is `scenario_problems`, over the text of a `molecule.yml`. -/
def checkScenarios (problems : Str → List Str) (role : RoleDir) (scenario : Str) : List Str :=
  let wanted := [defaultScenario, scenario].eraseDups
  let missing := wanted.filter fun name => !role.hasScenarioFile name
  let path := fun name : Str => "molecule/".toList ++ name ++ "/molecule.yml".toList
  missing.map (fun name => path name ++ " is missing".toList) ++
    role.globbed.flatMap (fun dir =>
      match dir.moleculeYml with
      | .file text => (problems text).map fun found => path dir.name ++ ": ".toList ++ found
      | _ => [path dir.name ++ ": is not a readable file (a link to nothing?)".toList]) ++
    skipProblems role

section Facts

variable {role : RoleDir} {dir : ScenarioDir} {scenario step : Str}

theorem mem_globbed : dir ∈ role.globbed ↔
    dir ∈ role.molecule ∧ dir.isDir = true ∧ dir.moleculeYml ≠ .absent := by
  simp [RoleDir.globbed, List.mem_mergeSort, List.mem_filter]

theorem hasScenarioFile_iff : role.hasScenarioFile scenario = true ↔
    ∃ dir ∈ role.molecule, dir.name = scenario ∧ dir.isDir = true ∧
      ∃ text, dir.moleculeYml = .file text := by
  simp only [RoleDir.hasScenarioFile, List.any_eq_true, Bool.and_eq_true, beq_iff_eq]
  refine exists_congr fun dir => and_congr_right fun _ => ?_
  rw [and_assoc]
  refine and_congr_right fun _ => and_congr_right fun _ => ?_
  cases dir.moleculeYml <;> simp

theorem mem_readSkips (h : step ∈ (readSkips dir).1) : step ∈ skippableSteps := by
  rw [readSkips] at h
  split at h
  · cases h
  · simp only at h
    split_ifs at h with hrefused
    · by_contra hnot
      exact List.filter_eq_nil_iff.mp hrefused step h (by simpa using hnot)
    · cases h

theorem exists_of_skipProblems (h : skipProblems role = []) (hne : role.globbed ≠ [])
    (hstep : step ∈ skippableSteps) : ∃ dir ∈ role.globbed, step ∉ (readSkips dir).1 := by
  obtain ⟨-, hdropped⟩ := List.append_eq_nil_iff.mp h
  rw [if_neg (by simpa using hne), List.map_eq_nil_iff, List.filter_eq_nil_iff] at hdropped
  have hnot := hdropped step hstep
  simp only [List.all_map, List.all_eq_true, Function.comp_apply, decide_eq_true_eq] at hnot
  push Not at hnot
  exact hnot

theorem skipProblems_of_checkScenarios {problems : Str → List Str}
    (h : checkScenarios problems role scenario = []) : skipProblems role = [] :=
  (List.append_eq_nil_iff.mp h).2

theorem hasScenarioFile_of_checkScenarios {problems : Str → List Str}
    (h : checkScenarios problems role scenario = []) : role.hasScenarioFile scenario = true := by
  obtain ⟨hmissing, -⟩ := List.append_eq_nil_iff.mp (List.append_eq_nil_iff.mp h).1
  rw [List.map_eq_nil_iff, List.filter_eq_nil_iff] at hmissing
  have hmem : scenario ∈ [defaultScenario, scenario].eraseDups := by
    simp [List.mem_eraseDups]
  simpa using hmissing scenario hmem

end Facts

end SharedInfra.RoleHarness
