import SharedInfra.PullTrigger.RecapCount
import SharedInfra.RoleHarness.Scenarios

/-!
# A run of the harness

The steps of one scenario of a role, the report of a step, and the run: the
checks of the role, the lint steps and the Molecule steps, of which those after
a failure are left out but for the ones that always run.  What a command does
is a parameter that may depend on the commands before it; the environment of a
command and its working time are left out.
-/

namespace SharedInfra.RoleHarness

open Python Sequences Matcher

structure Step where
  name : Str
  argv : List Str
  cwd : Str
  always : Bool := false
  noChanges : Bool := false
  skipped : Bool := false
  deriving DecidableEq

/-- A command, as it is started. -/
structure Command where
  argv : List Str
  cwd : Str
  deriving DecidableEq

def Step.command (step : Step) : Command := ⟨step.argv, step.cwd⟩

/-- `subprocess.CompletedProcess` -/
structure Completed where
  returncode : Int
  stdout : Str
  stderr : Str

/-- What a command does, after the commands started before it. -/
abbrev Runner := List Command → Command → Completed

/-- `OK`, `FAIL` and `SKIP`. -/
inductive Status where
  | pass
  | fail
  | skip
  deriving DecidableEq

abbrev Outcomes := List (Str × Status)

/-- `^\S+\s*:\s+ok=\d+\s+changed=(\d+)` -/
def changedLine : Matcher Char Str := do
  let _ ← plus fun c => !isSpace c
  let _ ← star isSpace
  word ":"
  let _ ← PullTrigger.countField "ok="
  PullTrigger.countField "changed="

/-- `changed_tasks`; `none` is a `ValueError` of `int`. -/
def changedTasks (output : Str) : Option Nat :=
  ((findAll '\n' changedLine output).mapM intOfDigits).map List.sum

/-- The status that `report` returns, or an exception. -/
def report (step : Step) (done : Completed) : Option Status :=
  let status := if done.returncode = 0 then Status.pass else .fail
  let changed := if step.noChanges then changedTasks (done.stdout ++ done.stderr) else some 0
  changed.map fun changed => if status = .pass ∧ changed ≠ 0 then .fail else status

/-- The directories of a run: the program's tools, the repository and the role. -/
structure Setup where
  tools : Str
  repoRoot : Str
  role : Str
  roleParent : Str
  roleName : Str

/-- `static_steps`, of a role in the repository. -/
def staticSteps (setup : Setup) : List Step :=
  [{ name := "ansible-lint".toList
     argv := [setup.tools ++ "/ansible-lint".toList, "--strict".toList, "--config-file".toList,
       setup.repoRoot ++ "/.ansible-lint".toList, setup.role]
     cwd := setup.repoRoot },
    { name := "yamllint".toList
      argv := [setup.tools ++ "/yamllint".toList, "--strict".toList, "-c".toList,
        setup.repoRoot ++ "/.yamllint".toList, setup.role]
      cwd := setup.roleParent }]

/-- `read_skips(role / "molecule" / scenario)[0]` -/
def leftOut (role : RoleDir) (scenario : Str) : List Str :=
  match role.molecule.find? (·.name = scenario) with
  | some dir => if dir.isDir then (readSkips dir).1 else []
  | none => []

/-- The names and arguments of the Molecule steps before `destroy`. -/
def moleculeCommands (scenario : Str) : List (Str × List Str) :=
  let named := ["-s".toList, scenario]
  let inCheckMode := "converge".toList :: named ++ ["--".toList, "--check".toList, "--diff".toList]
  [("create".toList, "create".toList :: named),
    ("prepare".toList, "prepare".toList :: named),
    ("check-fresh".toList, inCheckMode),
    ("converge".toList, "converge".toList :: named),
    ("idempotence".toList, "idempotence".toList :: named),
    ("verify".toList, "verify".toList :: named),
    ("check-configured".toList, inCheckMode),
    ("molecule-check".toList, "check".toList :: named)]

def moleculeSteps (setup : Setup) (role : RoleDir) (scenario : Str) : List Step :=
  let molecule := setup.tools ++ "/molecule".toList
  let skips := leftOut role scenario
  (moleculeCommands scenario).map (fun (name, args) =>
    { name := name
      argv := molecule :: args
      cwd := setup.role
      noChanges := name == "check-configured".toList
      skipped := name ∈ skips }) ++
    [{ name := "destroy".toList
       argv := [molecule, "destroy".toList, "-s".toList, scenario]
       cwd := setup.role
       always := true }]

/-- The loop of `run_molecule`: the outcomes, or an exception, and the commands started. -/
def runMoleculeFrom (run : Runner) :
    List Step → Bool → List Command → Option Outcomes × List Command
  | [], _, started => (some [], started)
  | step :: steps, broken, started =>
    if step.skipped || (broken && !step.always) then
      let (rest, started) := runMoleculeFrom run steps broken started
      (rest.map ((step.name, .skip) :: ·), started)
    else
      match report step (run started step.command) with
      | none => (none, started ++ [step.command])
      | some status =>
        let (rest, started) := runMoleculeFrom run steps (broken || status == .fail)
          (started ++ [step.command])
        (rest.map ((step.name, status) :: ·), started)

/-- `run_molecule`: an exception still runs the steps that always run. -/
def runMolecule (run : Runner) (steps : List Step) (started : List Command) :
    Option Outcomes × List Command :=
  match runMoleculeFrom run steps false started with
  | (some outcomes, started) => (some outcomes, started)
  | (none, started) => (none, started ++ (steps.filter (·.always)).map Step.command)

/-- The loop over the static steps. -/
def runStatic (run : Runner) : List Step → List Command → Option Outcomes × List Command
  | [], started => (some [], started)
  | step :: steps, started =>
    match report step (run started step.command) with
    | none => (none, started ++ [step.command])
    | some status =>
      let (rest, started) := runStatic run steps (started ++ [step.command])
      (rest.map ((step.name, status) :: ·), started)

/-- The checks of a role that do not concern its scenarios or their steps: `check_min_version` with
the pinned version, what `check_argument_specs` makes of the output of its command, and
`scenario_problems`. -/
structure Checks where
  minVersion : RoleDir → Option Str
  argumentSpecs : RoleDir → Completed → Option Str
  scenarioProblems : Str → List Str

def problemStatus (problem : Bool) : Status := if problem then .fail else .pass

/-- The command of `check_argument_specs`. -/
def argumentSpecsCommand (setup : Setup) : Command where
  argv := [setup.tools ++ "/ansible-doc".toList, "-t".toList, "role".toList, "--json".toList,
    "--roles-path".toList, setup.roleParent, setup.roleName]
  cwd := setup.role

def runRole (checks : Checks) (setup : Setup) (role : RoleDir) (run : Runner) (scenario : Str) :
    Option Outcomes × List Command :=
  let minVersion := problemStatus (checks.minVersion role).isSome
  let done := run [] (argumentSpecsCommand setup)
  let specs := problemStatus (checks.argumentSpecs role done).isSome
  let limits := checkScenarios checks.scenarioProblems role scenario
  let checked : Outcomes := [("min-version".toList, minVersion), ("argument-specs".toList, specs),
    ("scenario-limits".toList, problemStatus (limits != []))]
  match runStatic run (staticSteps setup) [argumentSpecsCommand setup] with
  | (none, started) => (none, started)
  | (some linted, started) =>
    let steps := moleculeSteps setup role scenario
    let ran := if limits = [] then runMolecule run steps started
      else (some (steps.map fun step => (step.name, .skip)), started)
    (ran.1.map ((checked ++ linted) ++ ·), ran.2)

section Facts

variable {run : Runner} {steps : List Step} {broken : Bool} {started after : List Command}
  {outcomes : Outcomes}

theorem report_ne_skip {step : Step} {done : Completed} : report step done ≠ some .skip := by
  intro h
  rw [report, Option.map_eq_some_iff] at h
  obtain ⟨changed, -, h⟩ := h
  split_ifs at h

theorem runMoleculeFrom_skip {step : Step}
    (h : (step.skipped || (broken && !step.always)) = true) :
    runMoleculeFrom run (step :: steps) broken started =
      ((runMoleculeFrom run steps broken started).1.map ((step.name, .skip) :: ·),
        (runMoleculeFrom run steps broken started).2) := by
  exact if_pos h

theorem runMoleculeFrom_run {step : Step} {status : Status}
    (h : (step.skipped || (broken && !step.always)) = false)
    (hreport : report step (run started step.command) = some status) :
    runMoleculeFrom run (step :: steps) broken started =
      ((runMoleculeFrom run steps (broken || status == .fail) (started ++ [step.command])).1.map
        ((step.name, status) :: ·),
        (runMoleculeFrom run steps (broken || status == .fail) (started ++ [step.command])).2) := by
  refine (if_neg (by simp [h])).trans ?_
  rw [hreport]

theorem runMoleculeFrom_raise {step : Step}
    (h : (step.skipped || (broken && !step.always)) = false)
    (hreport : report step (run started step.command) = none) :
    runMoleculeFrom run (step :: steps) broken started = (none, started ++ [step.command]) := by
  refine (if_neg (by simp [h])).trans ?_
  rw [hreport]

theorem started_subset (run : Runner) (steps : List Step) (broken : Bool)
    (started : List Command) : started ⊆ (runMoleculeFrom run steps broken started).2 := by
  induction steps generalizing broken started with
  | nil => exact List.Subset.refl _
  | cons step steps ih =>
    cases hskip : step.skipped || (broken && !step.always) with
    | true =>
      rw [runMoleculeFrom_skip hskip]
      exact ih broken started
    | false =>
      cases hreport : report step (run started step.command) with
      | none =>
        rw [runMoleculeFrom_raise hskip hreport]
        exact List.subset_append_left _ _
      | some status =>
        rw [runMoleculeFrom_run hskip hreport]
        exact List.Subset.trans (List.subset_append_left _ _) (ih _ _)

theorem passed_of_green (h : (runMoleculeFrom run steps false started).1 = some outcomes)
    (hgreen : ∀ o ∈ outcomes, o.2 ≠ .fail) {step : Step} (hstep : step ∈ steps)
    (hrun : step.skipped = false) : (step.name, .pass) ∈ outcomes ∧
      step.command ∈ (runMoleculeFrom run steps false started).2 := by
  induction steps generalizing started outcomes with
  | nil => cases hstep
  | cons first steps ih =>
    cases hskip : first.skipped with
    | true =>
      have hcond : (first.skipped || (false && !first.always)) = true := by simp [hskip]
      rw [runMoleculeFrom_skip hcond] at h ⊢
      obtain ⟨rest, hrest, rfl⟩ := Option.map_eq_some_iff.mp h
      rcases List.mem_cons.mp hstep with rfl | hstep
      · rw [hskip] at hrun
        cases hrun
      · obtain ⟨hpass, hcommand⟩ :=
          ih hrest (fun o ho => hgreen o (List.mem_cons_of_mem _ ho)) hstep
        exact ⟨List.mem_cons_of_mem _ hpass, hcommand⟩
    | false =>
      have hcond : (first.skipped || (false && !first.always)) = false := by simp [hskip]
      cases hreport : report first (run started first.command) with
      | none =>
        rw [runMoleculeFrom_raise hcond hreport] at h
        cases h
      | some status =>
        rw [runMoleculeFrom_run hcond hreport] at h ⊢
        obtain ⟨rest, hrest, rfl⟩ := Option.map_eq_some_iff.mp h
        have hpassed : status = .pass := by
          cases status with
          | pass => rfl
          | fail => exact absurd rfl (hgreen _ List.mem_cons_self)
          | skip => exact absurd hreport report_ne_skip
        subst hpassed
        rcases List.mem_cons.mp hstep with rfl | hstep
        · refine ⟨List.mem_cons_self, started_subset _ _ _ _ ?_⟩
          exact List.mem_append_right _ (List.mem_singleton_self _)
        · obtain ⟨hpass, hcommand⟩ :=
            ih hrest (fun o ho => hgreen o (List.mem_cons_of_mem _ ho)) hstep
          exact ⟨List.mem_cons_of_mem _ hpass, hcommand⟩

variable {checks : Checks} {setup : Setup} {role : RoleDir} {scenario : Str}

theorem green_runRole (h : (runRole checks setup role run scenario).1 = some outcomes)
    (hgreen : ∀ o ∈ outcomes, o.2 ≠ .fail) :
    checkScenarios checks.scenarioProblems role scenario = [] ∧
      ∀ step ∈ moleculeSteps setup role scenario, step.skipped = false →
        (step.name, .pass) ∈ outcomes ∧
          step.command ∈ (runRole checks setup role run scenario).2 := by
  rw [runRole] at h ⊢
  simp only at h ⊢
  rcases hstatic : runStatic run (staticSteps setup) [argumentSpecsCommand setup] with
    ⟨_ | linted, started⟩
  · simp [hstatic] at h
  · simp only [hstatic] at h ⊢
    obtain ⟨ran, hran, rfl⟩ := Option.map_eq_some_iff.mp h
    have hlimits : checkScenarios checks.scenarioProblems role scenario = [] := by
      by_contra hne
      refine hgreen ("scenario-limits".toList, problemStatus
        (checkScenarios checks.scenarioProblems role scenario != [])) ?_ ?_
      · simp
      · simp [problemStatus, hne]
    rw [if_pos hlimits] at hran ⊢
    refine ⟨hlimits, fun step hstep hrun => ?_⟩
    rcases hloop : runMoleculeFrom run (moleculeSteps setup role scenario) false started with
      ⟨_ | outcomes, last⟩
    · simp [runMolecule, hloop] at hran
    · have hall : runMolecule run (moleculeSteps setup role scenario) started =
          (some outcomes, last) := by simp [runMolecule, hloop]
      rw [hall] at hran ⊢
      obtain rfl := Option.some.inj hran
      have hpassed := passed_of_green (by rw [hloop])
        (fun o ho => hgreen o (List.mem_append_right _ ho)) hstep hrun
      rw [hloop] at hpassed
      exact ⟨List.mem_append_right _ hpassed.1, hpassed.2⟩

end Facts

end SharedInfra.RoleHarness
