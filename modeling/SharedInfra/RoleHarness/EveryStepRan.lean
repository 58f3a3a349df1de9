import SharedInfra.RoleHarness.ShardList

/-!
# What green shards say

When the run of every role shard is green, the steps that no scenario may leave
out ran in every scenario, since `leftOut` names only the skippable ones.  That a
skippable step ran somewhere is decided over the scenarios that the limits read
(`RoleDir.globbed`), and these are the ones that are run only where no hidden
directory holds a `molecule.yml` (`everyStepRan_iff`).
-/

namespace SharedInfra.RoleHarness

open Python

section Results

variable (checks : Checks) (setup : RoleShard → Setup) (runs : RoleShard → Runner)

def RoleShard.result (shard : RoleShard) : Option Outcomes × List Command :=
  runRole checks (setup shard) shard.role (runs shard) shard.scenario

/-- No run raised, and none has a failed step. -/
def Green (tree : RepoTree) : Prop :=
  ∀ shard ∈ roleShards tree, ∃ outcomes, (shard.result checks setup runs).1 = some outcomes ∧
    ∀ o ∈ outcomes, o.2 ≠ .fail

structure Ran (shard : RoleShard) (name : Str) : Prop where
  passed : ∃ outcomes, (shard.result checks setup runs).1 = some outcomes ∧
    (name, Status.pass) ∈ outcomes
  started : ∃ step ∈ moleculeSteps (setup shard) shard.role shard.scenario, step.name = name ∧
    step.command ∈ (shard.result checks setup runs).2

/-- The Molecule steps that no scenario may leave out. -/
def coreSteps : List Str := ["create".toList, "prepare".toList, "converge".toList, "destroy".toList]

structure EveryStepRan (tree : RepoTree) (listed : List Selection.Shard) : Prop where
  core : ∀ shard ∈ roleShards tree, ∀ name ∈ coreSteps, Ran checks setup runs shard name
  shared : ∀ shard ∈ roleShards tree, ∀ name ∈ skippableSteps,
    ∃ other ∈ roleShards tree, other.path = shard.path ∧ Ran checks setup runs other name
  read : ∀ shard ∈ roleShards tree, ∀ name,
    name ∈ shard.role.globbed.map ScenarioDir.name ↔ name ∈ scenariosOf shard.role
  names : (listed.map Selection.Shard.name).Nodup

/-- A hidden directory that the harness reads as a scenario. -/
def HiddenScenario (role : RoleDir) : Prop :=
  ∃ dir ∈ role.molecule, dir.isDir = true ∧ isHidden dir.name = true ∧ dir.moleculeYml ≠ .absent

def NoClash (tree : RepoTree) : Prop :=
  ∀ a ∈ pairs tree, ∀ b ∈ pairs tree, ¬ Clash a.1 a.2 b.1 b.2

end Results

section StepNames

variable {setup : Setup} {role : RoleDir} {scenario name : Str} {dir : ScenarioDir}

theorem leftOut_of_mem (hmem : dir ∈ role.molecule) (hdir : dir.isDir = true) :
    leftOut role dir.name = (readSkips dir).1 := by
  have hfind : role.molecule.find? (fun entry => decide (entry.name = dir.name)) = some dir := by
    cases h : role.molecule.find? fun entry => decide (entry.name = dir.name) with
    | none =>
      have hnot := List.find?_eq_none.mp h dir hmem
      simp at hnot
    | some found =>
      have hname : found.name = dir.name := by simpa using List.find?_some h
      rw [List.inj_on_of_nodup_map role.nodup (List.mem_of_find?_eq_some h) hmem hname]
  rw [leftOut, hfind]
  exact if_pos hdir

theorem mem_skippable_of_leftOut (h : name ∈ leftOut role scenario) : name ∈ skippableSteps := by
  rw [leftOut] at h
  split at h
  · split_ifs at h
    · exact mem_readSkips h
    · cases h
  · cases h

theorem exists_step_of_command (h : name ∈ (moleculeCommands scenario).map Prod.fst) :
    ∃ step ∈ moleculeSteps setup role scenario, step.name = name ∧
      step.skipped = decide (name ∈ leftOut role scenario) := by
  obtain ⟨command, hcommand, rfl⟩ := List.mem_map.mp h
  exact ⟨_, List.mem_append_left _ (List.mem_map_of_mem hcommand), rfl, rfl⟩

theorem exists_core_step (h : name ∈ coreSteps) :
    ∃ step ∈ moleculeSteps setup role scenario, step.name = name ∧ step.skipped = false := by
  have hcore : ∀ other ∈ coreSteps, other ∉ skippableSteps := by decide
  have hcommand : name ∈ (moleculeCommands scenario).map Prod.fst ∨ name = "destroy".toList := by
    simp only [coreSteps, List.mem_cons, List.not_mem_nil, or_false] at h
    rcases h with rfl | rfl | rfl | rfl <;> simp [moleculeCommands]
  rcases hcommand with hcommand | rfl
  · obtain ⟨step, hstep, hname, hskipped⟩ :=
      @exists_step_of_command setup role scenario name hcommand
    refine ⟨step, hstep, hname, hskipped.trans (decide_eq_false fun hleft => ?_)⟩
    exact hcore name h (mem_skippable_of_leftOut hleft)
  · exact ⟨_, List.mem_append_right _ (List.mem_singleton_self _), rfl, rfl⟩

theorem exists_skippable_step (h : name ∈ skippableSteps) :
    ∃ step ∈ moleculeSteps setup role scenario, step.name = name ∧
      step.skipped = decide (name ∈ leftOut role scenario) := by
  refine exists_step_of_command ?_
  simp only [skippableSteps, List.mem_cons, List.not_mem_nil, or_false] at h
  rcases h with rfl | rfl | rfl | rfl | rfl <;> simp [moleculeCommands]

end StepNames

section Listed

variable {tree : RepoTree} {shard : RoleShard} {scenario : Str}

theorem exists_shard (h : shard ∈ roleShards tree) (hs : scenario ∈ scenariosOf shard.role) :
    ∃ other ∈ roleShards tree, other.role = shard.role ∧ other.path = shard.path ∧
      other.scenario = scenario := by
  have hgroup : ∀ group entries, shard ∈ groupShards group entries →
      ⟨shard.role, shard.path, scenario⟩ ∈ groupShards group entries := by
    intro group entries hmem
    obtain ⟨role, hrole, hmem⟩ := List.mem_flatMap.mp hmem
    obtain ⟨own, -, rfl⟩ := List.mem_map.mp hmem
    exact List.mem_flatMap.mpr ⟨role, hrole, List.mem_map_of_mem hs⟩
  refine ⟨⟨shard.role, shard.path, scenario⟩, ?_, rfl, rfl, rfl⟩
  rcases List.mem_append.mp h with h | h
  · exact List.mem_append_left _ (hgroup _ _ h)
  · exact List.mem_append_right _ (hgroup _ _ h)

theorem scenario_mem (h : shard ∈ roleShards tree) : shard.scenario ∈ scenariosOf shard.role := by
  have hgroup : ∀ group entries, shard ∈ groupShards group entries →
      shard.scenario ∈ scenariosOf shard.role := by
    intro group entries hmem
    obtain ⟨role, -, hmem⟩ := List.mem_flatMap.mp hmem
    obtain ⟨own, hown, rfl⟩ := List.mem_map.mp hmem
    exact hown
  exact (List.mem_append.mp h).elim (hgroup _ _) (hgroup _ _)

theorem head_path (h : shard ∈ roleShards tree) : shard.path.head? = some 'a' := by
  have hgroup : ∀ group entries, shard ∈ groupShards group entries →
      shard.path.head? = some 'a' := by
    intro group entries hmem
    obtain ⟨role, -, hmem⟩ := List.mem_flatMap.mp hmem
    obtain ⟨own, -, rfl⟩ := List.mem_map.mp hmem
    rfl
  exact (List.mem_append.mp h).elim (hgroup _ _) (hgroup _ _)

theorem mem_scenariosOf {role : RoleDir} {dir : ScenarioDir} (hmem : dir ∈ role.molecule)
    (hdir : dir.isDir = true) (hvisible : isHidden dir.name = false) :
    dir.name ∈ scenariosOf role := by
  by_cases hdefault : dir.name = defaultScenario
  · rw [hdefault]
    exact List.mem_cons_self
  · refine List.mem_cons_of_mem _ (List.mem_filter.mpr ⟨?_, by simpa using hdefault⟩)
    exact List.mem_map_of_mem (mem_directories.mpr ⟨hmem, hdir, hvisible⟩)

theorem nodup_names_iff {listed : List Selection.Shard} (h : shards tree = some listed) :
    (listed.map Selection.Shard.name).Nodup ↔ NoClash tree := by
  rw [shards] at h
  split_ifs at h with hempty
  obtain rfl := Option.some.inj h
  have hnames : ((roleShards tree).map RoleShard.toShard).map Selection.Shard.name =
      (pairs tree).map fun pair => shardName pair.1 pair.2 := by
    simp only [pairs, List.map_map]
    rfl
  have hfresh : freshShard.name ∉
      ((roleShards tree).map RoleShard.toShard).map Selection.Shard.name := by
    intro hmem
    simp only [List.map_map, List.mem_map, Function.comp_apply] at hmem
    obtain ⟨shard, hshard, hname⟩ := hmem
    have hletter : (shardName shard.path shard.scenario).head? = some 'a' := by
      rw [shardName]
      split_ifs
      · exact head_path hshard
      · simp [List.head?_append, head_path hshard]
    rw [show shardName shard.path shard.scenario = freshShard.name from hname] at hletter
    cases hletter
  rw [List.map_append, List.map_singleton, List.nodup_append_comm, List.singleton_append,
    List.nodup_cons, and_iff_right hfresh, hnames, List.nodup_map_iff_inj_on (nodup_pairs tree)]
  constructor
  · intro hinj a ha b hb hclash
    exact hclash.path_ne (congrArg Prod.fst (hinj a ha b hb hclash.name_eq))
  · intro hclash a ha b hb hname
    rcases shardName_eq_iff.mp hname with hsame | hab | hba
    · exact Prod.ext hsame.1 hsame.2
    · exact absurd hab (hclash a ha b hb)
    · exact absurd hba (hclash b hb a ha)

end Listed

section Theorem

variable {checks : Checks} {setup : RoleShard → Setup} {runs : RoleShard → Runner}
  {tree : RepoTree} {shard : RoleShard} {name : Str}

theorem ran_of_green (hgreen : Green checks setup runs tree) (hshard : shard ∈ roleShards tree)
    (h : ∃ step ∈ moleculeSteps (setup shard) shard.role shard.scenario,
      step.name = name ∧ step.skipped = false) : Ran checks setup runs shard name := by
  obtain ⟨outcomes, hresult, hpass⟩ := hgreen shard hshard
  obtain ⟨step, hstep, rfl, hrun⟩ := h
  obtain ⟨hpassed, hstarted⟩ := (green_runRole hresult hpass).2 step hstep hrun
  exact ⟨⟨outcomes, hresult, hpassed⟩, step, hstep, rfl, hstarted⟩

theorem limits_of_green (hgreen : Green checks setup runs tree)
    (hshard : shard ∈ roleShards tree) :
    checkScenarios checks.scenarioProblems shard.role shard.scenario = [] := by
  obtain ⟨outcomes, hresult, hpass⟩ := hgreen shard hshard
  exact (green_runRole hresult hpass).1

theorem mem_globbed_of_listed (hgreen : Green checks setup runs tree)
    (hshard : shard ∈ roleShards tree) (hname : name ∈ scenariosOf shard.role) :
    ∃ dir ∈ shard.role.globbed, dir.name = name := by
  obtain ⟨other, hother, hrole, -, rfl⟩ := exists_shard hshard hname
  have hfile := hasScenarioFile_of_checkScenarios (limits_of_green hgreen hother)
  rw [hrole] at hfile
  obtain ⟨dir, hmem, hdirname, hdir, text, htext⟩ := hasScenarioFile_iff.mp hfile
  exact ⟨dir, mem_globbed.mpr ⟨hmem, hdir, by simp [htext]⟩, hdirname⟩

theorem read_iff (hgreen : Green checks setup runs tree) (hshard : shard ∈ roleShards tree) :
    (∀ name, name ∈ shard.role.globbed.map ScenarioDir.name ↔ name ∈ scenariosOf shard.role) ↔
      ¬ HiddenScenario shard.role := by
  constructor
  · rintro hread ⟨dir, hmem, hdir, hhidden, hfile⟩
    have hlisted := (hread dir.name).mp
      (List.mem_map_of_mem (mem_globbed.mpr ⟨hmem, hdir, hfile⟩))
    rcases List.mem_cons.mp hlisted with hdefault | hother
    · rw [hdefault] at hhidden
      cases hhidden
    · obtain ⟨entry, hentry, hname⟩ := List.mem_map.mp (List.mem_filter.mp hother).1
      have hvisible := (mem_directories.mp hentry).2.2
      rw [hname, hhidden] at hvisible
      cases hvisible
  · intro hnone name
    constructor
    · intro hread
      obtain ⟨dir, hglobbed, rfl⟩ := List.mem_map.mp hread
      obtain ⟨hmem, hdir, hfile⟩ := mem_globbed.mp hglobbed
      refine mem_scenariosOf hmem hdir ?_
      cases hhidden : isHidden dir.name with
      | false => rfl
      | true => exact absurd ⟨dir, hmem, hdir, hhidden, hfile⟩ hnone
    · intro hlisted
      obtain ⟨dir, hglobbed, rfl⟩ := mem_globbed_of_listed hgreen hshard hlisted
      exact List.mem_map_of_mem hglobbed

theorem exists_ran (hgreen : Green checks setup runs tree) (hshard : shard ∈ roleShards tree)
    (hnone : ¬ HiddenScenario shard.role) (hname : name ∈ skippableSteps) :
    ∃ other ∈ roleShards tree, other.path = shard.path ∧ Ran checks setup runs other name := by
  obtain ⟨own, hown, -⟩ := mem_globbed_of_listed hgreen hshard (scenario_mem hshard)
  obtain ⟨dir, hglobbed, hruns⟩ :=
    exists_of_skipProblems (skipProblems_of_checkScenarios (limits_of_green hgreen hshard))
      (List.ne_nil_of_mem hown) hname
  have hlisted := ((read_iff hgreen hshard).mpr hnone dir.name).mp (List.mem_map_of_mem hglobbed)
  obtain ⟨other, hother, hrole, hpath, hscenario⟩ := exists_shard hshard hlisted
  refine ⟨other, hother, hpath, ran_of_green hgreen hother ?_⟩
  obtain ⟨step, hstep, hstepname, hskipped⟩ :=
    @exists_skippable_step (setup other) other.role other.scenario name hname
  refine ⟨step, hstep, hstepname, hskipped.trans (decide_eq_false ?_)⟩
  obtain ⟨hmem, hdir, -⟩ := mem_globbed.mp hglobbed
  rw [hrole, hscenario, leftOut_of_mem hmem hdir]
  exact hruns

/-- Green shards ran every step exactly when no listed directory has a hidden scenario and no two
shards clash by name. -/
theorem everyStepRan_iff {listed : List Selection.Shard} (hlisted : shards tree = some listed)
    (hgreen : Green checks setup runs tree) :
    EveryStepRan checks setup runs tree listed ↔
      (∀ shard ∈ roleShards tree, ¬ HiddenScenario shard.role) ∧ NoClash tree := by
  constructor
  · intro h
    exact ⟨fun shard hshard => (read_iff hgreen hshard).mp (h.read shard hshard),
      (nodup_names_iff hlisted).mp h.names⟩
  · rintro ⟨hnone, hclash⟩
    exact
      { core := fun shard hshard name hname => ran_of_green hgreen hshard (exists_core_step hname)
        shared := fun shard hshard name hname =>
          exists_ran hgreen hshard (hnone shard hshard) hname
        read := fun shard hshard => (read_iff hgreen hshard).mpr (hnone shard hshard)
        names := (nodup_names_iff hlisted).mpr hclash }

/-! A role with one visible scenario, alone and beside a hidden directory that is read as a second
one.  Every command succeeds. -/

def plainChecks : Checks where
  minVersion _ := none
  argumentSpecs _ _ := none
  scenarioProblems _ := []

def quiet : Runner := fun _ _ => ⟨0, [], []⟩

def plainSetup : RoleShard → Setup := fun _ => ⟨[], [], [], [], []⟩

def oneRole (role : RoleDir) : RepoTree where
  roles := [role]
  patterns := []
  rolesNodup := by simp
  patternsNodup := by simp

theorem report_quiet (step : Step) : report step ⟨0, [], []⟩ = some .pass := by
  rw [report]
  cases step.noChanges <;> rfl

theorem runMoleculeFrom_quiet (steps : List Step) (started : List Command) :
    (runMoleculeFrom quiet steps false started).1 =
      some (steps.map fun step => (step.name, if step.skipped then .skip else .pass)) := by
  induction steps generalizing started with
  | nil => rfl
  | cons step steps ih =>
    cases hskip : step.skipped with
    | true =>
      rw [runMoleculeFrom_skip (by simp [hskip]), ih]
      simp [hskip]
    | false =>
      rw [runMoleculeFrom_run (by simp [hskip]) (report_quiet step)]
      simp only [Bool.false_or]
      rw [show (Status.pass == Status.fail) = false from rfl, ih]
      simp [hskip]

/-- The steps before those of Molecule, all passed. -/
def quietChecked : Outcomes :=
  [("min-version".toList, .pass), ("argument-specs".toList, .pass),
    ("scenario-limits".toList, .pass), ("ansible-lint".toList, .pass), ("yamllint".toList, .pass)]

theorem result_quiet {shard : RoleShard}
    (h : checkScenarios plainChecks.scenarioProblems shard.role shard.scenario = []) :
    (shard.result plainChecks plainSetup fun _ => quiet).1 =
      some (quietChecked ++ (moleculeSteps (plainSetup shard) shard.role shard.scenario).map
        fun step => (step.name, if step.skipped then .skip else .pass)) := by
  have hstatic : ∃ started, runStatic quiet (staticSteps (plainSetup shard))
      [argumentSpecsCommand (plainSetup shard)] =
        (some [("ansible-lint".toList, .pass), ("yamllint".toList, .pass)], started) := by
    simp only [runStatic, staticSteps, quiet, report_quiet]
    exact ⟨_, rfl⟩
  obtain ⟨started, hstatic⟩ := hstatic
  have hloop := runMoleculeFrom_quiet
    (moleculeSteps (plainSetup shard) shard.role shard.scenario) started
  rw [RoleShard.result, runRole]
  simp only [hstatic, h, if_pos]
  rcases hran : runMoleculeFrom quiet (moleculeSteps (plainSetup shard) shard.role shard.scenario)
    false started with ⟨_ | outcomes, last⟩
  · simp [hran] at hloop
  · rw [hran] at hloop
    simp only [runMolecule, hran, Option.map_some, Option.some.inj hloop]
    rfl

theorem roleShards_oneRole {role : RoleDir} (hdir : role.isDir = true)
    (hvisible : isHidden role.name = false) (hs : scenariosOf role = [defaultScenario]) :
    roleShards (oneRole role) =
      [⟨role, "ansible/roles/".toList ++ role.name, defaultScenario⟩] := by
  have hrole : directories RoleDir.name RoleDir.isDir [role] = [role] := by
    simp [directories, hdir, hvisible]
  have hnone : directories RoleDir.name RoleDir.isDir [] = [] := by simp [directories]
  simp only [roleShards, oneRole, groupShards, hrole, hnone, List.flatMap_cons, List.flatMap_nil,
    hs]
  rfl

def visibleScenario (skips : Option Str) : ScenarioDir := ⟨defaultScenario, true, .file [], skips⟩

def hiddenScenario : ScenarioDir := ⟨['.', 'x'], true, .file [], none⟩

def plainRole : RoleDir := ⟨['r'], true, [visibleScenario none], List.nodup_singleton _⟩

def hiddenRole : RoleDir :=
  ⟨['r'], true, [hiddenScenario, visibleScenario (some "verify".toList)], by decide⟩

theorem roleShards_plain : roleShards (oneRole plainRole) =
    [⟨plainRole, "ansible/roles/".toList ++ ['r'], defaultScenario⟩] := by
  refine roleShards_oneRole rfl rfl ?_
  simp [scenariosOf, directories, plainRole, visibleScenario]

theorem roleShards_hidden : roleShards (oneRole hiddenRole) =
    [⟨hiddenRole, "ansible/roles/".toList ++ ['r'], defaultScenario⟩] := by
  refine roleShards_oneRole rfl rfl ?_
  have hvisible : hiddenRole.molecule.filter
      (fun dir => dir.isDir && !isHidden dir.name) = [visibleScenario (some "verify".toList)] := rfl
  simp [scenariosOf, directories, hvisible, visibleScenario]

theorem limits_plain : checkScenarios (fun _ => []) plainRole defaultScenario = [] := by
  have hread : plainRole.globbed = [visibleScenario none] := by
    simp [RoleDir.globbed, plainRole, visibleScenario]
  rw [checkScenarios, skipProblems, hread]
  rfl

theorem limits_hidden : checkScenarios (fun _ => []) hiddenRole defaultScenario = [] := by
  have hread : hiddenRole.globbed = [hiddenScenario, visibleScenario (some "verify".toList)] := by
    refine List.mergeSort_of_pairwise ?_
    have hsorted : hiddenScenario.name ≤ (visibleScenario (some "verify".toList)).name := by decide
    exact List.pairwise_pair.mpr (decide_eq_true hsorted)
  rw [checkScenarios, skipProblems, hread]
  rfl

theorem green_of_limits {role : RoleDir} {shard : RoleShard}
    (h : roleShards (oneRole role) = [shard])
    (hlimits : checkScenarios (fun _ => []) shard.role shard.scenario = []) :
    Green plainChecks plainSetup (fun _ => quiet) (oneRole role) := by
  intro other hother
  obtain rfl := List.mem_singleton.mp (h ▸ hother)
  refine ⟨_, result_quiet hlimits, fun o ho => ?_⟩
  rcases List.mem_append.mp ho with ho | ho
  · simp only [quietChecked, List.mem_cons, List.not_mem_nil, or_false] at ho
    rcases ho with rfl | rfl | rfl | rfl | rfl <;> exact Status.noConfusion
  · obtain ⟨step, -, rfl⟩ := List.mem_map.mp ho
    cases step.skipped <;> exact Status.noConfusion

theorem shards_of_single {tree : RepoTree} {shard : RoleShard} (h : roleShards tree = [shard]) :
    shards tree = some [shard.toShard, freshShard] := by
  rw [shards, h]
  exact if_neg (List.cons_ne_nil _ _)

theorem everyStepRan_plain :
    EveryStepRan plainChecks plainSetup (fun _ => quiet) (oneRole plainRole)
        [RoleShard.toShard ⟨plainRole, "ansible/roles/".toList ++ ['r'], defaultScenario⟩,
          freshShard] ↔
      (∀ shard ∈ roleShards (oneRole plainRole), ¬ HiddenScenario shard.role) ∧
        NoClash (oneRole plainRole) :=
  everyStepRan_iff (shards_of_single roleShards_plain)
    (green_of_limits roleShards_plain limits_plain)

/-- The hidden directory is counted as a scenario and has no shard: `verify` ran nowhere. -/
theorem hidden_scenario_drops_verify :
    ∃ listed, shards (oneRole hiddenRole) = some listed ∧
      Green plainChecks plainSetup (fun _ => quiet) (oneRole hiddenRole) ∧
      ¬ EveryStepRan plainChecks plainSetup (fun _ => quiet) (oneRole hiddenRole) listed := by
  refine ⟨[_, freshShard], shards_of_single roleShards_hidden,
    green_of_limits roleShards_hidden limits_hidden, ?_⟩
  intro h
  obtain ⟨other, hother, -, ⟨outcomes, hresult, hpass⟩, -⟩ := h.shared
    ⟨hiddenRole, "ansible/roles/".toList ++ ['r'], defaultScenario⟩
    (by rw [roleShards_hidden]; exact List.mem_singleton_self _) "verify".toList (by decide)
  rw [roleShards_hidden] at hother
  obtain rfl := List.mem_singleton.mp hother
  rw [@result_quiet ⟨hiddenRole, "ansible/roles/".toList ++ ['r'], defaultScenario⟩ limits_hidden]
    at hresult
  obtain rfl := Option.some.inj hresult
  revert hpass
  decide

end Theorem

end SharedInfra.RoleHarness
