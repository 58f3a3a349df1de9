import SharedInfra.RoleHarness.Run
import SharedInfra.Selection.ShardSelection

/-!
# The shard list

`list_shards.py`: one shard for every scenario directory of every role and
pattern, and the name each is shown by.  Two shards have one name exactly when a
directory is named like another with a scenario behind it (`shardName_eq_iff`).
-/

namespace SharedInfra.RoleHarness

open Python

structure RepoTree where
  roles : List RoleDir
  patterns : List RoleDir
  rolesNodup : (roles.map RoleDir.name).Nodup
  patternsNodup : (patterns.map RoleDir.name).Nodup

/-- `entry.name.startswith(".")` -/
def isHidden (name : Str) : Bool := startsWith name ['.']

/-- `directories`, of the entries of a directory. -/
def directories {α : Type} (name : α → Str) (isDir : α → Bool) (entries : List α) : List α :=
  (entries.filter fun entry => isDir entry && !isHidden (name entry)).mergeSort
    fun a b => decide (name a ≤ name b)

def scenariosOf (role : RoleDir) : List Str :=
  let others := (directories ScenarioDir.name ScenarioDir.isDir role.molecule).map ScenarioDir.name
  defaultScenario :: others.filter (· ≠ defaultScenario)

def shardName (path scenario : Str) : Str :=
  if scenario = defaultScenario then path else path ++ " (".toList ++ scenario ++ ")".toList

structure RoleShard where
  role : RoleDir
  path : Str
  scenario : Str

def groupShards (group : Str) (entries : List RoleDir) : List RoleShard :=
  (directories RoleDir.name RoleDir.isDir entries).flatMap fun role =>
    (scenariosOf role).map fun scenario =>
      ⟨role, "ansible/".toList ++ group ++ "/".toList ++ role.name, scenario⟩

def roleShards (tree : RepoTree) : List RoleShard :=
  groupShards "roles".toList tree.roles ++ groupShards "patterns".toList tree.patterns

def RoleShard.toShard (shard : RoleShard) : Selection.Shard where
  name := shardName shard.path shard.scenario
  path := shard.path
  scenario := shard.scenario
  kind := "role".toList

def freshShard : Selection.Shard where
  name := "fresh role from the skeleton".toList
  path := Selection.skeleton
  scenario := defaultScenario
  kind := "skeleton".toList

/-- `shards`; `none` is a `NothingToTestError`. -/
def shards (tree : RepoTree) : Option (List Selection.Shard) :=
  let found := (roleShards tree).map RoleShard.toShard
  if found = [] then none
  else some (found ++ [freshShard])

section Names

variable {p q r s : Str}

/-- One directory is named like another with the name of a scenario behind it. -/
def Clash (p s q r : Str) : Prop :=
  (s = defaultScenario ∧ r ≠ defaultScenario ∧ p = q ++ " (".toList ++ r ++ ")".toList) ∨
    (s ≠ defaultScenario ∧ r ≠ defaultScenario ∧
      ∃ v, p = q ++ " (".toList ++ v ∧ r = v ++ " (".toList ++ s)

theorem Clash.path_ne (h : Clash p s q r) : p ≠ q := by
  have hlonger : q.length < p.length := by
    rcases h with ⟨-, -, rfl⟩ | ⟨-, -, v, rfl, -⟩
    · simp only [List.length_append]
      have : " (".toList.length = 2 := rfl
      omega
    · simp only [List.length_append]
      have : " (".toList.length = 2 := rfl
      omega
  rintro rfl
  exact Nat.lt_irrefl _ hlonger

theorem Clash.name_eq (h : Clash p s q r) : shardName p s = shardName q r := by
  rcases h with ⟨hs, hr, rfl⟩ | ⟨hs, hr, v, rfl, rfl⟩
  · rw [shardName, if_pos hs, shardName, if_neg hr]
  · rw [shardName, if_neg hs, shardName, if_neg hr]
    simp only [List.append_assoc]

theorem clash_of_longer (hs : s ≠ defaultScenario) (hr : r ≠ defaultScenario) {u : Str}
    (hp : p = q ++ u) (hrest : " (".toList ++ r = u ++ (" (".toList ++ s)) :
    (p = q ∧ s = r) ∨ Clash p s q r := by
  match u, hp, hrest with
  | [], hp, hrest => exact Or.inl ⟨hp.trans (List.append_nil q), (List.append_cancel_left hrest).symm⟩
  | [c], _, hrest =>
    have hsecond : some '(' = some ' ' := congrArg (·[1]?) hrest
    cases hsecond
  | c :: d :: v, hp, hrest =>
    have hparen : " (".toList = [' ', '('] := rfl
    rw [hparen] at hrest
    obtain ⟨hfirst, hrest⟩ := List.cons.inj hrest
    obtain ⟨hsecond, hrest⟩ := List.cons.inj hrest
    refine Or.inr (Or.inr ⟨hs, hr, v, ?_, ?_⟩)
    · rw [hp, hparen, List.append_assoc, ← hfirst, ← hsecond]
      rfl
    · rw [List.append_assoc, hparen]
      exact hrest

theorem shardName_eq_iff : shardName p s = shardName q r ↔
    (p = q ∧ s = r) ∨ Clash p s q r ∨ Clash q r p s := by
  constructor
  · intro h
    rw [shardName, shardName] at h
    split_ifs at h with hs hr hr
    · exact Or.inl ⟨h, hs.trans hr.symm⟩
    · exact Or.inr (Or.inl (Or.inl ⟨hs, hr, h⟩))
    · exact Or.inr (Or.inr (Or.inl ⟨hr, hs, h.symm⟩))
    · have hbody := List.append_cancel_right h
      rw [List.append_assoc, List.append_assoc, List.append_eq_append_iff] at hbody
      rcases hbody with ⟨u, hq, hrest⟩ | ⟨u, hp, hrest⟩
      · rcases clash_of_longer hr hs hq hrest with ⟨hpath, hscenario⟩ | hclash
        · exact Or.inl ⟨hpath.symm, hscenario.symm⟩
        · exact Or.inr (Or.inr hclash)
      · rcases clash_of_longer hs hr hp hrest with hsame | hclash
        · exact Or.inl hsame
        · exact Or.inr (Or.inl hclash)
  · rintro (⟨rfl, rfl⟩ | h | h)
    · rfl
    · exact h.name_eq
    · exact h.name_eq.symm

end Names

theorem mem_directories {α : Type} {name : α → Str} {isDir : α → Bool} {entries : List α}
    {entry : α} : entry ∈ directories name isDir entries ↔
      entry ∈ entries ∧ isDir entry = true ∧ isHidden (name entry) = false := by
  simp [directories, List.mem_mergeSort, List.mem_filter]

theorem nodup_directories {α : Type} {name : α → Str} {isDir : α → Bool} {entries : List α}
    (h : (entries.map name).Nodup) : ((directories name isDir entries).map name).Nodup := by
  have hsub : ((entries.filter fun entry => isDir entry && !isHidden (name entry)).map name).Nodup :=
    h.sublist (List.Sublist.map _ List.filter_sublist)
  exact ((List.mergeSort_perm _ _).map name).nodup_iff.mpr hsub

theorem nodup_scenariosOf (role : RoleDir) : (scenariosOf role).Nodup := by
  refine List.nodup_cons.mpr ⟨by simp, ?_⟩
  exact (nodup_directories role.nodup).sublist List.filter_sublist

/-- The directories and scenarios of the shards, in order. -/
def pairs (tree : RepoTree) : List (Str × Str) :=
  (roleShards tree).map fun shard => (shard.path, shard.scenario)

theorem path_inj {group : Str} {a b : RoleDir}
    (h : "ansible/".toList ++ group ++ "/".toList ++ a.name =
      "ansible/".toList ++ group ++ "/".toList ++ b.name) : a.name = b.name :=
  List.append_cancel_left h

theorem nodup_groupPairs {group : Str} {entries : List RoleDir}
    (h : (entries.map RoleDir.name).Nodup) :
    ((groupShards group entries).map fun shard => (shard.path, shard.scenario)).Nodup := by
  rw [groupShards, List.map_flatMap, List.nodup_flatMap]
  constructor
  · intro role _
    rw [List.map_map]
    exact (nodup_scenariosOf role).map fun _ _ heq => (Prod.mk.inj heq).2
  · have hnames := @nodup_directories _ _ RoleDir.isDir _ h
    rw [List.Nodup, List.pairwise_map] at hnames
    refine hnames.imp fun hne => ?_
    intro pair ha hb
    simp only [List.map_map, List.mem_map, Function.comp_apply] at ha hb
    obtain ⟨s, -, rfl⟩ := ha
    obtain ⟨r, -, hpair⟩ := hb
    exact hne (path_inj (Prod.mk.inj hpair).1).symm

theorem nodup_pairs (tree : RepoTree) : (pairs tree).Nodup := by
  rw [pairs, roleShards, List.map_append, List.nodup_append]
  refine ⟨nodup_groupPairs tree.rolesNodup, nodup_groupPairs tree.patternsNodup, ?_⟩
  rintro a ha b hb rfl
  simp only [groupShards, List.mem_map, List.mem_flatMap] at ha hb
  obtain ⟨-, ⟨x, -, s, -, rfl⟩, hx⟩ := ha
  obtain ⟨-, ⟨y, -, r, -, rfl⟩, hy⟩ := hb
  have hpath := (Prod.mk.inj (hx.trans hy.symm)).1
  have hletter : some 'r' = some 'p' := congrArg (·[8]?) hpath
  cases hletter

end SharedInfra.RoleHarness
