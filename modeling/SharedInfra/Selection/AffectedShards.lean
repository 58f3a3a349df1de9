import SharedInfra.Selection.ShardSelection

/-!
# The selection never drops an affected shard

What a change affects is the least set of units that holds the units the changed
paths are in, and the readers of the changed paths outside `ansible/`, and is
closed under the references (`Affected`).  `select` runs exactly the shards of
these units, or every shard (`select_affected`).
-/

namespace SharedInfra.Selection

open Python Sequences

theorem Graph.get_subset_values (d : Graph) (unit : Str) : d.get unit ⊆ d.values := by
  induction d with
  | nil => simp [Graph.get]
  | cons entry d ih =>
    obtain ⟨key, value⟩ := entry
    intro other hother
    rw [Graph.values, List.foldr_cons, Finset.mem_union]
    by_cases h : unit = key
    · subst h
      exact Or.inl (by simpa [Graph.get] using hother)
    · have hne : (unit == key) = false := by simpa using h
      exact Or.inr (ih (by simpa [Graph.get, List.lookup_cons, hne] using hother))

section Affected

def Named (tree : Tree) (changed : List Str) (unit : Str) : Prop :=
  (∃ path ∈ changed, kindOf path = .unit unit) ∨ ∃ path ∈ changed, kindOf path = .outside ∧
      ∃ read readers, (read, readers) ∈ tree.readsByPath ∧ isRead path read = true ∧ unit ∈ readers

/-- The least set that holds these and is closed under "names or runs a unit of the set". -/
def Affected (tree : Tree) (changed : List Str) : Str → Prop :=
  Reached (references tree).get {unit | Named tree changed unit}

def RunsEverything (tree : Tree) (changed : List Str) : Prop :=
  (∃ path ∈ changed, inside path everyShard = true) ∨ (∃ path ∈ changed, kindOf path = .unnamed) ∨
      ((∃ unit, Affected tree changed unit) ∧ tree.unresolved ≠ [])

theorem kindOf_everyShard {path : Str} :
    kindOf path = .everyShard ↔ inside path everyShard = true := by
  rw [kindOf]
  by_cases h : inside path everyShard = true
  · simp [h]
  · rw [if_neg h]
    refine ⟨fun hkind => ?_, fun hkind => absurd hkind h⟩
    cases hunit : unitOf path with
    | some unit =>
      rw [hunit] at hkind
      cases hkind
    | none =>
      rw [hunit] at hkind
      dsimp only at hkind
      split_ifs at hkind

variable {tree : Tree} {changed changed' outside : List Str} {wanted : Finset Str}

/-- The loop over the changed paths stops for one that runs every shard, and otherwise
collects the units and the outside paths. -/
theorem changedUnits_spec (changed : List Str) (wanted : Finset Str) (outside : List Str) :
    (changedUnits changed wanted outside = none ∧
        ∃ path ∈ changed, kindOf path = .everyShard ∨ kindOf path = .unnamed) ∨
      ((∀ path ∈ changed, kindOf path ≠ .everyShard ∧ kindOf path ≠ .unnamed) ∧
        ∃ named rest, changedUnits changed wanted outside = some (named, rest) ∧
          (∀ unit, unit ∈ named ↔ unit ∈ wanted ∨ ∃ path ∈ changed, kindOf path = .unit unit) ∧
          ∀ path, path ∈ rest ↔ path ∈ outside ∨ (path ∈ changed ∧ kindOf path = .outside)) := by
  induction changed generalizing wanted outside with
  | nil => exact Or.inr ⟨by simp, wanted, outside, rfl, by simp, by simp⟩
  | cons path changed ih =>
    cases hkind : kindOf path with
    | everyShard =>
      exact Or.inl ⟨by rw [changedUnits, hkind], path, by simp, Or.inl hkind⟩
    | unnamed => exact Or.inl ⟨by rw [changedUnits, hkind], path, by simp, Or.inr hkind⟩
    | unit unit =>
      rw [changedUnits, hkind]
      rcases ih (insert unit wanted) outside with ⟨hnone, p, hp, hcase⟩ | ⟨hall, named, rest,
        heq, hnamed, hrest⟩
      · exact Or.inl ⟨hnone, p, List.mem_cons_of_mem _ hp, hcase⟩
      · refine Or.inr ⟨by simp [hkind]; exact hall, named, rest, heq, ?_, ?_⟩
        · intro u
          rw [hnamed, Finset.mem_insert, List.exists_mem_cons_iff, hkind, PathKind.unit.injEq]
          constructor
          · rintro ((rfl | h) | h)
            · exact Or.inr (Or.inl rfl)
            · exact Or.inl h
            · exact Or.inr (Or.inr h)
          · rintro (h | rfl | h)
            · exact Or.inl (Or.inr h)
            · exact Or.inl (Or.inl rfl)
            · exact Or.inr h
        · intro q
          rw [hrest, List.mem_cons]
          constructor
          · rintro (h | ⟨h, hq⟩)
            · exact Or.inl h
            · exact Or.inr ⟨Or.inr h, hq⟩
          · rintro (h | ⟨rfl | h, hq⟩)
            · exact Or.inl h
            · rw [hkind] at hq
              cases hq
            · exact Or.inr ⟨h, hq⟩
    | lintOnly =>
      rw [changedUnits, hkind]
      rcases ih wanted outside with ⟨hnone, p, hp, hcase⟩ | ⟨hall, named, rest, heq, hnamed, hrest⟩
      · exact Or.inl ⟨hnone, p, List.mem_cons_of_mem _ hp, hcase⟩
      · refine Or.inr ⟨by simp [hkind]; exact hall, named, rest, heq, ?_, ?_⟩
        · intro u
          rw [hnamed, List.exists_mem_cons_iff, hkind]
          simp
        · intro q
          rw [hrest, List.mem_cons]
          constructor
          · rintro (h | ⟨h, hq⟩)
            · exact Or.inl h
            · exact Or.inr ⟨Or.inr h, hq⟩
          · rintro (h | ⟨rfl | h, hq⟩)
            · exact Or.inl h
            · rw [hkind] at hq
              cases hq
            · exact Or.inr ⟨h, hq⟩
    | outside =>
      rw [changedUnits, hkind]
      rcases ih wanted (outside ++ [path]) with ⟨hnone, p, hp, hcase⟩ | ⟨hall, named, rest,
        heq, hnamed, hrest⟩
      · exact Or.inl ⟨hnone, p, List.mem_cons_of_mem _ hp, hcase⟩
      · refine Or.inr ⟨by simp [hkind]; exact hall, named, rest, heq, ?_, ?_⟩
        · intro u
          rw [hnamed, List.exists_mem_cons_iff, hkind]
          simp
        · intro q
          rw [hrest, List.mem_append, List.mem_singleton, List.mem_cons]
          constructor
          · rintro ((h | rfl) | ⟨h, hq⟩)
            · exact Or.inl h
            · exact Or.inr ⟨Or.inl rfl, hkind⟩
            · exact Or.inr ⟨Or.inr h, hq⟩
          · rintro (h | ⟨rfl | h, hq⟩)
            · exact Or.inl (Or.inl h)
            · exact Or.inl (Or.inr rfl)
            · exact Or.inr ⟨h, hq⟩

theorem mem_addReaders {reads : Graph} {path unit : Str} :
    unit ∈ addReaders reads wanted path ↔ unit ∈ wanted ∨
      ∃ read readers, (read, readers) ∈ reads ∧ isRead path read = true ∧ unit ∈ readers := by
  rw [addReaders]
  induction reads generalizing wanted with
  | nil => simp
  | cons entry reads ih =>
    obtain ⟨read, readers⟩ := entry
    rw [List.foldl_cons, ih]
    constructor
    · rintro (h | ⟨r, rs, hmem, hread, h⟩)
      · dsimp only at h
        split_ifs at h with hread
        · rcases Finset.mem_union.mp h with h | h
          · exact Or.inl h
          · exact Or.inr ⟨read, readers, by simp, hread, h⟩
        · exact Or.inl h
      · exact Or.inr ⟨r, rs, List.mem_cons_of_mem _ hmem, hread, h⟩
    · rintro (h | ⟨r, rs, hmem, hread, h⟩)
      · refine Or.inl ?_
        dsimp only
        split_ifs
        · exact Finset.mem_union_left _ h
        · exact h
      · rcases List.mem_cons.mp hmem with heq | hmem
        · cases heq
          refine Or.inl ?_
          dsimp only
          rw [if_pos hread]
          exact Finset.mem_union_right _ h
        · exact Or.inr ⟨r, rs, hmem, hread, h⟩

theorem mem_foldl_addReaders {reads : Graph} {unit : Str} :
    unit ∈ outside.foldl (addReaders reads) wanted ↔ unit ∈ wanted ∨
      ∃ path ∈ outside, ∃ read readers, (read, readers) ∈ reads ∧ isRead path read = true ∧
        unit ∈ readers := by
  induction outside generalizing wanted with
  | nil => simp
  | cons path outside ih =>
    rw [List.foldl_cons, ih, mem_addReaders, List.exists_mem_cons_iff, or_assoc]

theorem affected_nonempty : (∃ unit, Affected tree changed unit) ↔ ∃ unit, Named tree changed unit := by
  constructor
  · rintro ⟨unit, h⟩
    rw [Affected] at h
    induction h with
    | @start a h => exact ⟨a, h⟩
    | step _ _ ih => exact ih
  · rintro ⟨unit, h⟩
    exact ⟨unit, .start h⟩

theorem neededUnits_spec (order : SetOrder Str) (changed : List Str) (tree : Tree) :
    (neededUnits order changed tree = none ∧ RunsEverything tree changed) ∨
      (¬RunsEverything tree changed ∧ ∃ wanted, neededUnits order changed tree = some wanted ∧
        ∀ unit, unit ∈ wanted ↔ Affected tree changed unit) := by
  rcases changedUnits_spec changed ∅ [] with ⟨hnone, path, hpath, hcase⟩ |
    ⟨hall, named, outside, heq, hnamed, houtside⟩
  · refine Or.inl ⟨by rw [neededUnits, hnone], ?_⟩
    rcases hcase with h | h
    · exact Or.inl ⟨path, hpath, kindOf_everyShard.mp h⟩
    · exact Or.inr (Or.inl ⟨path, hpath, h⟩)
  · have hwanted : ∀ unit, unit ∈ outside.foldl (addReaders tree.readsByPath) named ↔
        Named tree changed unit := by
      intro unit
      rw [mem_foldl_addReaders, hnamed, Named]
      simp only [Finset.notMem_empty, false_or, houtside, List.not_mem_nil, and_assoc]
    have hnotNamed : ¬((∃ path ∈ changed, inside path everyShard = true) ∨
        ∃ path ∈ changed, kindOf path = .unnamed) := by
      rintro (⟨path, hpath, h⟩ | ⟨path, hpath, h⟩)
      · exact (hall path hpath).1 (kindOf_everyShard.mpr h)
      · exact (hall path hpath).2 h
    have hsplit : RunsEverything tree changed ↔
        (∃ unit, Named tree changed unit) ∧ tree.unresolved ≠ [] := by
      rw [RunsEverything, ← or_assoc, affected_nonempty]
      exact ⟨fun h => h.resolve_left hnotNamed, Or.inr⟩
    rw [neededUnits, heq]
    dsimp only
    split_ifs with hempty hunresolved
    · -- Nothing is named, so nothing is affected.
      have hno : ¬∃ unit, Named tree changed unit := by
        rintro ⟨unit, h⟩
        have hmem := (hwanted unit).mpr h
        rw [hempty] at hmem
        exact absurd hmem (by simp)
      refine Or.inr ⟨fun h => hno (hsplit.mp h).1, _, rfl, ?_⟩
      intro unit
      rw [hempty]
      refine ⟨fun h => absurd h (by simp), fun h => ?_⟩
      exact absurd (affected_nonempty.mp ⟨unit, h⟩) hno
    · left
      refine ⟨rfl, hsplit.mpr ⟨?_, hunresolved⟩⟩
      obtain ⟨unit, h⟩ := Finset.nonempty_iff_ne_empty.mpr hempty
      exact ⟨unit, (hwanted unit).mp h⟩
    · refine Or.inr ⟨fun h => hunresolved (hsplit.mp h).2, _, rfl, ?_⟩
      intro unit
      rw [mem_close (Graph.get_subset_values _), Affected]
      have hstart : ((outside.foldl (addReaders tree.readsByPath) named : Finset Str) : Set Str) =
          {unit | Named tree changed unit} := Set.ext hwanted
      rw [hstart]

theorem Affected.mono (hsub : changed ⊆ changed') {unit : Str} (h : Affected tree changed unit) :
    Affected tree changed' unit := by
  refine Reached.mono ?_ h
  rintro u (⟨path, hpath, hk⟩ | ⟨path, hpath, hk⟩)
  · exact Or.inl ⟨path, hsub hpath, hk⟩
  · exact Or.inr ⟨path, hsub hpath, hk⟩

theorem RunsEverything.mono (hsub : changed ⊆ changed') (h : RunsEverything tree changed) :
    RunsEverything tree changed' := by
  rcases h with ⟨path, hpath, h⟩ | ⟨path, hpath, h⟩ | ⟨⟨unit, h⟩, hun⟩
  · exact Or.inl ⟨path, hsub hpath, h⟩
  · exact Or.inr (Or.inl ⟨path, hsub hpath, h⟩)
  · exact Or.inr (Or.inr ⟨⟨unit, h.mono hsub⟩, hun⟩)

end Affected

section Select

variable {tree : Tree} {changed changed' : List Str} {shards : List Shard} {event : Str}
  {order order' : SetOrder Str}

theorem select_spec (order : SetOrder Str) (tree : Tree) (changed : List Str) (shards : List Shard)
    (hevent : event = pullRequest ∨ event = mergeGroup) :
    (RunsEverything tree changed ∧ select order event (some changed) shards tree = shards) ∨
      (¬RunsEverything tree changed ∧ ∃ wanted : Finset Str,
        (∀ unit, unit ∈ wanted ↔ Affected tree changed unit) ∧
        select order event (some changed) shards tree =
          shards.filter fun shard => shard.path ∈ wanted) := by
  have hpush : event ≠ push := by
    rcases hevent with rfl | rfl <;> decide
  have hin : event ∈ [pullRequest, mergeGroup] := by simpa using hevent
  simp only [select, if_neg hpush, if_neg (not_not.mpr hin)]
  rcases neededUnits_spec order changed tree with ⟨hnone, hall⟩ | ⟨hnot, wanted, hsome, hmem⟩
  · exact Or.inl ⟨hall, by rw [hnone]⟩
  · exact Or.inr ⟨hnot, wanted, hmem, by rw [hsome]⟩

theorem filter_sublist_filter {wanted wanted' : Finset Str} (h : wanted ⊆ wanted')
    (shards : List Shard) :
    (shards.filter fun shard => shard.path ∈ wanted).Sublist
      (shards.filter fun shard => shard.path ∈ wanted') :=
  List.monotone_filter_right shards fun shard hs => by
    simp only [decide_eq_true_eq] at hs ⊢
    exact h hs

theorem select_sublist_of_subset (hevent : event = pullRequest ∨ event = mergeGroup)
    (hsub : changed ⊆ changed') :
    (select order event (some changed) shards tree).Sublist
      (select order' event (some changed') shards tree) := by
  rcases select_spec order' tree changed' shards hevent with ⟨_, hall'⟩ | ⟨hnot', wanted', hmem', heq'⟩
  · rw [hall']
    rcases select_spec order tree changed shards hevent with ⟨_, hall⟩ | ⟨_, wanted, _, heq⟩
    · rw [hall]
    · rw [heq]
      exact List.filter_sublist
  · rcases select_spec order tree changed shards hevent with ⟨hall, _⟩ | ⟨_, wanted, hmem, heq⟩
    · exact absurd (hall.mono hsub) hnot'
    · rw [heq, heq']
      refine filter_sublist_filter ?_ shards
      intro unit hunit
      exact (hmem' unit).mpr (((hmem unit).mp hunit).mono hsub)

/-- **The selection never drops an affected shard.** -/
theorem select_affected (order order' : SetOrder Str) (tree : Tree) (shards : List Shard)
    (event : Str) (hevent : event = pullRequest ∨ event = mergeGroup) (changed : List Str) :
    (select order event (some changed) shards tree = shards ∨
      ∃ wanted : Finset Str, (∀ unit, unit ∈ wanted ↔ Affected tree changed unit) ∧
        select order event (some changed) shards tree =
          shards.filter fun shard => shard.path ∈ wanted) ∧
    (RunsEverything tree changed → select order event (some changed) shards tree = shards) ∧
    (∀ changed', (∀ path, path ∈ changed' ↔ path ∈ changed) →
      select order' event (some changed') shards tree =
        select order event (some changed) shards tree) ∧
    (select order event (some changed) shards tree).Sublist shards ∧
    ∀ changed', changed ⊆ changed' → (select order event (some changed) shards tree).Sublist
        (select order' event (some changed') shards tree) := by
  have hspec := select_spec order tree changed shards hevent
  refine ⟨?_, ?_, ?_, ?_, fun changed' hsub => select_sublist_of_subset hevent hsub⟩
  · rcases hspec with ⟨_, hall⟩ | ⟨_, hwanted⟩
    · exact Or.inl hall
    · exact Or.inr hwanted
  · intro hruns
    rcases hspec with ⟨_, hall⟩ | ⟨hnot, _⟩
    · exact hall
    · exact absurd hruns hnot
  · intro changed' hsame
    refine List.Sublist.antisymm ?_ ?_
    · exact select_sublist_of_subset hevent fun path h => (hsame path).mp h
    · exact select_sublist_of_subset hevent fun path h => (hsame path).mpr h
  · rcases hspec with ⟨_, hall⟩ | ⟨_, wanted, _, heq⟩
    · rw [hall]
    · rw [heq]
      exact List.filter_sublist

def sortedOrder : SetOrder Str where
  list := sortedSet
  mem_list _ _ := Finset.mem_sort (· ≤ ·)

/-- Two roles, of which the second runs the first. -/
def twoRoles : Tree where
  readsByPath := []
  textReferences := [("ansible/roles/base", {("ansible/roles/web" : Str)})]
  roleEdges := []
  unresolved := []

def twoShards : List Shard :=
  [⟨"base", "ansible/roles/base", "default", "role"⟩,
    ⟨"web", "ansible/roles/web", "default", "role"⟩]

theorem select_affected_pyproject :
    select sortedOrder mergeGroup (some ["ansible/pyproject.toml"]) twoShards twoRoles =
      twoShards :=
  (select_affected sortedOrder sortedOrder twoRoles twoShards mergeGroup (Or.inr rfl)
    ["ansible/pyproject.toml"]).2.1 (Or.inl ⟨_, List.mem_singleton_self _, by decide⟩)

end Select

end SharedInfra.Selection
