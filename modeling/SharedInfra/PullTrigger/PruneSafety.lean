import SharedInfra.PullTrigger.RunLogs

/-!
# What pruning keeps

`prune` keeps the newest outputs, by the order in which they were made, exactly
when every older one has a lesser name than every one of the newest
(`prune_eq_newest_iff`).  The output of the run in progress is the newest, so
then it is kept and its change count can be read; a clock that steps back makes
`prune` remove it.
-/

namespace SharedInfra.PullTrigger

open Python Sequences

section Pruning

variable {keepRuns : Nat} {dir : RunDir} {names names' : List Str} {log : RunLog}

/-- Remove all but the newest outputs, by the order in which they were made. -/
def newest (keepRuns : Nat) (dir : RunDir) : RunDir :=
  dir.remove ((dir.logs.take (dir.logs.length - keepRuns)).map RunLog.name)

/-- Every output that is not among the newest has a lesser name than each that is. -/
def NamedByAge (keepRuns : Nat) (dir : RunDir) : Prop :=
  ∀ old ∈ dir.logs.take (dir.logs.length - keepRuns),
    ∀ new ∈ dir.logs.drop (dir.logs.length - keepRuns), old.name < new.name

theorem mem_remove : log ∈ (dir.remove names).files ↔ log ∈ dir.files ∧ log.name ∉ names := by
  simp [RunDir.remove]

theorem remove_eq_iff : dir.remove names = dir.remove names' ↔
    ∀ log ∈ dir.files, log.name ∈ names ↔ log.name ∈ names' := by
  constructor
  · intro h log hlog
    have hsame : log ∈ (dir.remove names).files ↔ log ∈ (dir.remove names').files := by rw [h]
    rw [mem_remove, mem_remove] at hsame
    tauto
  · intro h
    rw [RunDir.remove, RunDir.remove, RunDir.mk.injEq]
    refine List.filter_congr fun log hlog => ?_
    simp [h log hlog]

theorem mem_logs : log ∈ dir.logs ↔ log ∈ dir.files ∧ log.isLog = true := List.mem_filter

theorem nodup_logs (dir : RunDir) : (dir.logs.map RunLog.name).Nodup :=
  dir.nodup.sublist (List.Sublist.map _ List.filter_sublist)

theorem eq_of_name_eq {other : RunLog} (hlog : log ∈ dir.files) (hother : other ∈ dir.files)
    (h : log.name = other.name) : log = other :=
  List.inj_on_of_nodup_map dir.nodup hlog hother h

theorem prune_eq_newest_iff (keepRuns : Nat) (dir : RunDir) :
    prune keepRuns dir = newest keepRuns dir ↔ NamedByAge keepRuns dir := by
  have hperm : (sorted (dir.logs.map RunLog.name)).Perm (dir.logs.map RunLog.name) :=
    List.mergeSort_perm _ _
  have hsorted : (sorted (dir.logs.map RunLog.name)).Pairwise (· ≤ ·) :=
    List.pairwise_mergeSort' _ _
  have hlen : (sorted (dir.logs.map RunLog.name)).length = dir.logs.length := by
    rw [hperm.length_eq, List.length_map]
  have hages := take_sorted_iff (k := dir.logs.length - keepRuns) (nodup_logs dir) hperm hsorted
  rw [← List.map_take, ← List.map_drop] at hages
  have hnamed : NamedByAge keepRuns dir ↔
      ∀ a ∈ (dir.logs.take (dir.logs.length - keepRuns)).map RunLog.name,
        ∀ b ∈ (dir.logs.drop (dir.logs.length - keepRuns)).map RunLog.name, a < b := by
    simp only [NamedByAge, List.forall_mem_map]
  rw [prune, newest, remove_eq_iff, hnamed, ← hages, hlen]
  constructor
  · intro h name
    constructor
    · intro hname
      have hmem := hperm.mem_iff.mp (List.mem_of_mem_take hname)
      obtain ⟨log, hlog, rfl⟩ := List.mem_map.mp hmem
      exact (h log (mem_logs.mp hlog).1).mp hname
    · intro hname
      obtain ⟨log, hlog, rfl⟩ := List.mem_map.mp hname
      exact (h log (mem_logs.mp (List.mem_of_mem_take hlog)).1).mpr hname
  · exact fun h log _ => h log.name

theorem namedByAge_of_clock (keepRuns : Nat) {readings : List (Moment × Mode × Str)}
    (hnames : dir.logs.map RunLog.name = readings.map fun r => runLogName r.1 r.2.1 r.2.2)
    (hclock : readings.Pairwise fun a b => a.1.Before b.1) : NamedByAge keepRuns dir := by
  have hsorted : (dir.logs.map RunLog.name).Pairwise (· < ·) := by
    rw [hnames, List.pairwise_map]
    exact hclock.imp fun hbefore => runLogName_lt hbefore _ _ _ _
  rw [List.pairwise_map, ← List.take_append_drop (dir.logs.length - keepRuns) dir.logs] at hsorted
  exact (List.pairwise_append.mp hsorted).2.2

end Pruning

section OwnOutput

variable {keepRuns : Nat} {dir : RunDir} {log : RunLog}

theorem logs_create (h : log.name ∉ dir.files.map RunLog.name) (hlog : log.isLog = true) :
    (dir.create log h).logs = dir.logs ++ [log] := by
  simp [RunDir.logs, RunDir.create, List.filter_append, hlog]

theorem mem_newest_create (hkeep : 1 ≤ keepRuns) (h : log.name ∉ dir.files.map RunLog.name)
    (hlog : log.isLog = true) : log ∈ (newest keepRuns (dir.create log h)).files := by
  refine mem_remove.mpr ⟨by simp [RunDir.create], fun hold => ?_⟩
  obtain ⟨old, hold, hname⟩ := List.mem_map.mp hold
  rw [logs_create h hlog, List.length_append, List.take_append_of_le_length] at hold
  · refine h (List.mem_map.mpr ⟨old, ?_, hname⟩)
    exact (mem_logs.mp (List.mem_of_mem_take hold)).1
  · rw [List.length_singleton]
    omega

theorem find_own {left : RunDir} (h : log ∈ left.files) :
    left.files.find? (·.name = log.name) = some log := by
  cases hfind : left.files.find? (·.name = log.name) with
  | none => exact absurd (List.find?_eq_none.mp hfind log h) (by simp)
  | some found =>
    have hname : found.name = log.name := by simpa using List.find?_some hfind
    rw [eq_of_name_eq (List.mem_of_find?_eq_some hfind) h hname]

theorem isLog_runLogName (moment : Moment) (mode : Mode) (commit : Str) (output : Bytes) :
    (RunLog.mk (runLogName moment mode commit) output).isLog = true := by
  rw [RunLog.isLog, runLogName, suffix]
  have hrev (u : Str) : ((u ++ ".log".toList).reverse.takeWhile (· ≠ '.')).reverse =
      "log".toList := by
    rw [List.reverse_append]
    rfl
  simp only [hrev]
  rw [if_pos]
  · rfl
  · refine ⟨by simp, ?_⟩
    have hlast : "log".toList.length = 3 := rfl
    have hdot : ".log".toList.length = 4 := rfl
    simp only [Moment.stamp, List.length_append, List.length_singleton, hlast, hdot, length_padded]
    omega

end OwnOutput

section Reading

variable {output : Bytes}

/-- The `changed=` texts the program finds at the end of an output. -/
def countTexts (output : Bytes) : List Str :=
  recapLines (utf8DecodeReplace (tailBytes recapTailBytes output))

theorem mapM_eq_none_iff {α β : Type} {f : α → Option β} {xs : List α} :
    xs.mapM f = none ↔ ∃ x ∈ xs, f x = none := by
  induction xs with
  | nil => simp
  | cons x xs ih =>
    rw [List.mapM_cons]
    simp only [List.mem_cons, exists_eq_or_imp, ← ih]
    cases hx : f x with
    | none => simp
    | some y => cases List.mapM f xs <;> simp

theorem changedCount_eq_none_iff :
    changedCount output = none ↔ ∃ text ∈ countTexts output, intOfDigits text = none := by
  rw [changedCount, totalOf, ← countTexts, ← mapM_eq_none_iff]
  split_ifs with hnil
  · simp [hnil]
  · cases (countTexts output).mapM intOfDigits <;> simp

end Reading

/-- The process ended by itself, with status 0. -/
def completed : PlaybookResult := ⟨0, false, false⟩

structure OutputKept (keepRuns : Nat) (mode : Mode) (log : RunLog) (result : PlaybookResult)
    (dir : RunDir) : Prop where
  own : log ∈ (endOfRun keepRuns mode log.name result dir).2.files
  counted : result = completed → ∀ count, changedCount log.output = some count →
    (endOfRun keepRuns mode log.name result dir).1 = countVerdict mode count
  reported : result = completed → countTexts log.output ≠ [] →
    (endOfRun keepRuns mode log.name result dir).1.exitCode ≠ .error
  pruned : (endOfRun keepRuns mode log.name result dir).2 = newest keepRuns dir

theorem countVerdict_ne_error (mode : Mode) (count : Option Nat) :
    (countVerdict mode count).exitCode ≠ .error := by
  unfold countVerdict
  split
  · decide
  · split_ifs <;> simp

theorem endOfRun_completed {keepRuns : Nat} {mode : Mode} {log : RunLog} {dir : RunDir}
    (h : log ∈ (prune keepRuns dir).files) :
    (endOfRun keepRuns mode log.name completed dir).1 =
      outputVerdict mode (some (changedCount log.output)) := by
  simp only [endOfRun, completed, find_own h, Bool.false_eq_true, if_false, ne_eq,
    not_true_eq_false, Option.map_some]

theorem outputVerdict_error_iff {mode : Mode} {count : Option (Option Nat)} :
    (outputVerdict mode (some count)).exitCode = .error ↔ count = none := by
  cases count with
  | none => exact iff_of_true rfl rfl
  | some count => exact iff_of_false (countVerdict_ne_error mode count) (by simp)

theorem outputKept_of_newest {keepRuns : Nat} {mode : Mode} {log : RunLog}
    {result : PlaybookResult} {dir : RunDir} (hlog : log ∈ (newest keepRuns dir).files) :
    OutputKept keepRuns mode log result dir ↔ NamedByAge keepRuns dir ∧
      (result = completed → ∀ text ∈ countTexts log.output, intOfDigits text ≠ none) := by
  constructor
  · intro h
    refine ⟨(prune_eq_newest_iff _ _).mp h.pruned, ?_⟩
    rintro rfl text htext hnone
    refine h.reported rfl (List.ne_nil_of_mem htext) ?_
    rw [endOfRun_completed h.own, outputVerdict_error_iff]
    exact changedCount_eq_none_iff.mpr ⟨text, htext, hnone⟩
  · rintro ⟨hnamed, hshort⟩
    have hpruned := (prune_eq_newest_iff _ _).mpr hnamed
    have hown : log ∈ (prune keepRuns dir).files := by
      rw [hpruned]
      exact hlog
    refine ⟨hown, ?_, ?_, hpruned⟩
    · rintro rfl count hcount
      rw [endOfRun_completed hown, hcount, outputVerdict]
    · rintro rfl - herror
      rw [endOfRun_completed hown, outputVerdict_error_iff, changedCount_eq_none_iff] at herror
      obtain ⟨text, htext, hnone⟩ := herror
      exact hshort rfl text htext hnone

/-- When a run keeps its own output, reports it and prunes by age. -/
theorem outputKept_iff {keepRuns : Nat} (hkeep : 1 ≤ keepRuns) (dir : RunDir) (moment : Moment)
    (mode : Mode) (commit : Str) (log : RunLog) (hname : log.name = runLogName moment mode commit)
    (hfresh : log.name ∉ dir.files.map RunLog.name) (result : PlaybookResult) :
    OutputKept keepRuns mode log result (dir.create log hfresh) ↔
      NamedByAge keepRuns (dir.create log hfresh) ∧
        (result = completed → ∀ text ∈ countTexts log.output, intOfDigits text ≠ none) := by
  have hlog : log.isLog = true := by
    rw [RunLog.isLog, hname]
    exact isLog_runLogName moment mode commit log.output
  exact outputKept_of_newest (mem_newest_create hkeep hfresh hlog)

def noon (day : Nat) (h : day ≤ 31) : Moment :=
  ⟨2026, 1, day, 12, 0, 0, 0, by decide, by decide, by decide, h, by decide, by decide, by decide,
    by decide⟩

def madeOn (day : Nat) (h : day ≤ 31) : RunLog :=
  ⟨runLogName (noon day h) .apply (List.replicate 40 'a'), utf8Encode (playRecap 3 [localhost 0])⟩

theorem isLog_madeOn (day : Nat) (h : day ≤ 31) : (madeOn day h).isLog = true :=
  isLog_runLogName (noon day h) .apply (List.replicate 40 'a') (utf8Encode (playRecap 3 [localhost 0]))

def onlyFile (log : RunLog) : RunDir := ⟨[log], List.nodup_singleton _⟩

theorem madeOn_lt {day day' : Nat} (h : day ≤ 31) (h' : day' ≤ 31) (hlt : day < day') :
    (madeOn day h).name < (madeOn day' h').name := by
  refine runLogName_lt (Or.inl ?_) _ _ _ _
  simp only [Moment.date, noon]
  omega

theorem second_day_fresh {day day' : Nat} (h : day ≤ 31) (h' : day' ≤ 31) (hne : day ≠ day') :
    (madeOn day h).name ∉ (onlyFile (madeOn day' h')).files.map RunLog.name := by
  rw [onlyFile, List.map_singleton, List.mem_singleton]
  rcases Nat.lt_or_gt_of_ne hne with hlt | hlt
  · exact (madeOn_lt h h' hlt).ne
  · exact (madeOn_lt h' h hlt).ne'

theorem logs_two {old new : RunLog} (hold : old.isLog = true) (hnew : new.isLog = true)
    (hfresh : new.name ∉ (onlyFile old).files.map RunLog.name) :
    ((onlyFile old).create new hfresh).logs = [old, new] := by
  rw [logs_create hfresh hnew]
  simp [RunDir.logs, onlyFile, hold]

theorem namedByAge_two {old new : RunLog} (hold : old.isLog = true) (hnew : new.isLog = true)
    (hfresh : new.name ∉ (onlyFile old).files.map RunLog.name) :
    NamedByAge 1 ((onlyFile old).create new hfresh) ↔ old.name < new.name := by
  rw [NamedByAge, logs_two hold hnew hfresh]
  simp

theorem countTexts_recap :
    ∀ text ∈ countTexts (utf8Encode (playRecap 3 [localhost 0])), intOfDigits text ≠ none := by
  decide +kernel

theorem outputKept_next_day : OutputKept 1 .apply (madeOn 2 (by decide)) completed
    ((onlyFile (madeOn 1 (by decide))).create (madeOn 2 (by decide))
      (second_day_fresh _ _ (by decide))) := by
  have hnamed := (namedByAge_two (isLog_madeOn 1 (by decide)) (isLog_madeOn 2 (by decide))
    (second_day_fresh _ _ (by decide))).mpr (madeOn_lt _ _ (by decide))
  refine (outputKept_iff (by decide) (onlyFile (madeOn 1 (by decide))) (noon 2 (by decide)) .apply
    (List.replicate 40 'a') (madeOn 2 (by decide)) rfl
    (second_day_fresh _ _ (by decide)) completed).mpr ⟨hnamed, fun _ => ?_⟩
  exact countTexts_recap

/-- The clock has been set back by a day: the run removes its own output. -/
theorem clock_set_back : ¬ OutputKept 1 .apply (madeOn 1 (by decide)) completed
    ((onlyFile (madeOn 2 (by decide))).create (madeOn 1 (by decide))
      (second_day_fresh _ _ (by decide))) := by
  intro h
  have hnamed := (prune_eq_newest_iff _ _).mp h.pruned
  have hlt := (namedByAge_two (isLog_madeOn _ _) (isLog_madeOn _ _) _).mp hnamed
  exact absurd hlt (madeOn_lt _ _ (by decide)).asymm

end SharedInfra.PullTrigger
