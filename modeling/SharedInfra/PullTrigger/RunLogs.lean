import SharedInfra.PullTrigger.RecapCount

/-!
# The outputs of the runs

The directory of the journal that holds one output file for every run, named
by the clock, the mode and the commit; `prune`, which keeps the last so many by
name; and the end of a run, which prunes before it reads its own output back.

The names follow the clock (`runLogName_lt`).  That they follow the order in
which the files were made is what `prune` relies on: `prune_eq_newest_iff`.
-/

namespace SharedInfra.PullTrigger

open Python Sequences

/-- A reading of the clock, in UTC. -/
structure Moment where
  year : Nat
  month : Nat
  day : Nat
  hour : Nat
  minute : Nat
  second : Nat
  microsecond : Nat
  year_ge : 1000 ≤ year
  year_lt : year < 10000
  month_le : month ≤ 12
  day_le : day ≤ 31
  hour_lt : hour < 24
  minute_lt : minute < 60
  second_lt : second < 60
  microsecond_lt : microsecond < 1000000

/-- A number in so many digits. -/
def padded : Nat → Nat → Str
  | 0, _ => []
  | width + 1, n => padded width (n / 10) ++ [Nat.digitChar (n % 10)]

/-- `moment.strftime('%Y%m%dT%H%M%S%fZ')`. -/
def Moment.stamp (m : Moment) : Str :=
  padded 4 m.year ++ padded 2 m.month ++ padded 2 m.day ++ ['T'] ++ padded 2 m.hour ++
    padded 2 m.minute ++ padded 2 m.second ++ padded 6 m.microsecond ++ ['Z']

def Mode.value : Mode → Str
  | .apply => "apply".toList
  | .check => "check".toList
  | .step => "step".toList

/-- The name of `Journal.run_log_path`. -/
def runLogName (moment : Moment) (mode : Mode) (commit : Str) : Str :=
  moment.stamp ++ ['-'] ++ mode.value ++ ['-'] ++ commit.take 12 ++ ".log".toList

/-- `path.suffix`: what starts at the last dot, if something stands before and behind it. -/
def suffix (name : Str) : Str :=
  let tail := (name.reverse.takeWhile (· ≠ '.')).reverse
  if tail ≠ [] ∧ tail.length + 1 < name.length then '.' :: tail else []

section Directory

/-- One file of the run directory. -/
structure RunLog where
  name : Str
  output : Bytes
  deriving DecidableEq

def RunLog.isLog (log : RunLog) : Bool := suffix log.name == ".log".toList

/-- The run directory, in the order in which its files were made. -/
structure RunDir where
  files : List RunLog
  nodup : (files.map RunLog.name).Nodup

variable {dir : RunDir}

/-- Open a new file (`O_EXCL`), with what the process writes to it. -/
def RunDir.create (dir : RunDir) (log : RunLog) (h : log.name ∉ dir.files.map RunLog.name) :
    RunDir where
  files := dir.files ++ [log]
  nodup := by
    rw [List.map_append, List.nodup_append]
    refine ⟨dir.nodup, List.nodup_singleton _, ?_⟩
    rintro name hname _ hlog rfl
    exact h (List.mem_singleton.mp hlog ▸ hname)

def RunDir.logs (dir : RunDir) : List RunLog := dir.files.filter RunLog.isLog

def RunDir.remove (dir : RunDir) (names : List Str) : RunDir where
  files := dir.files.filter fun log => log.name ∉ names
  nodup := dir.nodup.sublist (List.Sublist.map _ List.filter_sublist)

/-- `Journal.prune`. -/
def prune (keepRuns : Nat) (dir : RunDir) : RunDir :=
  let names := sorted (dir.logs.map RunLog.name)
  dir.remove (names.take (names.length - keepRuns))

structure PlaybookResult where
  returncode : Int
  timedOut : Bool
  interrupted : Bool
  deriving DecidableEq

/-- What a process that ended with status 0 is reported as, from the count read back from its
output, with the verdicts of `execute` and `main` where there is no such file and where `int` raises
an error. -/
def outputVerdict (mode : Mode) : Option (Option (Option Nat)) → Verdict
  | none => { exitCode := .error, reason := "io-error".toList }
  | some none => { exitCode := .error, reason := "internal-error".toList }
  | some (some changed) => countVerdict mode changed

/-- The end of `Trigger._run`, after the process has ended. -/
def endOfRun (keepRuns : Nat) (mode : Mode) (logName : Str) (result : PlaybookResult)
    (dir : RunDir) : Verdict × RunDir :=
  let left := prune keepRuns dir
  let verdict : Verdict :=
    if result.timedOut then { exitCode := .timedOut, reason := "timed-out".toList }
    else if result.interrupted then { exitCode := .failed, reason := "interrupted".toList }
    else if result.returncode ≠ 0 then { exitCode := .failed, reason := "playbook-failed".toList }
    else
      let output := left.files.find? (·.name = logName)
      outputVerdict mode (output.map fun log => changedCount log.output)
  (verdict, left)

end Directory

theorem append_lt_append {u v : Str} (s t : Str) (hlen : u.length = v.length) (h : u < v) :
    u ++ s < v ++ t := by
  induction u generalizing v with
  | nil =>
    obtain rfl := List.length_eq_zero_iff.mp hlen.symm
    exact absurd h (List.not_lt_nil [])
  | cons a u ih =>
    cases v with
    | nil => exact absurd h (List.not_lt_nil _)
    | cons b v =>
      rw [List.cons_append, List.cons_append, List.cons_lt_cons_iff]
      rcases List.cons_lt_cons_iff.mp h with hab | ⟨rfl, huv⟩
      · exact Or.inl hab
      · exact Or.inr ⟨rfl, ih (Nat.succ.inj hlen) huv⟩

theorem append_lt_append_left (u : Str) {s t : Str} (h : s < t) : u ++ s < u ++ t := by
  induction u with
  | nil => exact h
  | cons a u ih => exact List.cons_lt_cons_iff.mpr (Or.inr ⟨rfl, ih⟩)

theorem length_padded (width n : Nat) : (padded width n).length = width := by
  induction width generalizing n with
  | zero => rfl
  | succ width ih => rw [padded, List.length_append, ih, List.length_singleton]

theorem digitChar_lt : ∀ {i j : Nat}, i < j → j < 10 → Nat.digitChar i < Nat.digitChar j := by
  have hall : ∀ j < 10, ∀ i < j, Nat.digitChar i < Nat.digitChar j := by decide
  exact fun {i j} hij hj => hall j hj i hij

theorem padded_lt {width n m : Nat} (h : n < m) (hm : m < 10 ^ width) :
    padded width n < padded width m := by
  induction width generalizing n m with
  | zero => omega
  | succ width ih =>
    rw [padded, padded]
    rcases Nat.lt_or_ge (n / 10) (m / 10) with hhigh | hhigh
    · refine append_lt_append _ _ ?_ (ih hhigh ?_)
      · rw [length_padded, length_padded]
      · rw [pow_succ] at hm
        omega
    · have hsame : n / 10 = m / 10 := by omega
      rw [hsame]
      refine append_lt_append_left _ (List.cons_lt_cons_iff.mpr (Or.inl ?_))
      exact digitChar_lt (by omega) (Nat.mod_lt _ (by decide))

theorem padded_append (a b x y : Nat) (hy : y < 10 ^ b) :
    padded a x ++ padded b y = padded (a + b) (x * 10 ^ b + y) := by
  induction b generalizing y with
  | zero =>
    obtain rfl : y = 0 := by omega
    simp [padded]
  | succ b ih =>
    have hshift : x * 10 ^ (b + 1) = x * 10 ^ b * 10 := by rw [pow_succ, Nat.mul_assoc]
    have hquot : (x * 10 ^ (b + 1) + y) / 10 = x * 10 ^ b + y / 10 := by
      rw [hshift]
      omega
    have hrem : (x * 10 ^ (b + 1) + y) % 10 = y % 10 := by
      rw [hshift]
      omega
    rw [padded, ← List.append_assoc, ih (y / 10) (by rw [pow_succ] at hy; omega), ← Nat.add_assoc,
      padded, hquot, hrem]

namespace Moment

def date (m : Moment) : Nat := (m.year * 100 + m.month) * 100 + m.day

def time (m : Moment) : Nat :=
  ((m.hour * 100 + m.minute) * 100 + m.second) * 1000000 + m.microsecond

/-- One reading of the clock is before another. -/
def Before (a b : Moment) : Prop := a.date < b.date ∨ a.date = b.date ∧ a.time < b.time

theorem stamp_eq (m : Moment) :
    m.stamp = padded 8 m.date ++ ('T' :: (padded 12 m.time ++ ['Z'])) := by
  have hday := m.day_le
  have hmonth := m.month_le
  have hminute := m.minute_lt
  have hsecond := m.second_lt
  have hmicro := m.microsecond_lt
  have hdate : padded 4 m.year ++ padded 2 m.month ++ padded 2 m.day = padded 8 m.date := by
    rw [padded_append 4 2 _ _ (by omega), padded_append 6 2 _ _ (by omega)]
    rfl
  have htime : padded 2 m.hour ++ padded 2 m.minute ++ padded 2 m.second ++
      padded 6 m.microsecond = padded 12 m.time := by
    rw [padded_append 2 2 _ _ (by omega), padded_append 4 2 _ _ (by omega),
      padded_append 6 6 _ _ (by omega)]
    rfl
  rw [stamp, hdate, ← htime]
  simp

end Moment

theorem stamp_lt {a b : Moment} (h : a.Before b) (s t : Str) :
    a.stamp ++ s < b.stamp ++ t := by
  have hday := b.day_le
  have hmonth := b.month_le
  have hyear := b.year_lt
  have hhour := b.hour_lt
  have hminute := b.minute_lt
  have hsecond := b.second_lt
  have hmicro := b.microsecond_lt
  rw [Moment.stamp_eq, Moment.stamp_eq, List.append_assoc, List.append_assoc]
  rcases h with hdate | ⟨hdate, htime⟩
  · refine append_lt_append _ _ ?_ (padded_lt hdate ?_)
    · rw [length_padded, length_padded]
    · rw [Moment.date]
      omega
  · rw [hdate]
    refine append_lt_append_left _ ?_
    rw [List.cons_append, List.cons_append, List.append_assoc, List.append_assoc]
    refine List.cons_lt_cons_iff.mpr (Or.inr ⟨rfl, ?_⟩)
    refine append_lt_append _ _ ?_ (padded_lt htime ?_)
    · rw [length_padded, length_padded]
    · rw [Moment.time]
      omega

theorem runLogName_lt {a b : Moment} (h : a.Before b) (mode mode' : Mode) (commit commit' : Str) :
    runLogName a mode commit < runLogName b mode' commit' := by
  simp only [runLogName, List.append_assoc]
  exact stamp_lt h _ _

end SharedInfra.PullTrigger
