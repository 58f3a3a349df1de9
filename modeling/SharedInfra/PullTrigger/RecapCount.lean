import SharedInfra.Python.Integers
import SharedInfra.Python.Utf8
import SharedInfra.Sequences.Backtrack
import SharedInfra.Sequences.FirstMatch

/-!
# The change count of a playbook run

`changed_count` of the pull trigger: the end of the output of a run, decoded
with replacement, searched for lines of a play recap, whose `changed=` numbers
are added up.

Beside it `playRecap`, what Ansible writes at the end of a run without colour:
a banner on a line of its own and one line for every host.  The pattern is
local to it (`local_recapLine`), so what stands before is searched by itself,
and it takes every host line once (`recapLines_playRecap`).
-/

namespace SharedInfra.PullTrigger

open Python Sequences Matcher

@[irreducible] def recapTailBytes : Nat := 262144

/-- `\s+name=\d+` -/
def countField (name : Str) : Matcher Char Str := do
  let _ ← plus isSpace
  word name
  plus isDecimal

/-- `RECAP_LINE` from the start of a line, with its group `changed`. -/
def recapLine : Matcher Char Str := do
  let _ ← plus fun c => !isSpace c
  let _ ← star isSpace
  word ":"
  let _ ← countField "ok="
  let changed ← countField "changed="
  let _ ← countField "unreachable="
  let _ ← countField "failed="
  pure changed

/-- The group `changed` of `RECAP_LINE.finditer(text)`. -/
def recapLines (text : Str) : List Str := findAll '\n' recapLine text

/-- What the program adds up; the outer `none` is a `ValueError` of `int`. -/
def totalOf (lines : List Str) : Option (Option Nat) :=
  if lines = [] then some none
  else do
    let counts ← lines.mapM intOfDigits
    some (some counts.sum)

def tailBytes (size : Nat) (data : Bytes) : Bytes := data.drop (data.length - size)

/-- `changed_count`, over the bytes of the output file. -/
def changedCount (log : Bytes) : Option (Option Nat) :=
  totalOf (recapLines (utf8DecodeReplace (tailBytes recapTailBytes log)))

inductive Exit where
  | unchanged
  | applied
  | wouldChange
  | refused
  | busy
  | failed
  | timedOut
  | error
  deriving DecidableEq, Repr

inductive Mode where
  | apply
  | check
  | step
  deriving DecidableEq, Repr

structure Verdict where
  exitCode : Exit
  reason : Str
  changed : Option Nat := none
  deriving DecidableEq, Repr

/-- The end of `Trigger._run`, for a playbook that ended with status 0. -/
def countVerdict (mode : Mode) : Option Nat → Verdict
  | none => { exitCode := .failed, reason := "no-recap".toList }
  | some changed =>
    if changed = 0 then { exitCode := .unchanged, reason := "ok".toList, changed := some 0 }
    else
      { exitCode := if mode = .check then .wouldChange else .applied
        reason := "ok".toList
        changed := some changed }

/-- `"%-Ns" % text`. -/
def ljust (width : Nat) (text : Str) : Str := text ++ List.replicate (width - text.length) ' '

/-- `colorize`, without colour. -/
def colorize (lead : Str) (num : Nat) : Str := lead ++ ljust 4 (decimal num)

/-- The statistics of one host; an inventory name is one word. -/
structure HostStats where
  host : Str
  host_ne : host ≠ []
  host_word : ∀ c ∈ host, isSpace c = false
  ok : Nat
  changed : Nat
  unreachable : Nat
  failed : Nat
  skipped : Nat
  rescued : Nat
  ignored : Nat

namespace HostStats

/-- What stands after the last number the pattern reads. -/
def lineRest (s : HostStats) : Str :=
  List.replicate (4 - (decimal s.failed).length) ' ' ++ " " ++ colorize "skipped=" s.skipped ++
    " " ++ colorize "rescued=" s.rescued ++ " " ++ colorize "ignored=" s.ignored

def line (s : HostStats) : Str :=
  ljust 26 s.host ++ " : " ++ colorize "ok=" s.ok ++ " " ++ colorize "changed=" s.changed ++ " " ++
    colorize "unreachable=" s.unreachable ++ " " ++ "failed=" ++ decimal s.failed ++ s.lineRest

end HostStats

/-- The play recap, with the banner before it and the empty line after it. -/
def playRecap (stars : Nat) (hosts : List HostStats) : Str :=
  '\n' :: ("PLAY RECAP ".toList ++ List.replicate stars '*') ++
    '\n' :: (unlines (hosts.map HostStats.line) ++ ['\n'])

/-- What the recap says. -/
def recapTotal (hosts : List HostStats) : Nat := (hosts.map HostStats.changed).sum

section Locality

variable {t : Str}

theorem word_fails {w : Str} {d c : Char} (s : Str) (h : c ≠ d) : word (d :: w) (c :: s) = [] := by
  simp [word, Ne.symm h]

theorem word_nil (d : Char) (w : Str) : word (d :: w) [] = [] := rfl

theorem not_space_of_ne {d c : Char} (hd : isSpace d = false) (hc : isSpace c = true) : c ≠ d := by
  rintro rfl
  rw [hc] at hd
  cases hd

theorem bind_of_nil {β γ : Type} {m : Matcher Char β} {f : β → Matcher Char γ} {s : Str}
    (h : m s = []) : (m >>= f) s = [] := by
  rw [bind_run, h]
  rfl

theorem local_countField {d : Char} {name : Str} (hd : isSpace d = false) (hP : 'P' ≠ d)
    (hline : '\n' ∉ d :: name) : Local ('\n' :: 'P' :: t) (countField (d :: name)) := by
  refine local_plus_bind rfl (fun _ c s hc => ?_) (fun _ => ?_) fun _ => ?_
  · exact bind_of_nil (word_fails s (not_space_of_ne hd hc))
  · exact ⟨bind_of_nil (word_nil d name), bind_of_nil (word_fails t hP)⟩
  · exact (local_word hline).bind fun _ => local_plus (by decide)

theorem local_recapLine : Local ('\n' :: 'P' :: t) recapLine := by
  refine (local_plus (by decide)).bind fun _ => ?_
  refine local_star_bind rfl (fun _ c s hc => ?_) (fun _ => ?_) fun _ => ?_
  · exact bind_of_nil (word_fails s (not_space_of_ne (by decide) hc))
  · exact ⟨bind_of_nil (word_nil ':' []), bind_of_nil (word_fails t (by decide))⟩
  · refine (local_word (by decide)).bind fun _ => ?_
    refine (local_countField (by decide) (by decide) (by decide)).bind fun _ => ?_
    refine (local_countField (by decide) (by decide) (by decide)).bind fun _ => ?_
    refine (local_countField (by decide) (by decide) (by decide)).bind fun _ => ?_
    refine (local_countField (by decide) (by decide) (by decide)).bind fun _ => ?_
    exact Local.pure _

theorem recapLine_banner (t : Str) : recapLine ("PLAY RECAP ".toList ++ t) = [] := rfl

end Locality

section Reading

variable {rest : Str}

/-- Blanks, at least one. -/
def Blanks (s : Str) : Prop := s ≠ [] ∧ ∀ c ∈ s, c = ' '

theorem blanks_replicate (n : Nat) : Blanks (List.replicate n ' ' ++ [' ']) := by
  refine ⟨by simp, fun c hc => ?_⟩
  rcases List.mem_append.mp hc with hc | hc
  · exact List.eq_of_mem_replicate hc
  · exact List.mem_singleton.mp hc

theorem Blanks.space {s : Str} (h : Blanks s) : ∀ c ∈ s, isSpace c = true := by
  intro c hc
  rw [h.2 c hc]
  rfl

theorem Blanks.ends {s : Str} (h : Blanks s) {p : Char → Bool} (hp : p ' ' = false) (t : Str) :
    ∀ c ∈ (s ++ t).head?, p c = false := by
  obtain ⟨c, s, rfl⟩ := List.exists_cons_of_ne_nil h.1
  rintro d ⟨⟩
  rw [h.2 c List.mem_cons_self]
  exact hp

theorem head_countField {name blanks : Str} {n : Nat} (hblanks : Blanks blanks) {d : Char}
    (hd : isSpace d = false) (hrest : ∀ c ∈ rest.head?, isDecimal c = false) :
    (countField (d :: name) (blanks ++ (d :: name ++ (decimal n ++ rest)))).head? =
      some (decimal n, rest) := by
  refine head_bind (head_plus hblanks.1 hblanks.space fun c hc => ?_) ?_
  · cases hc
    exact hd
  · refine head_bind (head_word _ _) (head_plus Nat.toDigits_ne_nil ?_ hrest)
    exact fun c hc => isDecimal_of_mem_decimal hc

/-- The blanks between two fields of a host's line. -/
def gap (n : Nat) : Str := List.replicate (4 - (decimal n).length) ' ' ++ [' ']

theorem blanks_gap (n : Nat) : Blanks (gap n) := blanks_replicate _

theorem gap_ends (n : Nat) (t : Str) : ∀ c ∈ (gap n ++ t).head?, isDecimal c = false :=
  (blanks_gap n).ends (by decide) t

namespace HostStats

variable (s : HostStats)

/-- The blanks after the name. -/
def pad : Str := List.replicate (26 - s.host.length) ' ' ++ [' ']

/-- The part of a host's line that the pattern takes. -/
def front : Str :=
  s.host ++ (s.pad ++ (":".toList ++ ([' '] ++
    ("ok=".toList ++ (decimal s.ok ++ (gap s.ok ++ ("changed=".toList ++ (decimal s.changed ++
      (gap s.changed ++ ("unreachable=".toList ++ (decimal s.unreachable ++ (gap s.unreachable ++
        ("failed=".toList ++ decimal s.failed)))))))))))))

theorem line_eq : s.line = s.front ++ s.lineRest := by
  simp [line, front, ljust, colorize, gap, pad]

theorem lineRest_eq : s.lineRest = gap s.failed ++ (colorize "skipped=" s.skipped ++ ([' '] ++
    (colorize "rescued=" s.rescued ++ ([' '] ++ colorize "ignored=" s.ignored)))) := by
  simp [lineRest, gap]

theorem head_recapLine (hrest : ∀ c ∈ rest.head?, isDecimal c = false) :
    (recapLine (s.front ++ rest)).head? = some (decimal s.changed, rest) := by
  have hpad : Blanks s.pad := blanks_replicate _
  simp only [front, List.append_assoc]
  refine head_bind (head_plus s.host_ne (fun c hc => by simp [s.host_word c hc])
    (hpad.ends rfl _)) ?_
  refine head_bind (head_star hpad.space fun c hc => ?_) ?_
  · cases hc
    rfl
  · refine head_bind (head_word _ _) ?_
    refine head_bind (head_countField (blanks_replicate 0) rfl (gap_ends s.ok _)) ?_
    refine head_bind (head_countField (blanks_gap s.ok) rfl (gap_ends s.changed _)) ?_
    refine head_bind (head_countField (blanks_gap s.changed) rfl (gap_ends s.unreachable _)) ?_
    exact head_bind (head_countField (blanks_gap s.unreachable) rfl hrest) rfl

theorem newline_not_in_blanks {t : Str} (h : Blanks t) : '\n' ∉ t := fun hc =>
  absurd (h.2 _ hc) (by decide)

theorem newline_not_in_decimal (n : Nat) : '\n' ∉ decimal n := fun hc =>
  absurd (isDecimal_of_mem_decimal hc) (by decide)

theorem newline_not_in_colorize {lead : Str} (h : '\n' ∉ lead) (n : Nat) :
    '\n' ∉ colorize lead n := by
  simp [colorize, ljust, h, newline_not_in_decimal, List.mem_replicate]

theorem newline_not_in_front : '\n' ∉ s.front := by
  have hhost : '\n' ∉ s.host := fun hc => absurd (s.host_word _ hc) (by decide)
  have hgap (n : Nat) : '\n' ∉ gap n := newline_not_in_blanks (blanks_gap n)
  have hpad : '\n' ∉ s.pad := newline_not_in_blanks (blanks_replicate _)
  simp [front, hhost, hgap, hpad, newline_not_in_decimal]

theorem newline_not_in_lineRest : '\n' ∉ s.lineRest := by
  have hgap : '\n' ∉ gap s.failed := newline_not_in_blanks (blanks_gap _)
  simp [lineRest_eq, hgap, newline_not_in_colorize]

end HostStats

theorem recapLines_hosts (hosts : List HostStats) (t : Str) :
    recapLines (unlines (hosts.map HostStats.line) ++ t) =
      hosts.map (fun s => decimal s.changed) ++ recapLines t := by
  induction hosts with
  | nil => rfl
  | cons s hosts ih =>
    have hne : s.front ≠ [] := by simp [HostStats.front, s.host_ne]
    simp only [List.map_cons, unlines, s.line_eq, List.append_assoc, List.cons_append]
    rw [recapLines, findAll_line hne s.newline_not_in_front s.newline_not_in_lineRest]
    · exact congrArg _ ih
    · refine s.head_recapLine ?_
      rw [s.lineRest_eq, List.append_assoc]
      exact gap_ends s.failed _

theorem recapLines_playRecap (before : Str) (stars : Nat) (hosts : List HostStats) :
    recapLines (before ++ playRecap stars hosts) =
      recapLines before ++ hosts.map fun s => decimal s.changed := by
  have hbanner : '\n' ∉ "PLAY RECAP ".toList ++ List.replicate stars '*' := by
    simp [List.mem_replicate]
  have hlast : recapLines ['\n'] = [] := rfl
  have hlocal : Local ('\n' :: ("PLAY RECAP ".toList ++ List.replicate stars '*' ++
      '\n' :: (unlines (hosts.map HostStats.line) ++ ['\n']))) recapLine := local_recapLine
  rw [playRecap, recapLines, List.cons_append, findAll_append hlocal rfl, findAll_skip_line hbanner]
  · have := recapLines_hosts hosts ['\n']
    rw [hlast, List.append_nil] at this
    exact congrArg _ this
  · rw [List.append_assoc]
    exact recapLine_banner _

end Reading

/-!
# Whose change count it is

`changed_count` adds up every line of the end of the output that is shaped like
one of a recap, the recap's and any that stands before it in the task output
(`changedCount_log`).  So the count is the recap's exactly when the lines
before it that are shaped so say nothing was changed.
-/

section Tail

theorem tailBytes_append {size : Nat} {r : Bytes} (h : r.length ≤ size) (before : Bytes) :
    tailBytes size (before ++ r) = tailBytes (size - r.length) before ++ r := by
  have hstart : (before ++ r).length - size = before.length - (size - r.length) := by
    rw [List.length_append]
    omega
  rw [tailBytes, tailBytes, hstart, List.drop_append_of_le_length (Nat.sub_le _ _)]

/-- The output up to the recap, as far as the program reads it. -/
def earlierOutput (before : Bytes) (stars : Nat) (hosts : List HostStats) : Str :=
  utf8DecodeReplace
    (tailBytes (recapTailBytes - (utf8Encode (playRecap stars hosts)).length) before)

variable {before : Bytes} {stars : Nat} {hosts : List HostStats}

theorem decode_output (before : Bytes) (stars : Nat) (hosts : List HostStats) :
    utf8DecodeReplace (before ++ utf8Encode (playRecap stars hosts)) =
      utf8DecodeReplace before ++ playRecap stars hosts := by
  have hstart : utf8Encode (playRecap stars hosts) =
      10 :: utf8Encode (playRecap stars hosts).tail := by
    rw [playRecap, List.cons_append, utf8Encode_cons]
    rfl
  rw [hstart, utf8DecodeReplace_append (by decide), ← hstart, utf8DecodeReplace_encode]

theorem changedCount_log (hfit : (utf8Encode (playRecap stars hosts)).length ≤ recapTailBytes) :
    changedCount (before ++ utf8Encode (playRecap stars hosts)) =
      totalOf (recapLines (earlierOutput before stars hosts) ++
        hosts.map fun s => decimal s.changed) := by
  rw [changedCount, tailBytes_append hfit, decode_output, recapLines_playRecap]
  rfl

end Tail

theorem totalOf_eq_iff {lines : List Str} {n : Nat} : totalOf lines = some (some n) ↔
    lines ≠ [] ∧ ∃ counts : List Nat, lines.map intOfDigits = counts.map some ∧ counts.sum = n := by
  rw [totalOf]
  split_ifs with hnil
  · simp [hnil]
  · simp [hnil, Option.bind_eq_some_iff, Sequences.mapM_eq_some_iff]

theorem intOfDigits_decimal_eq (n : Nat) : intOfDigits (decimal n) =
    if (decimal n).length ≤ maxStrDigits then some n else none := by
  split_ifs with h
  · exact intOfDigits_decimal h
  · exact intOfDigits_long (Nat.lt_of_not_le h)

theorem counts_of_hosts {hosts : List HostStats} {counts : List Nat} :
    (hosts.map fun s => decimal s.changed).map intOfDigits = counts.map some ↔
      (∀ s ∈ hosts, (decimal s.changed).length ≤ maxStrDigits) ∧
        counts = hosts.map HostStats.changed := by
  induction hosts generalizing counts with
  | nil => cases counts <;> simp
  | cons s hosts ih =>
    rw [List.map_cons, List.map_cons, eq_comm, List.map_eq_cons_iff, intOfDigits_decimal_eq]
    constructor
    · rintro ⟨n, rest, rfl, hn, hrest⟩
      obtain ⟨hshort, rfl⟩ := ih.mp hrest.symm
      split_ifs at hn with hs
      cases hn
      exact ⟨List.forall_mem_cons.mpr ⟨hs, hshort⟩, rfl⟩
    · rintro ⟨hshort, rfl⟩
      obtain ⟨hs, hshort⟩ := List.forall_mem_cons.mp hshort
      rw [if_pos hs]
      exact ⟨s.changed, _, rfl, rfl, (ih.mpr ⟨hshort, rfl⟩).symm⟩

theorem totalOf_eq_recapTotal_iff (earlier : List Str) (hosts : List HostStats) :
    totalOf (earlier ++ hosts.map fun s => decimal s.changed) = some (some (recapTotal hosts)) ↔
      (∀ number ∈ earlier, intOfDigits number = some 0) ∧
        (∀ s ∈ hosts, (decimal s.changed).length ≤ maxStrDigits) ∧
          (earlier ≠ [] ∨ hosts ≠ []) := by
  have hne : earlier ++ hosts.map (fun s => decimal s.changed) ≠ [] ↔
      earlier ≠ [] ∨ hosts ≠ [] := by
    rw [ne_eq, List.append_eq_nil_iff, List.map_eq_nil_iff]
    tauto
  rw [totalOf_eq_iff, hne, List.map_append]
  constructor
  · rintro ⟨hsome, counts, hcounts, hsum⟩
    obtain ⟨first, last, rfl, hfirst, hlast⟩ := List.append_eq_map_iff.mp hcounts
    obtain ⟨hshort, rfl⟩ := counts_of_hosts.mp hlast.symm
    rw [List.sum_append, recapTotal, Nat.add_eq_right, List.sum_eq_zero_iff] at hsum
    refine ⟨fun number hnumber => ?_, hshort, hsome⟩
    have hmem : intOfDigits number ∈ first.map some := hfirst ▸ List.mem_map_of_mem hnumber
    obtain ⟨n, hn, heq⟩ := List.mem_map.mp hmem
    rw [← heq, hsum n hn]
  · rintro ⟨hzero, hshort, hsome⟩
    refine ⟨hsome, List.replicate earlier.length 0 ++ hosts.map HostStats.changed, ?_, ?_⟩
    · rw [List.map_append, counts_of_hosts.mpr ⟨hshort, rfl⟩, List.map_replicate]
      congr 1
      rw [List.eq_replicate_iff]
      refine ⟨List.length_map _, fun x hx => ?_⟩
      obtain ⟨number, hnumber, rfl⟩ := List.mem_map.mp hx
      exact hzero number hnumber
    · rw [List.sum_append, List.sum_replicate, recapTotal]
      simp

section Count

variable {before : Bytes} {stars : Nat} {hosts : List HostStats}

/-- The count is the recap's, and the run is reported unchanged exactly when the recap says no
host was changed. -/
def CountsRecap (before : Bytes) (stars : Nat) (hosts : List HostStats) : Prop :=
  let log := before ++ utf8Encode (playRecap stars hosts)
  changedCount log = some (some (recapTotal hosts)) ∧
    ∀ mode, (∃ count, changedCount log = some count ∧
      (countVerdict mode count).exitCode = .unchanged) ↔ ∀ s ∈ hosts, s.changed = 0

theorem countVerdict_unchanged_iff (mode : Mode) (n : Nat) :
    (countVerdict mode (some n)).exitCode = .unchanged ↔ n = 0 := by
  rw [countVerdict]
  split_ifs <;> simp [*]

theorem recapTotal_eq_zero_iff : recapTotal hosts = 0 ↔ ∀ s ∈ hosts, s.changed = 0 := by
  simp [recapTotal, List.sum_eq_zero_iff]

theorem countsRecap_iff_count : CountsRecap before stars hosts ↔
    changedCount (before ++ utf8Encode (playRecap stars hosts)) =
      some (some (recapTotal hosts)) := by
  refine ⟨And.left, fun hcount => ⟨hcount, fun mode => ?_⟩⟩
  rw [hcount]
  simp [countVerdict_unchanged_iff, recapTotal_eq_zero_iff]

/-- When the change count is the recap's. -/
theorem countsRecap_iff (before : Bytes) (stars : Nat) (hosts : List HostStats)
    (hfit : (utf8Encode (playRecap stars hosts)).length ≤ recapTailBytes) :
    CountsRecap before stars hosts ↔
      (∀ number ∈ recapLines (earlierOutput before stars hosts), intOfDigits number = some 0) ∧
        (∀ s ∈ hosts, (decimal s.changed).length ≤ maxStrDigits) ∧
          (recapLines (earlierOutput before stars hosts) ≠ [] ∨ hosts ≠ []) := by
  rw [countsRecap_iff_count, changedCount_log hfit, totalOf_eq_recapTotal_iff]

def localhost (changed : Nat) : HostStats :=
  ⟨['l', 'o', 'c', 'a', 'l', 'h', 'o', 's', 't'], by decide, by simp [isSpace], 2, changed, 0, 0, 0,
    0, 0⟩

theorem countsRecap_plain : changedCount
    ("\nTASK [caddy : write] ***\nchanged: [localhost]\n".toList.map
      (fun c => UInt8.ofNat c.toNat) ++ utf8Encode (playRecap 3 [localhost 1])) = some (some 1) :=
  ((countsRecap_iff _ 3 [localhost 1] (by decide +kernel)).mpr
    ⟨by decide +kernel, by decide +kernel, Or.inr (by decide)⟩).1

/-- A line of a file in the diff of a task counts as if it were the recap's. -/
theorem diff_line_counted : ¬ CountsRecap
    ("+db1 : ok=1 changed=5 unreachable=0 failed=0\n".toList.map fun c => UInt8.ofNat c.toNat) 3
      [localhost 0] := by
  rw [countsRecap_iff_count]
  decide +kernel

end Count

end SharedInfra.PullTrigger
