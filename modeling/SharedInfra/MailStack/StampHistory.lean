import SharedInfra.Mail.SecretLines
import SharedInfra.MailStack.StampText

/-!
# Histories of a stamp

The runs of the role over one stamp, step by step: `decide`, then `mark`, the action, the read-back
and `record` where the class is due, `record` alone where the host is adopted.  A run stops after
any step, and the files change at any time.  What the stamp says goes back to the last of the steps
that write it (`follows_of_runs`), so a decision that is not due is honest.
-/

namespace SharedInfra.MailStack

open Python Sequences Effects Mail

/-- How far a run is. -/
inductive Phase where
  | idle
  | decided (decision : Decision)
  | marked
  | acted
  | confirmed

structure Host where
  stamp : StampFile
  files : FileSystem
  phase : Phase

inductive Event where
  | decided (lines expected : Lines) (live : Live) (decision : Decision)
  | marked
  | acted
  | confirmed
  | recorded (lines : Lines)
  | stopped
  | changed

/-- One step of a run, or of the host between the steps. -/
inductive Step (sha256 : Sha256) : Host → Event → Host → Prop
  | decide {host : Host} {inputs : Inputs} {live : Live} {lines : Lines} {stamp : Stamp}
      (hidle : host.phase = .idle) (hlines : currentLines sha256 host.files inputs = .ok lines)
      (hstamp : readStamp host.stamp = .ok stamp) :
      Step sha256 host
        (.decided lines inputs.expected live (decideClass stamp lines inputs.expected live))
        { host with phase := .decided (decideClass stamp lines inputs.expected live) }
  | mark {host : Host} {decision : Decision} (hdecided : host.phase = .decided decision)
      (hdue : decision.due = true) :
      Step sha256 host .marked { host with stamp := mark host.stamp, phase := .marked }
  | act {host : Host} (hmarked : host.phase = .marked) :
      Step sha256 host .acted { host with phase := .acted }
  | confirm {host : Host} (hacted : host.phase = .acted) :
      Step sha256 host .confirmed { host with phase := .confirmed }
  | record {host : Host} {inputs : Inputs} {lines : Lines}
      (hphase : host.phase = .confirmed ∨
        ∃ decision, host.phase = .decided decision ∧ decision.adopt = true)
      (hlines : currentLines sha256 host.files inputs = .ok lines) :
      Step sha256 host (.recorded lines)
        { host with stamp := record host.stamp lines, phase := .idle }
  | stop {host : Host} : Step sha256 host .stopped { host with phase := .idle }
  | change {host : Host} {files : FileSystem} :
      Step sha256 host .changed { host with files := files }

/-- The host after a history, which is told from its latest event. -/
inductive Runs (sha256 : Sha256) (start : Host) : List Event → Host → Prop
  | start : Runs sha256 start [] start
  | step {events : List Event} {host host' : Host} {event : Event}
      (hruns : Runs sha256 start events host) (hstep : Step sha256 host event host') :
      Runs sha256 start (event :: events) host'

def lastWrite : List Event → Option Event
  | [] => none
  | .marked :: _ => some .marked
  | .recorded lines :: _ => some (.recorded lines)
  | _ :: events => lastWrite events

/-- A host that has no stamp yet, between runs. -/
structure Fresh (host : Host) : Prop where
  stamp : host.stamp = .absent
  phase : host.phase = .idle

/-- A decision that is not due is made on a stamp that was recorded, with the lines of now, or on a
host that is adopted; no file differs from the repository, and the running state is fresh and ok. -/
structure NothingUnfinished (events : List Event) (lines expected : Lines) (live : Live)
    (decision : Decision) : Prop where
  recorded : lastWrite events = some (.recorded lines) ∨
    lastWrite events = none ∧ decision.adopt = true
  placed : ∀ entry ∈ expected, lines.lookup entry.1 = some entry.2
  present : ∀ line ∈ lines, line.2 = absentHash → line.1 ∈ expected.map Prod.fst
  ok : live.ok = true
  fresh : live.stale = false

/-- Every decision behind a history is honest, and the one behind a run that was stopped between
`mark` and `record` is due. -/
def NeverHides (sha256 : Sha256) (events : List Event) (host : Host) : Prop :=
  ∀ lines expected live decision host',
    Step sha256 host (.decided lines expected live decision) host' →
      (decision.due = false → NothingUnfinished events lines expected live decision) ∧
      (lastWrite events = some .marked → decision.due = true)

section Deciding

variable {stamp : Stamp} {lines expected : Lines} {live : Live}

theorem reasonsOf_eq_nil (h : (decideClass stamp lines expected live).due = false) :
    reasonsOf stamp lines expected live = [] := by
  rw [decideClass] at h
  dsimp only at h
  rw [Bool.not_eq_false', List.isEmpty_iff] at h
  split_ifs at h with habsent
  · exact h

theorem sorted_eq_nil_iff {names : List Str} : sorted names = [] ↔ names = [] := by
  rw [sorted, ← List.length_eq_zero_iff, List.length_mergeSort, List.length_eq_zero_iff]

theorem eq_of_differing (hrecorded : stamp.state = .recorded) (hstamp : Ascending stamp.lines)
    (hlines : Ascending lines) (h : differing stamp lines = []) : stamp.lines = lines := by
  rw [differing, if_neg (not_not.mpr hrecorded), sorted_eq_nil_iff, List.filter_eq_nil_iff] at h
  refine eq_of_lookup_eq hstamp hlines fun name => ?_
  by_contra hne
  have hmem : name ∈ (lines.map Prod.fst ++ stamp.lines.map Prod.fst).dedup := by
    rw [List.mem_dedup, List.mem_append]
    by_contra hnone
    rw [not_or] at hnone
    refine hne ?_
    rw [lookup_eq_none_of_not_mem hnone.1, lookup_eq_none_of_not_mem hnone.2]
  exact h name hmem (bne_iff_ne.mpr hne)

theorem nothingUnfinished_of {events : List Event}
    (h : (decideClass stamp lines expected live).due = false)
    (hstamp : lastWrite events = some (.recorded lines) ∨
      lastWrite events = none ∧ stamp.state = .absent) :
    NothingUnfinished events lines expected live (decideClass stamp lines expected live) := by
  have hnil := reasonsOf_eq_nil h
  have hfound := hnil
  rw [reasonsOf] at hfound
  simp only [List.append_eq_nil_iff, List.map_eq_nil_iff, repositoryDiffers, missing,
    sorted_eq_nil_iff, List.filter_eq_nil_iff] at hfound
  obtain ⟨⟨⟨⟨⟨-, -⟩, hplaced⟩, hmissing⟩, hstale⟩, hok⟩ := hfound
  refine ⟨hstamp.imp_right fun habsent => ⟨habsent.1, ?_⟩, fun entry hentry => ?_,
    fun line hline habsent => ?_, ?_, ?_⟩
  · rw [decideClass]
    dsimp only
    rw [hnil, habsent.2]
    rfl
  · simpa using hplaced entry hentry
  · by_contra hnot
    refine hmissing line hline ?_
    rw [habsent, beq_self_eq_true, Bool.true_and, Bool.not_eq_true', decide_eq_false_iff_not]
    exact hnot
  · by_contra hnot
    rw [if_neg hnot] at hok
    cases hok
  · by_contra hnot
    rw [if_pos (by simpa using hnot)] at hstale
    cases hstale

end Deciding

section Runs

variable {sha256 : Sha256} {host host' start : Host} {events : List Event} {event : Event}
  {lines : Lines} {inputs : Inputs} {text : Str}

/-- The stamp as its latest write left it. -/
def Follows : Option Event → StampFile → Prop
  | none, stamp => stamp = .absent
  | some .marked, stamp => readStamp stamp = .ok ⟨.pending, []⟩
  | some (.recorded lines), stamp => Ascending lines ∧
      (readStamp stamp = .ok ⟨.recorded, lines⟩ ∨ ∃ e, readStamp stamp = .error e)
  | _, _ => False

theorem readStamp_placeStamp (stamp : StampFile) (h : '\r' ∉ text) :
    readStamp (placeStamp stamp text) = parse text := by
  rw [placeStamp]
  split_ifs with hchange
  · have htext : fileText (some (utf8Encode text)) = some text := by
      rw [fileText, Option.bind_some, utf8Decode_encode, Option.map_some,
        universalNewlines_of_not_mem h]
    rw [writeAtomic, readStamp, if_neg (by decide), htext]
  · cases stamp with
    | absent => exact absurd rfl hchange
    | notRegular => exact absurd rfl hchange
    | file mode bytes =>
      rw [wouldChange, Bool.not_eq_true, Bool.or_eq_false_iff, bne_eq_false_iff_eq,
        bne_eq_false_iff_eq] at hchange
      have hmode : mode % 0o100 = 0 := by
        have := hchange.1
        rw [stampFileMode] at this
        omega
      rw [readStamp, if_neg (not_not.mpr hmode), hchange.2]

theorem currentLines_eq_ok (h : currentLines sha256 host.files inputs = .ok lines) :
    ∃ found, List.Forall₂ (fun file line => fileLine sha256 host.files file = .ok line)
        inputs.files found ∧
      lines = sortByKey (found ++ inputs.values.map fun value =>
        (value.1, hashValue sha256 value.2)) ∧
      (inputs.files.map Prod.fst ++ inputs.values.map Prod.fst).Nodup ∧
      ∀ name ∈ inputs.files.map Prod.fst ++ inputs.values.map Prod.fst,
        isInputName name = true := by
  rw [currentLines] at h
  split_ifs at h with hbad hnodup
  obtain ⟨found, hfound, h⟩ := bind_eq_ok_iff.mp h
  cases h
  refine ⟨found, mapM_eq_ok_iff.mp hfound, rfl, hnodup, fun name hname => ?_⟩
  by_contra hnot
  exact hbad (List.any_eq_true.mpr ⟨name, hname, by simpa using hnot⟩)

theorem fileLine_eq_ok {file line : Str × Str} (h : fileLine sha256 host.files file = .ok line) :
    line.1 = file.1 ∧ hashFile sha256 host.files file.2 = .ok line.2 := by
  obtain ⟨digest, hdigest, h⟩ := bind_eq_ok_iff.mp h
  cases h
  exact ⟨rfl, hdigest⟩

theorem mem_currentLines (h : currentLines sha256 host.files inputs = .ok lines)
    {line : Str × Str} (hline : line ∈ lines) :
    (∃ path, (line.1, path) ∈ inputs.files ∧ hashFile sha256 host.files path = .ok line.2) ∨
      ∃ value, (line.1, value) ∈ inputs.values ∧ line.2 = hashValue sha256 value := by
  obtain ⟨found, hfound, rfl, -, -⟩ := currentLines_eq_ok h
  rcases List.mem_append.mp (mem_sortByKey.mp hline) with hline | hline
  · obtain ⟨file, hfile, hof⟩ := exists_mem_of_forall₂' hfound hline
    obtain ⟨hname, hhash⟩ := fileLine_eq_ok hof
    exact .inl ⟨file.2, hname ▸ hfile, hhash⟩
  · obtain ⟨value, hvalue, rfl⟩ := List.mem_map.mp hline
    exact .inr ⟨value.2, hvalue, rfl⟩

theorem ascending_currentLines (h : currentLines sha256 host.files inputs = .ok lines) :
    Ascending lines := by
  obtain ⟨found, hfound, rfl, hnodup, -⟩ := currentLines_eq_ok h
  refine ascending_sortByKey ?_
  have hnames : ∀ {files : List (Str × Str)} {found : Lines},
      List.Forall₂ (fun file line => fileLine sha256 host.files file = .ok line) files found →
        found.map Prod.fst = files.map Prod.fst := by
    intro files found hfound
    induction hfound with
    | nil => rfl
    | cons hof _ ih => rw [List.map_cons, List.map_cons, (fileLine_eq_ok hof).1, ih]
  rw [List.map_append, hnames hfound, List.map_map]
  exact hnodup

theorem isLineHash_hashFile {path digest : Str}
    (h : hashFile sha256 host.files path = .ok digest) : isLineHash digest = true := by
  rw [hashFile] at h
  split at h
  · cases h
    rw [isLineHash, beq_self_eq_true, Bool.or_true]
  · cases h
  · cases h
  · cases h
    exact sha256.isLineHash_hexdigest _

theorem wellFormed_currentLines (h : currentLines sha256 host.files inputs = .ok lines) :
    ∀ line ∈ lines, WellFormed line := by
  intro line hline
  obtain ⟨-, -, -, -, hnames⟩ := currentLines_eq_ok h
  rcases mem_currentLines h hline with ⟨path, hfile, hhash⟩ | ⟨value, hvalue, hhash⟩
  · exact ⟨hnames _ (List.mem_append_left _ (List.mem_map.mpr ⟨_, hfile, rfl⟩)),
      isLineHash_hashFile hhash⟩
  · refine ⟨hnames _ (List.mem_append_right _ (List.mem_map.mpr ⟨_, hvalue, rfl⟩)), ?_⟩
    rw [hhash]
    exact sha256.isLineHash_hexdigest _

theorem follows_record (h : currentLines sha256 host.files inputs = .ok lines) :
    Follows (some (.recorded lines)) (record host.stamp lines) := by
  have hascending := ascending_currentLines h
  have hreturn : '\r' ∉ render lines := by
    rw [render, sortByKey_of_ascending hascending]
    intro hmem
    refine absurd (onlyNewlines_unlines ?_ '\r' hmem (by decide)) (by decide)
    intro raw hraw
    obtain ⟨line, hline, rfl⟩ := List.mem_map.mp hraw
    exact (wellFormed_currentLines h line hline).noBreak
  refine ⟨hascending, ?_⟩
  rw [record, readStamp_placeStamp host.stamp hreturn]
  by_cases hnil : lines = []
  · subst hnil
    rw [render, sortByKey_of_ascending hascending]
    exact .inr ⟨.noLineBreak, rfl⟩
  · exact .inl (parse_render ⟨hnil, hascending, wellFormed_currentLines h⟩)

theorem follows_of_step (h : Follows (lastWrite events) host.stamp)
    (hstep : Step sha256 host event host') : Follows (lastWrite (event :: events)) host'.stamp := by
  cases hstep with
  | decide => exact h
  | mark => exact readStamp_placeStamp host.stamp (by decide)
  | act => exact h
  | confirm => exact h
  | record hphase hlines => exact follows_record hlines
  | stop => exact h
  | change => exact h

theorem follows_of_runs (hstart : Fresh start) (h : Runs sha256 start events host) :
    Follows (lastWrite events) host.stamp := by
  induction h with
  | start => exact hstart.stamp
  | step _ hstep ih => exact follows_of_step ih hstep

theorem neverHides_of_runs (hstart : Fresh start) (h : Runs sha256 start events host) :
    NeverHides sha256 events host := by
  have hfollows := follows_of_runs hstart h
  intro lines expected live decision host' hstep
  cases hstep with
  | @decide inputs _ _ stamp hidle hlines hstamp =>
    cases hlast : lastWrite events with
    | none =>
      rw [hlast] at hfollows
      have habsent : host.stamp = .absent := hfollows
      rw [habsent] at hstamp
      cases hstamp
      exact ⟨fun hdue => nothingUnfinished_of hdue (.inr ⟨hlast, rfl⟩), fun hmarked => by
        cases hmarked⟩
    | some event =>
      rw [hlast] at hfollows
      cases event with
      | marked =>
        have hread : readStamp host.stamp = .ok ⟨.pending, []⟩ := hfollows
        rw [hread] at hstamp
        cases hstamp
        have hdue : (decideClass ⟨.pending, []⟩ lines inputs.expected live).due = true := by
          by_contra hnot
          have hnil := reasonsOf_eq_nil (Bool.not_eq_true _ ▸ hnot)
          cases hnil
        exact ⟨fun hnot => absurd (hdue.symm.trans hnot) (by decide), fun _ => hdue⟩
      | recorded written =>
        obtain ⟨hascending, hread | ⟨e, hread⟩⟩ := hfollows
        · rw [hread] at hstamp
          cases hstamp
          refine ⟨fun hdue => ?_, fun hmarked => by cases hmarked⟩
          have hnil := reasonsOf_eq_nil hdue
          have hdiffering : differing ⟨.recorded, written⟩ lines = [] := by
            rw [reasonsOf] at hnil
            simp only [List.append_eq_nil_iff, if_true, List.map_eq_nil_iff] at hnil
            exact hnil.1.1.1.1.2
          have hsame : written = lines :=
            eq_of_differing rfl hascending (ascending_currentLines hlines) hdiffering
          exact nothingUnfinished_of hdue (.inl (hsame ▸ hlast))
        · rw [hread] at hstamp
          cases hstamp
      | decided => exact absurd hfollows id
      | acted => exact absurd hfollows id
      | confirmed => exact absurd hfollows id
      | stopped => exact absurd hfollows id
      | changed => exact absurd hfollows id

end Runs

end SharedInfra.MailStack
