import SharedInfra.Snds.Publication

/-!
# One bad line

A feed is read row by row: what a row adds to the counts and to the records is its own.  A row with
an infinite volume raises instead, so one line costs only itself exactly where no row that is read
has one (`costsOnlyItself_iff`).
-/

namespace SharedInfra.Snds

open Python Sequences

variable {F : Type} {floats : Floats F}

/-- The rows whose first field is an address. -/
def addressed (rows : List Str) : List Str := rows.filter fun row => (rowAddress row).isSome

def RecordsOf (rows : List Str) (records : List (IpReputation F)) : Prop :=
  List.Forall₂ (fun row r => rowAddress row = some r.ip) (addressed rows) records

structure Counted (rows : List Str) (feed : ParsedFeed F) : Prop where
  data : feed.dataLines = rows.length
  skipped : feed.skippedLines = (rows.filter fun row => (rowAddress row).isNone).length
  difference : feed.skippedLines + feed.records.length = feed.dataLines
  records : RecordsOf rows feed.records

/-- One data line is replaced, put in or taken out; the header decision of the others is the
same. -/
structure Edited (text text' : Str) (before after : List Str) (line line' : Option Str) : Prop where
  old : dataRows text = before ++ (line.toList ++ after)
  new : dataRows text' = before ++ (line'.toList ++ after)

def SameAround (before after : List Str) (line line' : Option Str)
    (records records' : List (IpReputation F)) : Prop :=
  ∃ first last middle middle', records = first ++ (middle ++ last) ∧
    records' = first ++ (middle' ++ last) ∧ RecordsOf before first ∧ RecordsOf after last ∧
    RecordsOf line.toList middle ∧ RecordsOf line'.toList middle'

/-- A feed is read, its counts are right, and an edit of one line changes the records of no
other. -/
def CostsOnlyItself (floats : Floats F) (text text' : Str) : Prop :=
  ∃ feed, parseSndsFeed floats text = .ok feed ∧ Counted (dataRows text) feed ∧
    ∀ before after line line', Edited text text' before after line line' →
      ∃ feed', parseSndsFeed floats text' = .ok feed' ∧
        SameAround before after line line' feed.records feed'.records

theorem readLine_counts {feed feed' : ParsedFeed F} {line : Str} (hrow : strip line ≠ [])
    (hheader : feed.dataLines = 0 → ¬ looksLikeAHeader ((fieldsOf (strip line)).headD []))
    (h : readLine floats feed line = .ok feed') : feed'.dataLines = feed.dataLines + 1 ∧
      feed'.skippedLines = feed.skippedLines +
        ([strip line].filter fun row => (rowAddress row).isNone).length := by
  have hnoheader : ¬ (feed.records = [] ∧ feed.dataLines = 0 ∧
      looksLikeAHeader ((fieldsOf (strip line)).headD []) = true) :=
    fun h => hheader h.2.1 h.2.2
  rw [readLine] at h
  simp only [if_neg hrow, if_neg hnoheader] at h
  rw [List.filter_singleton, rowAddress]
  cases haddress : ipText ((fieldsOf (strip line)).headD []) with
  | none =>
    rw [haddress] at h
    rw [← Except.ok.inj h]
    exact ⟨rfl, rfl⟩
  | some ip =>
    rw [haddress] at h
    obtain ⟨record, -, h⟩ := Effects.bind_eq_ok_iff.mp h
    rw [← Except.ok.inj h]
    exact ⟨rfl, rfl⟩

theorem counts_rows {lines : List Str} {feed feed' : ParsedFeed F} (hdata : feed.dataLines ≠ 0)
    (h : lines.foldlM (readLine floats) feed = .ok feed') :
    feed'.dataLines = feed.dataLines + (rowsOf lines).length ∧ feed'.skippedLines =
      feed.skippedLines + ((rowsOf lines).filter fun row => (rowAddress row).isNone).length := by
  induction lines generalizing feed with
  | nil =>
    obtain rfl := Except.ok.inj h
    exact ⟨rfl, rfl⟩
  | cons line lines ih =>
    rw [List.foldlM_cons] at h
    rw [rowsOf, List.map_cons]
    by_cases hblank : strip line = []
    · rw [readLine_blank hblank] at h
      rw [List.filter_cons_of_neg (by simp [hblank])]
      exact ih hdata h
    · rw [List.filter_cons_of_pos (by simp [hblank])]
      obtain ⟨middle, hline, h⟩ := Effects.bind_eq_ok_iff.mp h
      obtain ⟨hcount, hskip⟩ := readLine_counts hblank (fun h => absurd h hdata) hline
      obtain ⟨hcounts, hskips⟩ := ih (by rw [hcount]; exact Nat.succ_ne_zero _) h
      have hsplit : strip line :: (lines.map strip).filter (· ≠ []) =
          [strip line] ++ rowsOf lines := rfl
      rw [hcounts, hskips, hcount, hskip, hsplit, List.length_append, List.filter_append,
        List.length_append]
      exact ⟨Nat.add_assoc _ _ _, Nat.add_assoc _ _ _⟩

theorem readLine_header {line : Str} (hrow : strip line ≠ [])
    (hheader : isHeaderRow (strip line) = true) :
    readLine floats ⟨[], 0, 0⟩ line = .ok ⟨[], 0, 0⟩ := by
  rw [readLine]
  simp only [if_neg hrow]
  exact if_pos ⟨trivial, trivial, hheader⟩

theorem counts_feed {lines : List Str} {feed : ParsedFeed F}
    (h : lines.foldlM (readLine floats) ⟨[], 0, 0⟩ = .ok feed) :
    feed.dataLines = ((rowsOf lines).dropWhile isHeaderRow).length ∧
      feed.skippedLines = (((rowsOf lines).dropWhile isHeaderRow).filter fun row =>
        (rowAddress row).isNone).length := by
  induction lines with
  | nil =>
    obtain rfl := Except.ok.inj h
    exact ⟨rfl, rfl⟩
  | cons line lines ih =>
    rw [List.foldlM_cons] at h
    rw [rowsOf, List.map_cons]
    by_cases hblank : strip line = []
    · rw [readLine_blank hblank] at h
      rw [List.filter_cons_of_neg (by simp [hblank])]
      exact ih h
    · rw [List.filter_cons_of_pos (by simp [hblank])]
      by_cases hheader : isHeaderRow (strip line) = true
      · rw [readLine_header hblank hheader] at h
        rw [List.dropWhile_cons_of_pos hheader]
        exact ih h
      · rw [List.dropWhile_cons_of_neg hheader]
        obtain ⟨middle, hline, h⟩ := Effects.bind_eq_ok_iff.mp h
        obtain ⟨hcount, hskip⟩ := readLine_counts hblank (fun _ => hheader) hline
        obtain ⟨hcounts, hskips⟩ := counts_rows (by rw [hcount]; exact Nat.succ_ne_zero _) h
        have hsplit : strip line :: (lines.map strip).filter (· ≠ []) =
            [strip line] ++ rowsOf lines := rfl
        rw [hcounts, hskips, hcount, hskip, hsplit, List.length_append, List.filter_append,
          List.length_append, Nat.zero_add, Nat.zero_add]
        exact ⟨rfl, rfl⟩

theorem recordsOf_filterMap (floats : Floats F) (rows : List Str) :
    RecordsOf rows (rows.filterMap (rowRecord floats)) := by
  induction rows with
  | nil => exact .nil
  | cons row rows ih =>
    rw [RecordsOf, addressed, List.filter_cons, List.filterMap_cons]
    cases haddress : rowAddress row with
    | none =>
      rw [rowRecord, haddress]
      exact ih
    | some ip =>
      rw [rowRecord, haddress]
      exact .cons haddress ih

theorem counted_of_parse {text : Str} {feed : ParsedFeed F}
    (h : parseSndsFeed floats text = .ok feed) : Counted (dataRows text) feed := by
  obtain ⟨hdata, hskipped⟩ := counts_feed h
  have hrecords : feed.records = (dataRows text).filterMap (rowRecord floats) := by
    have hreads := reads_parseSndsFeed floats text
    rw [h] at hreads
    exact hreads.2
  have hof := recordsOf_filterMap floats (dataRows text)
  rw [← hrecords] at hof
  refine ⟨hdata, hskipped, ?_, hof⟩
  have hkinds := List.length_eq_length_filter_add (l := dataRows text)
    fun row => (rowAddress row).isSome
  have hnone : ((dataRows text).filter fun row => !(rowAddress row).isSome) =
      (dataRows text).filter fun row => (rowAddress row).isNone :=
    List.filter_congr fun row _ => Option.not_isSome _
  rw [hnone] at hkinds
  rw [← hof.length_eq, hskipped, hdata]
  exact (Nat.add_comm _ _).trans hkinds.symm

theorem parse_ok_iff {text : Str} : (∃ feed, parseSndsFeed floats text = .ok feed) ↔
    ∀ row ∈ dataRows text, ¬ Overflows floats row := by
  have hreads := reads_parseSndsFeed floats text
  cases hparse : parseSndsFeed floats text with
  | error e =>
    rw [hparse] at hreads
    obtain ⟨row, hrow, hoverflow⟩ := hreads
    refine ⟨fun ⟨feed, h⟩ => ?_, fun h => absurd hoverflow (h row hrow)⟩
    cases h
  | ok feed =>
    rw [hparse] at hreads
    exact ⟨fun _ => hreads.1, fun _ => ⟨feed, rfl⟩⟩

theorem sameAround {text text' : Str} {before after : List Str} {line line' : Option Str}
    {feed feed' : ParsedFeed F} (hedited : Edited text text' before after line line')
    (h : parseSndsFeed floats text = .ok feed) (h' : parseSndsFeed floats text' = .ok feed') :
    SameAround before after line line' feed.records feed'.records := by
  have hreads := reads_parseSndsFeed floats text
  have hreads' := reads_parseSndsFeed floats text'
  rw [h] at hreads
  rw [h'] at hreads'
  refine ⟨before.filterMap (rowRecord floats), after.filterMap (rowRecord floats),
    line.toList.filterMap (rowRecord floats), line'.toList.filterMap (rowRecord floats), ?_, ?_,
    recordsOf_filterMap _ _, recordsOf_filterMap _ _, recordsOf_filterMap _ _, recordsOf_filterMap _ _⟩
  · rw [hreads.2, hedited.old, List.filterMap_append, List.filterMap_append]
    rfl
  · rw [hreads'.2, hedited.new, List.filterMap_append, List.filterMap_append]
    rfl

/-- One line costs only itself where no row of the feed has an infinite volume, and none of the
edited feed. -/
theorem costsOnlyItself_iff (floats : Floats F) (text text' : Str) :
    CostsOnlyItself floats text text' ↔ (∀ row ∈ dataRows text, ¬ Overflows floats row) ∧
      ∀ before after line line', Edited text text' before after line line' →
        ∀ row ∈ dataRows text', ¬ Overflows floats row := by
  constructor
  · rintro ⟨feed, hparse, -, hedits⟩
    refine ⟨parse_ok_iff.mp ⟨feed, hparse⟩, fun before after line line' hedited => ?_⟩
    obtain ⟨feed', hparse', -⟩ := hedits before after line line' hedited
    exact parse_ok_iff.mp ⟨feed', hparse'⟩
  · rintro ⟨hread, hedits⟩
    obtain ⟨feed, hparse⟩ := parse_ok_iff.mpr hread
    refine ⟨feed, hparse, counted_of_parse hparse, fun before after line line' hedited => ?_⟩
    obtain ⟨feed', hparse'⟩ := parse_ok_iff.mpr (hedits before after line line' hedited)
    exact ⟨feed', hparse', sameAround hedited hparse hparse'⟩

def infinity : Floats Unit where
  parse s := if s = "inf".toList then some () else none
  percent _ := ()
  truncate _ := .overflow
  repr _ := "inf"
  repr_number _ := Pattern.fullMatch_iff.mp (by decide)

/-- A volume of `inf` loses every line of its feed. -/
theorem infinite_volume : ¬ CostsOnlyItself infinity
    "192.0.2.1,green,,5\n192.0.2.2,green,,inf" "192.0.2.1,green,,5" := by
  rw [costsOnlyItself_iff]
  rintro ⟨hread, -⟩
  have hrow : "192.0.2.2,green,,inf".toList ∈
      dataRows "192.0.2.1,green,,5\n192.0.2.2,green,,inf" := by decide
  exact hread _ hrow ⟨by decide, rfl⟩

end SharedInfra.Snds
