import SharedInfra.Snds.Collector
import SharedInfra.Snds.Publication

/-!
# The health file as it is read

The health text of a run is read gauge by gauge: `gaugeOf` of the text that
`render_health_text` returns is the value it was given.
-/

namespace SharedInfra.Snds

open Python Sequences Pattern Exposition

variable {F : Type}

def gaugeOf (file : Option Str) (metric : Str) : Option Str :=
  (file.bind readText).bind fun samples => (samples.find? (·.metric = metric)).map (·.value)

section Gauges

def Gauge.sample (gauge : Gauge) : Sample := ⟨gauge.metric, [], gauge.value⟩

/-- A gauge the lines of which are read back. -/
structure Gauge.Readable (gauge : Gauge) : Prop where
  metric : ∀ c ∈ gauge.metric, c ≠ '{' ∧ c ≠ ' ' ∧ c ≠ '#' ∧ c ≠ '\n'
  help : '\n' ∉ gauge.help
  value : gauge.value ∈ number.lang

variable {gauge : Gauge}

theorem foldl_step_name {metric : Str} (h : ∀ c ∈ metric, c ≠ '{' ∧ c ≠ ' ') (read : Str) :
    metric.foldl step (.name read) = .name (read ++ metric) := by
  induction metric generalizing read with
  | nil => rw [List.append_nil, List.foldl_nil]
  | cons c metric ih =>
    obtain ⟨hc, hmetric⟩ := List.forall_mem_cons.mp h
    rw [List.foldl_cons, step, if_neg hc.1, if_neg hc.2, ih hmetric, List.append_assoc]
    rfl

theorem Gauge.Readable.readSample_eq (h : gauge.Readable) :
    readSample (gauge.metric ++ ' ' :: gauge.value) = some gauge.sample := by
  have hname := foldl_step_name (fun c hc => ⟨(h.metric c hc).1, (h.metric c hc).2.1⟩) []
  have hrun : (gauge.metric ++ ' ' :: gauge.value).foldl step (.name []) =
      .number gauge.metric [] gauge.value := by
    rw [List.foldl_append, hname, List.foldl_cons]
    exact foldl_step_number gauge.value []
  rw [readSample, hrun, ReadState.sample, if_pos (fullMatch_iff.mpr h.value)]
  rfl

theorem Gauge.Readable.filter_lines (h : gauge.Readable) :
    gauge.lines.filter (fun line => !startsWith line ['#']) =
      [gauge.metric ++ ' ' :: gauge.value] := by
  have hsample : startsWith (gauge.metric ++ ' ' :: gauge.value) ['#'] = false := by
    cases hmetric : gauge.metric with
    | nil => rfl
    | cons c rest =>
      have hc := (h.metric c (hmetric ▸ List.mem_cons_self ..)).2.2.1
      simp [startsWith, List.isPrefixOf, Ne.symm hc]
  rw [Gauge.lines, List.filter_cons_of_neg (by simp [startsWith, List.isPrefixOf]),
    List.filter_cons_of_neg (by simp [startsWith, List.isPrefixOf]),
    List.filter_cons_of_pos (by rw [hsample]; rfl), List.filter_nil]

theorem Gauge.Readable.newline_not_mem (h : gauge.Readable) :
    ∀ line ∈ gauge.lines, '\n' ∉ line := by
  have hmetric : '\n' ∉ gauge.metric := fun hmem => (h.metric _ hmem).2.2.2 rfl
  have hhelp : '\n' ∉ "# HELP ".toList := by decide
  have htype : '\n' ∉ "# TYPE ".toList := by decide
  have hgauge : '\n' ∉ " gauge".toList := by decide
  have hspace : '\n' ≠ ' ' := by decide
  rw [Gauge.lines, List.forall_mem_cons, List.forall_mem_cons, List.forall_mem_cons]
  simp only [List.mem_append, List.mem_cons, not_or]
  exact ⟨⟨⟨hhelp, hmetric⟩, hspace, h.help⟩, ⟨⟨htype, hmetric⟩, hgauge⟩,
    ⟨hmetric, hspace, newline_not_mem_number h.value⟩, nofun⟩

theorem readText_gauges {gauges : List Gauge} (h : ∀ gauge ∈ gauges, gauge.Readable) :
    readText (unlines (gauges.flatMap Gauge.lines)) = some (gauges.map Gauge.sample) := by
  have hlines : ∀ line ∈ gauges.flatMap Gauge.lines, '\n' ∉ line := by
    intro line hline
    obtain ⟨gauge, hgauge, hmem⟩ := List.mem_flatMap.mp hline
    exact (h gauge hgauge).newline_not_mem line hmem
  rw [readText, newlineLines_unlines hlines, mapM_eq_some_iff]
  clear hlines
  induction gauges with
  | nil => rfl
  | cons gauge gauges ih =>
    obtain ⟨hgauge, hgauges⟩ := List.forall_mem_cons.mp h
    rw [List.flatMap_cons, List.filter_append, hgauge.filter_lines, List.map_append,
      ih hgauges, List.map_singleton, hgauge.readSample_eq]
    rfl

end Gauges

section Health

variable (floats : Floats F) (now : F) (succeeded : Bool) (firstSeen lastSuccess : Option F)
  (available : Option Bool)

theorem flag_mem_number (b : Bool) : flag b ∈ number.lang := by
  cases b
  · exact fullMatch_iff.mp (by decide)
  · exact fullMatch_iff.mp (by decide)

/-- The letters of a metric name end no part of a line. -/
def isMetricChar (c : Char) : Bool := c.isLower || c == '_'

theorem isMetricChar_ne {c : Char} (h : isMetricChar c = true) :
    c ≠ '{' ∧ c ≠ ' ' ∧ c ≠ '#' ∧ c ≠ '\n' := by
  refine ⟨?_, ?_, ?_, ?_⟩ <;> rintro rfl <;> revert h <;> decide

theorem metric_chars {metric : Str} (h : metric ∈ [lastAttempt, lastRunSuccess, lastSuccessTime,
    dataAvailable, linkStateReadable, linkFirstSeen]) :
    ∀ c ∈ metric, c ≠ '{' ∧ c ≠ ' ' ∧ c ≠ '#' ∧ c ≠ '\n' := by
  have hall : ∀ metric ∈ [lastAttempt, lastRunSuccess, lastSuccessTime, dataAvailable,
      linkStateReadable, linkFirstSeen], metric.all isMetricChar = true := by
    delta lastAttempt lastRunSuccess lastSuccessTime dataAvailable linkStateReadable linkFirstSeen
    simp only [toList_literal]
    decide
  exact fun c hc => isMetricChar_ne (List.all_eq_true.mp (hall metric h) c hc)

theorem help_chars {help : Str} (h : help ∈ [lastAttemptHelp, lastRunSuccessHelp,
    lastSuccessTimeHelp, dataAvailableHelp, linkStateReadableHelp, linkFirstSeenHelp]) :
    '\n' ∉ help := by
  have hall : ∀ help ∈ [lastAttemptHelp, lastRunSuccessHelp, lastSuccessTimeHelp,
      dataAvailableHelp, linkStateReadableHelp, linkFirstSeenHelp], '\n' ∉ help := by
    delta lastAttemptHelp lastRunSuccessHelp lastSuccessTimeHelp dataAvailableHelp
      linkStateReadableHelp linkFirstSeenHelp
    simp only [toList_literal]
    decide
  exact hall help h

theorem healthGauges_readable :
    ∀ gauge ∈ healthGauges floats now succeeded firstSeen lastSuccess available,
      gauge.Readable := by
  simp only [healthGauges, List.forall_mem_append, List.forall_mem_singleton,
    List.forall_mem_cons, Option.mem_toList]
  refine ⟨⟨⟨⟨⟨⟨metric_chars (by simp), help_chars (by simp), floats.repr_number now⟩,
      ⟨metric_chars (by simp), help_chars (by simp), flag_mem_number _⟩⟩, ?_⟩, ?_⟩,
      ⟨metric_chars (by simp), help_chars (by simp), flag_mem_number _⟩⟩, ?_⟩
  · intro gauge hgauge
    obtain ⟨time, -, rfl⟩ := Option.map_eq_some_iff.mp hgauge
    exact ⟨metric_chars (by simp), help_chars (by simp), floats.repr_number time⟩
  · intro gauge hgauge
    obtain ⟨data, -, rfl⟩ := Option.map_eq_some_iff.mp hgauge
    exact ⟨metric_chars (by simp), help_chars (by simp), flag_mem_number data⟩
  · intro gauge hgauge
    obtain ⟨time, -, rfl⟩ := Option.map_eq_some_iff.mp hgauge
    exact ⟨metric_chars (by simp), help_chars (by simp), floats.repr_number time⟩

theorem readText_health :
    readText (renderHealthText floats now succeeded firstSeen lastSuccess available) =
      some ((healthGauges floats now succeeded firstSeen lastSuccess available).map
        Gauge.sample) := by
  have hne : (healthGauges floats now succeeded firstSeen lastSuccess available).flatMap
      Gauge.lines ≠ [] := by
    simp [healthGauges, Gauge.lines]
  rw [renderHealthText]
  exact (congrArg readText (joinWith_newline hne)).trans
    (readText_gauges (healthGauges_readable _ _ _ _ _ _))

theorem gaugeOf_health (metric : Str) :
    gaugeOf (some (renderHealthText floats now succeeded firstSeen lastSuccess available)) metric =
      ((healthGauges floats now succeeded firstSeen lastSuccess available).find?
        (·.metric = metric)).map Gauge.value := by
  rw [gaugeOf, Option.bind_some, readText_health, Option.bind_some, List.find?_map, Option.map_map]
  rfl

theorem health_lastAttempt :
    gaugeOf (some (renderHealthText floats now succeeded firstSeen lastSuccess available))
      lastAttempt = some (floats.repr now) := by
  rw [gaugeOf_health]
  rfl

theorem health_lastRunSuccess :
    gaugeOf (some (renderHealthText floats now succeeded firstSeen lastSuccess available))
      lastRunSuccess = some (flag succeeded) := by
  rw [gaugeOf_health]
  rfl

theorem health_lastSuccessTime :
    gaugeOf (some (renderHealthText floats now succeeded firstSeen lastSuccess available))
      lastSuccessTime = lastSuccess.map floats.repr := by
  rw [gaugeOf_health]
  cases lastSuccess <;> cases available <;> cases firstSeen <;> rfl

theorem health_linkStateReadable :
    gaugeOf (some (renderHealthText floats now succeeded firstSeen lastSuccess available))
      linkStateReadable = some (flag firstSeen.isSome) := by
  rw [gaugeOf_health]
  cases lastSuccess <;> cases available <;> rfl

theorem health_linkFirstSeen :
    gaugeOf (some (renderHealthText floats now succeeded firstSeen lastSuccess available))
      linkFirstSeen = firstSeen.map floats.repr := by
  rw [gaugeOf_health]
  cases lastSuccess <;> cases available <;> cases firstSeen <;> rfl

end Health

end SharedInfra.Snds
