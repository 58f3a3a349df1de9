import SharedInfra.Effects.Moves
import SharedInfra.Sequences.FirstMatch
import SharedInfra.Snds.Feed

/-!
# What the collector publishes

The text published from a feed is a valid exposition (`ValidExposition`) exactly when
every address that is published spells a label value, which only a scope id can fail
to do, and no two rows of the feed publish one metric for one address
(`Publishable`).
-/

namespace SharedInfra.Snds

open Python Sequences Pattern Exposition Effects

variable {F : Type} {floats : Floats F}

def metrics : List Str := [rateMetric, volumeMetric, statusMetric]

/-- A text that is read, with the collector's three metrics only, no two samples of one metric with
the same labels and one status for an address. -/
def ValidExposition (text : Str) : Prop :=
  ∃ samples, readText text = some samples ∧ (∀ sample ∈ samples, sample.metric ∈ metrics) ∧
    (samples.map fun sample => (sample.metric, sample.labels)).Nodup ∧
    samples.Pairwise fun a b => a.metric = statusMetric → b.metric = statusMetric →
      a.labels.lookup "ip".toList ≠ b.labels.lookup "ip".toList

/-- The rows of a feed: its lines that are not blank, from the first that is no header on. -/
def dataRows (text : Str) : List Str :=
  (((splitlines text).map strip).filter (· ≠ [])).dropWhile fun row =>
    looksLikeAHeader ((fieldsOf row).headD [])

def rowAddress (row : Str) : Option Str := ipText ((fieldsOf row).headD [])

def rowRate (floats : Floats F) (row : Str) : Option F :=
  (fieldsOf row)[2]?.bind (parseComplaintRate floats)

/-- The volume of a row; `none` also where reading it raises. -/
def rowVolume (floats : Floats F) (row : Str) : Option Int :=
  (readVolume floats (fieldsOf row)).toOption.join

def rowStatus (row : Str) : Option Str := parseStatus (fieldsOf row)

def Overflows (floats : Floats F) (row : Str) : Prop :=
  (rowAddress row).isSome ∧ readVolume floats (fieldsOf row) = .error ()

/-- What the rows of a feed have to be like. -/
structure Publishable (floats : Floats F) (rows : List Str) : Prop where
  spelled : ∀ row ∈ rows, ∀ ip, rowAddress row = some ip →
    ((rowRate floats row).isSome ∨ (rowVolume floats row).isSome ∨ (rowStatus row).isSome) →
      decode ip ≠ none
  once : rows.Pairwise fun a b => ∀ ip, rowAddress a = some ip → rowAddress b = some ip →
    ¬ ((rowRate floats a).isSome ∧ (rowRate floats b).isSome) ∧
      ¬ ((rowVolume floats a).isSome ∧ (rowVolume floats b).isSome) ∧
      ¬ ((rowStatus a).isSome ∧ (rowStatus b).isSome)

section Parse

variable {feed : ParsedFeed F} {line : Str}

def rowRecord (floats : Floats F) (row : Str) : Option (IpReputation F) :=
  (rowAddress row).map fun ip => ⟨ip, rowStatus row, rowRate floats row, rowVolume floats row⟩

/-- What reading rows behind the given records ends with. -/
def Reads (floats : Floats F) (records : List (IpReputation F)) (rows : List Str) :
    Except Unit (ParsedFeed F) → Prop
  | .error () => ∃ row ∈ rows, Overflows floats row
  | .ok feed => (∀ row ∈ rows, ¬ Overflows floats row) ∧
      feed.records = records ++ rows.filterMap (rowRecord floats)

def rowsOf (lines : List Str) : List Str := (lines.map strip).filter (· ≠ [])

theorem readLine_row (hrow : strip line ≠ [])
    (hheader : feed.dataLines = 0 → ¬ looksLikeAHeader ((fieldsOf (strip line)).headD [])) :
    (Overflows floats (strip line) ∧ readLine floats feed line = .error ()) ∨
      ∃ feed', readLine floats feed line = .ok feed' ∧ ¬ Overflows floats (strip line) ∧
        feed'.dataLines ≠ 0 ∧
        feed'.records = feed.records ++ (rowRecord floats (strip line)).toList := by
  have hnoheader : ¬ (feed.records = [] ∧ feed.dataLines = 0 ∧
      looksLikeAHeader ((fieldsOf (strip line)).headD []) = true) :=
    fun h => hheader h.2.1 h.2.2
  rw [readLine]
  simp only [if_neg hrow, if_neg hnoheader, Overflows, rowRecord, rowAddress]
  cases haddress : ipText ((fieldsOf (strip line)).headD []) with
  | none => exact .inr ⟨_, rfl, by simp, by simp, by simp⟩
  | some ip =>
    simp only [readRecord, rowVolume]
    cases hvolume : readVolume floats (fieldsOf (strip line)) with
    | error e => exact .inl ⟨⟨rfl, rfl⟩, rfl⟩
    | ok volume => exact .inr ⟨_, rfl, by simp, by simp, rfl⟩

theorem readLine_blank (hblank : strip line = []) :
    readLine floats feed line = .ok feed := by
  rw [readLine]
  exact if_pos hblank

theorem Reads.cons {rows : List Str}
    {next : ParsedFeed F → Except Unit (ParsedFeed F)} (hrow : strip line ≠ [])
    (hheader : feed.dataLines = 0 → ¬ looksLikeAHeader ((fieldsOf (strip line)).headD []))
    (hnext : ∀ feed' : ParsedFeed F, feed'.dataLines ≠ 0 →
      Reads floats feed'.records rows (next feed')) :
    Reads floats feed.records (strip line :: rows) (readLine floats feed line >>= next) := by
  obtain ⟨hoverflow, hline⟩ | ⟨feed', hline, hoverflow, hdata, hrecords⟩ :=
    readLine_row hrow hheader
  · rw [hline]
    exact ⟨_, List.mem_cons_self .., hoverflow⟩
  · rw [hline]
    have hread := hnext feed' hdata
    show Reads floats feed.records _ (next feed')
    cases hresult : next feed' with
    | error e =>
      rw [hresult] at hread
      obtain ⟨row, hmem, hrow⟩ := hread
      exact ⟨row, List.mem_cons_of_mem _ hmem, hrow⟩
    | ok last =>
      rw [hresult] at hread
      refine ⟨List.forall_mem_cons.mpr ⟨hoverflow, hread.1⟩, ?_⟩
      rw [hread.2, hrecords, List.append_assoc, List.filterMap_cons]
      cases rowRecord floats (strip line) <;> rfl

theorem reads_rows {lines : List Str} (hdata : feed.dataLines ≠ 0) :
    Reads floats feed.records (rowsOf lines) (lines.foldlM (readLine floats) feed) := by
  induction lines generalizing feed with
  | nil => exact ⟨nofun, (List.append_nil _).symm⟩
  | cons line lines ih =>
    rw [List.foldlM_cons, rowsOf, List.map_cons]
    by_cases hblank : strip line = []
    · rw [List.filter_cons_of_neg (by simp [hblank]), readLine_blank hblank]
      exact ih hdata
    · rw [List.filter_cons_of_pos (by simp [hblank])]
      exact Reads.cons hblank (fun h => absurd h hdata) fun feed' hdata' => ih hdata'

def isHeaderRow (row : Str) : Bool := looksLikeAHeader ((fieldsOf row).headD [])

theorem reads_feed (lines : List Str) :
    Reads floats [] ((rowsOf lines).dropWhile isHeaderRow)
      (lines.foldlM (readLine floats) ⟨[], 0, 0⟩) := by
  induction lines with
  | nil => exact ⟨nofun, rfl⟩
  | cons line lines ih =>
    rw [List.foldlM_cons, rowsOf, List.map_cons]
    by_cases hblank : strip line = []
    · rw [List.filter_cons_of_neg (by simp [hblank]), readLine_blank hblank]
      exact ih
    · rw [List.filter_cons_of_pos (by simp [hblank])]
      by_cases hheader : isHeaderRow (strip line) = true
      · rw [List.dropWhile_cons_of_pos hheader]
        have hskip : readLine floats ⟨[], 0, 0⟩ line = .ok ⟨[], 0, 0⟩ := by
          rw [readLine]
          simp only [if_neg hblank]
          exact if_pos ⟨trivial, trivial, hheader⟩
        rw [hskip]
        exact ih
      · rw [List.dropWhile_cons_of_neg hheader]
        exact Reads.cons hblank (fun _ => hheader)
          fun feed' hdata' => reads_rows hdata'

theorem reads_parseSndsFeed (floats : Floats F) (text : Str) :
    Reads floats [] (dataRows text) (parseSndsFeed floats text) :=
  reads_feed _

end Parse

section Samples

variable {records : List (IpReputation F)} {r a b : IpReputation F}

theorem readSample_quoted {before text after value metric label : Str}
    (hbefore : before.foldl step (.name []) = .value metric [] label [])
    (hdecode : decode text = some value) :
    readSample (before ++ text ++ '"' :: after) =
      (after.foldl step (.closed metric [(label, value)])).sample := by
  rw [readSample, List.append_assoc, List.foldl_append, hbefore, List.foldl_append,
    run_value hdecode]
  rfl

theorem readSample_unquoted {before text after metric label : Str}
    (hbefore : before.foldl step (.name []) = .value metric [] label [])
    (hdecode : decode text = none) (hcomma : ',' ∉ text)
    (hafter : ∀ read, (after.foldl step (.value metric [] label read)).sample = none) :
    readSample (before ++ text ++ '"' :: after) = none := by
  rw [readSample, List.append_assoc, List.foldl_append, hbefore, List.append_cons,
    List.foldl_append]
  rcases run_undecodable hdecode hcomma with hdead | ⟨read, hread⟩
  · exact (hdead.run after).sample_eq
  · rw [hread]
    exact hafter read

theorem foldl_step_number {metric : Str} {labels : List (Str × Str)} (text read : Str) :
    text.foldl step (.number metric labels read) = .number metric labels (read ++ text) := by
  induction text generalizing read with
  | nil => rw [List.append_nil, List.foldl_nil]
  | cons c text ih =>
    rw [List.foldl_cons, step, ih, List.append_assoc]
    rfl

theorem foldl_step_value {metric label : Str} {labels : List (Str × Str)} {text : Str}
    (h : ∀ c ∈ text, c ≠ '"' ∧ c ≠ '\\') (read : Str) :
    text.foldl step (.value metric labels label read) =
      .value metric labels label (read ++ text) := by
  exact run_value (decode_of_plain h)

theorem number_plain {text : Str} (h : text ∈ number.lang) :
    ∀ c ∈ text, c ≠ '"' ∧ c ≠ '\\' := by
  have hquote : number.avoids '"' = true := by decide
  have hslash : number.avoids '\\' = true := by decide
  intro c hc
  constructor
  · rintro rfl
    exact not_mem_of_avoids hquote h hc
  · rintro rfl
    exact not_mem_of_avoids hslash h hc

theorem readSample_line {before text value metric : Str}
    (hbefore : before.foldl step (.name []) = .value metric [] "ip" [])
    (hvalue : value ∈ number.lang) (hcomma : ',' ∉ text) :
    readSample (before ++ text ++ ("\"\x7d ".toList ++ value)) =
      (decode text).map fun ip => ⟨metric, [("ip".toList, ip)], value⟩ := by
  cases hdecode : decode text with
  | none =>
    refine readSample_unquoted hbefore hdecode hcomma fun read => ?_
    have hplain : ∀ c ∈ '}' :: ' ' :: value, c ≠ '"' ∧ c ≠ '\\' :=
      List.forall_mem_cons.mpr ⟨by decide, List.forall_mem_cons.mpr
        ⟨by decide, number_plain hvalue⟩⟩
    exact congrArg ReadState.sample (foldl_step_value hplain read)
  | some ip =>
    refine (readSample_quoted hbefore hdecode).trans ?_
    have hrun : ("\x7d ".toList ++ value).foldl step (.closed metric [("ip".toList, ip)]) =
        .number metric [("ip".toList, ip)] value := by
      rw [List.foldl_append]
      exact foldl_step_number value []
    refine (congrArg ReadState.sample hrun).trans ?_
    rw [ReadState.sample, if_pos (fullMatch_iff.mpr hvalue)]
    rfl

theorem decimal_mem_digits (n : Nat) : decimal n ∈ digits.lang :=
  mem_plus_one.mpr ⟨Nat.toDigits_ne_nil,
    fun _ hc => Nat.isDigit_of_mem_toDigits (by decide) (by decide) hc⟩

theorem digits_mem_number {sign text : Str} (hsign : sign ∈ (opt (one isSign)).lang)
    (h : text ∈ digits.lang) : sign ++ text ∈ number.lang := by
  refine mem_seq.mpr ⟨sign, hsign, text, .inl (mem_seq.mpr ⟨text, h, [], ?_, ?_⟩), rfl⟩
  · have hnil : ([] : Str) ∈ (seq (opt (seq (literal ['.']) (star (one Char.isDigit))))
        (opt (seq (one fun c => c == 'e' || c == 'E') (seq (opt (one isSign)) digits)))).lang :=
      nullable_iff.mp (by decide)
    exact hnil
  · exact List.append_nil _

theorem intText_mem_number (n : Int) : intText n ∈ number.lang := by
  cases n with
  | ofNat n => exact digits_mem_number (nullable_iff.mp (by decide)) (decimal_mem_digits n)
  | negSucc n =>
    have hsign : ['-'] ∈ (opt (one isSign)).lang := fullMatch_iff.mp (by decide)
    exact digits_mem_number hsign (decimal_mem_digits (n + 1))

end Samples

section Columns

variable {metric ip : Str} {published : IpReputation F → Prop} {line : IpReputation F → Option Str}
  {records : List (IpReputation F)} {r : IpReputation F}

/-- A sample for an address. -/
structure SampleOf (metric ip : Str) (sample : Sample) : Prop where
  metric_eq : sample.metric = metric
  lookup_ip : sample.labels.lookup "ip".toList = some ip
  labels : metric = statusMetric ∨ sample.labels = [("ip".toList, ip)]

/-- A record the lines of which say what it says. -/
structure Sound (r : IpReputation F) : Prop where
  comma : ',' ∉ r.ip
  newline : '\n' ∉ r.ip
  status : ∀ status, r.status = some status → status ∈ validStatuses

structure Column (metric : Str) (published : IpReputation F → Prop)
    (line : IpReputation F → Option Str) : Prop where
  published_iff : ∀ r, published r ↔ (line r).isSome
  starts : ∀ r l, line r = some l → startsWith l ['#'] = false
  oneLine : ∀ r l, line r = some l → Sound r → '\n' ∉ l
  reads : ∀ r l, line r = some l → Sound r →
    ∃ sample : Str → Sample, (∀ ip, SampleOf metric ip (sample ip)) ∧
      readSample l = (decode r.ip).map sample

theorem newline_not_mem_number {text : Str} (h : text ∈ number.lang) : '\n' ∉ text := by
  have havoids : number.avoids '\n' = true := by decide
  exact not_mem_of_avoids havoids h

theorem newline_not_mem_line {before text value : Str} (hbefore : '\n' ∉ before)
    (htext : '\n' ∉ text) (hvalue : '\n' ∉ value) :
    '\n' ∉ before ++ text ++ ("\"\x7d ".toList ++ value) := by
  have hmiddle : '\n' ∉ "\"\x7d ".toList := by decide
  simp only [List.mem_append, not_or]
  exact ⟨⟨hbefore, htext⟩, hmiddle, hvalue⟩

theorem rateLine_column (floats : Floats F) :
    Column rateMetric (fun r => r.complaintRate.isSome) (rateLine floats) where
  published_iff r := by rw [rateLine, Option.isSome_map]
  starts r l h := by
    obtain ⟨rate, -, rfl⟩ := Option.map_eq_some_iff.mp h
    rfl
  oneLine r l h hsound := by
    obtain ⟨rate, -, rfl⟩ := Option.map_eq_some_iff.mp h
    rw [List.append_assoc]
    exact newline_not_mem_line (by decide) hsound.newline (newline_not_mem_number (floats.repr_number rate))
  reads r l h hsound := by
    obtain ⟨rate, -, rfl⟩ := Option.map_eq_some_iff.mp h
    rw [List.append_assoc, readSample_line rfl (floats.repr_number rate) hsound.comma]
    exact ⟨_, fun _ => ⟨rfl, rfl, .inr rfl⟩, rfl⟩

theorem volumeLine_column :
    Column volumeMetric (fun r : IpReputation F => r.volume.isSome) volumeLine where
  published_iff r := by rw [volumeLine, Option.isSome_map]
  starts r l h := by
    obtain ⟨volume, -, rfl⟩ := Option.map_eq_some_iff.mp h
    rfl
  oneLine r l h hsound := by
    obtain ⟨volume, -, rfl⟩ := Option.map_eq_some_iff.mp h
    rw [List.append_assoc]
    exact newline_not_mem_line (by decide) hsound.newline
      (newline_not_mem_number (intText_mem_number volume))
  reads r l h hsound := by
    obtain ⟨volume, -, rfl⟩ := Option.map_eq_some_iff.mp h
    rw [List.append_assoc, readSample_line rfl (intText_mem_number volume) hsound.comma]
    exact ⟨_, fun _ => ⟨rfl, rfl, .inr rfl⟩, rfl⟩

theorem statusLine_eq {status : Str} (r : IpReputation F) :
    statusMetric ++ "\x7bip=\"".toList ++ r.ip ++ "\",status=\"".toList ++ status ++
        "\"\x7d 1".toList =
      statusMetric ++ "\x7bip=\"".toList ++ r.ip ++
        '"' :: (",status=\"".toList ++ status ++ "\"\x7d 1".toList) := by
  simp only [List.append_assoc]
  rfl

theorem eq_of_mem_validStatuses {status : Str} (h : status ∈ validStatuses) :
    status = "green".toList ∨ status = "yellow".toList ∨ status = "red".toList := by
  rcases List.mem_cons.mp h with h | h
  · exact .inl h
  · rcases List.mem_cons.mp h with h | h
    · exact .inr (.inl h)
    · exact .inr (.inr (List.mem_singleton.mp h))

theorem statusLine_column :
    Column statusMetric (fun r : IpReputation F => r.status.isSome) statusLine where
  published_iff r := by rw [statusLine, Option.isSome_map]
  starts r l h := by
    obtain ⟨status, -, rfl⟩ := Option.map_eq_some_iff.mp h
    rfl
  oneLine r l h hsound := by
    obtain ⟨status, hstatus, rfl⟩ := Option.map_eq_some_iff.mp h
    have hafter : ∀ status ∈ validStatuses,
        '\n' ∉ '"' :: (",status=\"".toList ++ status ++ "\"\x7d 1".toList) := by decide
    have hbefore : '\n' ∉ statusMetric ++ "\x7bip=\"".toList := by decide
    rw [statusLine_eq, List.mem_append, List.mem_append]
    exact not_or.mpr ⟨not_or.mpr ⟨hbefore, hsound.newline⟩,
      hafter status (hsound.status status hstatus)⟩
  reads r l h hsound := by
    obtain ⟨status, hstatus, rfl⟩ := Option.map_eq_some_iff.mp h
    refine ⟨fun ip => ⟨statusMetric, [("ip".toList, ip), ("status".toList, status)], ['1']⟩,
      fun _ => ⟨rfl, rfl, .inl rfl⟩, ?_⟩
    rw [statusLine_eq]
    have hvalid := eq_of_mem_validStatuses (hsound.status status hstatus)
    cases hdecode : decode r.ip with
    | none =>
      refine readSample_unquoted rfl hdecode hsound.comma fun read => ?_
      obtain rfl | rfl | rfl := hvalid <;> rfl
    | some ip =>
      refine (readSample_quoted rfl hdecode).trans ?_
      obtain rfl | rfl | rfl := hvalid <;> rfl

/-- Two samples that may stand in one text. -/
def Apart (x y : Sample) : Prop :=
  (x.metric, x.labels) ≠ (y.metric, y.labels) ∧ (x.metric = statusMetric → y.metric = statusMetric →
      x.labels.lookup "ip".toList ≠ y.labels.lookup "ip".toList)

theorem SampleOf.apart_iff {x y : Sample} {ip ip' : Str} (hx : SampleOf metric ip x)
    (hy : SampleOf metric ip' y) : Apart x y ↔ ip ≠ ip' := by
  rw [Apart, hx.metric_eq, hy.metric_eq, hx.lookup_ip, hy.lookup_ip]
  constructor
  · rintro ⟨hkey, hstatus⟩ rfl
    rcases hx.labels with hmetric | hlabels
    · exact hstatus hmetric hmetric rfl
    · rcases hy.labels with hmetric | hlabels'
      · exact hstatus hmetric hmetric rfl
      · exact hkey (by rw [hlabels, hlabels'])
  · refine fun hne => ⟨fun hkey => hne ?_, fun _ _ hlookup => hne (Option.some.inj hlookup)⟩
    have hlookup := congrArg (fun key => key.2.lookup "ip".toList) hkey
    dsimp only at hlookup
    rw [hx.lookup_ip, hy.lookup_ip] at hlookup
    exact Option.some.inj hlookup

theorem SampleOf.apart_of_ne {x y : Sample} {metric' ip' : Str} (hx : SampleOf metric ip x)
    (hy : SampleOf metric' ip' y) (hne : metric ≠ metric') : Apart x y := by
  rw [Apart, hx.metric_eq, hy.metric_eq]
  exact ⟨fun hkey => hne (congrArg Prod.fst hkey),
    fun hstatus hstatus' => absurd (hstatus.trans hstatus'.symm) hne⟩

theorem Column.exists_sampleOf (h : Column metric published line)
    (hsound : ∀ r ∈ records, Sound r) {sample : Sample}
    (hsample : sample ∈ (records.filterMap line).filterMap readSample) :
    ∃ ip, SampleOf metric ip sample := by
  obtain ⟨l, hl, hread⟩ := List.mem_filterMap.mp hsample
  obtain ⟨r, hr, hline⟩ := List.mem_filterMap.mp hl
  obtain ⟨sampleOf, hof, hreads⟩ := h.reads r l hline (hsound r hr)
  rw [hread] at hreads
  obtain ⟨ip, -, rfl⟩ := Option.map_eq_some_iff.mp hreads.symm
  exact ⟨ip, hof ip⟩

theorem Column.readable_iff (h : Column metric published line)
    (hsound : ∀ r ∈ records, Sound r) :
    (∀ l ∈ records.filterMap line, readSample l ≠ none) ↔
      ∀ r ∈ records, published r → decode r.ip ≠ none := by
  simp only [List.mem_filterMap, forall_exists_index, and_imp]
  constructor
  · intro hreadable r hr hpublished hdecode
    obtain ⟨l, hl⟩ := Option.isSome_iff_exists.mp ((h.published_iff r).mp hpublished)
    obtain ⟨sampleOf, -, hreads⟩ := h.reads r l hl (hsound r hr)
    rw [hdecode] at hreads
    exact hreadable l r hr hl hreads
  · intro hdecodes l r hr hl hnone
    obtain ⟨sampleOf, -, hreads⟩ := h.reads r l hl (hsound r hr)
    rw [hnone] at hreads
    exact hdecodes r hr ((h.published_iff r).mpr (by rw [hl]; rfl))
      (Option.map_eq_none_iff.mp hreads.symm)

theorem Column.pairwise_iff (h : Column metric published line) (hsound : ∀ r ∈ records, Sound r)
    (hdecodes : ∀ r ∈ records, published r → decode r.ip ≠ none) :
    ((records.filterMap line).filterMap readSample).Pairwise Apart ↔
      records.Pairwise fun a b => ¬ (a.ip = b.ip ∧ published a ∧ published b) := by
  rw [List.pairwise_filterMap, List.pairwise_filterMap]
  refine List.Pairwise.iff_of_mem fun {a b} ha hb => ?_
  constructor
  · rintro hapart ⟨hip, hpublished, hpublished'⟩
    obtain ⟨l, hl⟩ := Option.isSome_iff_exists.mp ((h.published_iff a).mp hpublished)
    obtain ⟨l', hl'⟩ := Option.isSome_iff_exists.mp ((h.published_iff b).mp hpublished')
    obtain ⟨ip, hdecode⟩ := Option.ne_none_iff_exists'.mp (hdecodes a ha hpublished)
    obtain ⟨sample, hof, hreads⟩ := h.reads a l hl (hsound a ha)
    obtain ⟨sample', hof', hreads'⟩ := h.reads b l' hl' (hsound b hb)
    rw [hdecode] at hreads
    rw [← hip, hdecode] at hreads'
    exact ((hof ip).apart_iff (hof' ip)).mp (hapart l hl l' hl' _ hreads _ hreads') rfl
  · intro hne l hl l' hl' x hx y hy
    obtain ⟨sample, hof, hreads⟩ := h.reads a l hl (hsound a ha)
    obtain ⟨sample', hof', hreads'⟩ := h.reads b l' hl' (hsound b hb)
    rw [hx] at hreads
    rw [hy] at hreads'
    obtain ⟨ip, hdecode, rfl⟩ := Option.map_eq_some_iff.mp hreads.symm
    obtain ⟨ip', hdecode', rfl⟩ := Option.map_eq_some_iff.mp hreads'.symm
    refine ((hof ip).apart_iff (hof' ip')).mpr ?_
    rintro rfl
    exact hne ⟨decode_injective hdecode hdecode' (hsound a ha).newline (hsound b hb).newline,
      (h.published_iff a).mpr (by rw [hl]; rfl), (h.published_iff b).mpr (by rw [hl']; rfl)⟩

end Columns

section Rendered

variable {records : List (IpReputation F)}

def sampleLines (floats : Floats F) (records : List (IpReputation F)) : List Str :=
  records.filterMap (rateLine floats) ++ records.filterMap volumeLine ++
    records.filterMap statusLine

theorem Column.filter_eq {metric : Str} {published : IpReputation F → Prop}
    {line : IpReputation F → Option Str} (h : Column metric published line) :
    (records.filterMap line).filter (fun l => !startsWith l ['#']) = records.filterMap line := by
  rw [List.filter_eq_self]
  intro l hl
  obtain ⟨r, -, hline⟩ := List.mem_filterMap.mp hl
  rw [h.starts r l hline]
  rfl

set_option maxRecDepth 4000 in
theorem renderLines_filter :
    (renderLines floats records).filter (fun l => !startsWith l ['#']) =
      sampleLines floats records := by
  have hrate : rateHeader.filter (fun l => !startsWith l ['#']) = [] := by
    simp only [rateHeader, toList_literal]
    decide
  have hvolume : volumeHeader.filter (fun l => !startsWith l ['#']) = [] := by
    simp only [volumeHeader, toList_literal]
    decide
  have hstatus : statusHeader.filter (fun l => !startsWith l ['#']) = [] := by
    simp only [statusHeader, toList_literal]
    decide
  simp only [renderLines, sampleLines, List.filter_append, hrate, hvolume, hstatus,
    (rateLine_column floats).filter_eq, volumeLine_column.filter_eq, statusLine_column.filter_eq,
    List.nil_append, List.append_nil]

theorem Column.newline_not_mem {metric : Str} {published : IpReputation F → Prop}
    {line : IpReputation F → Option Str} (h : Column metric published line)
    (hsound : ∀ r ∈ records, Sound r) : ∀ l ∈ records.filterMap line, '\n' ∉ l := by
  intro l hl
  obtain ⟨r, hr, hline⟩ := List.mem_filterMap.mp hl
  exact h.oneLine r l hline (hsound r hr)

set_option maxRecDepth 4000 in
theorem newline_not_mem_renderLines (hsound : ∀ r ∈ records, Sound r) :
    ∀ l ∈ renderLines floats records, '\n' ∉ l := by
  have hrate : ∀ l ∈ rateHeader, '\n' ∉ l := by
    simp only [rateHeader, toList_literal]
    decide
  have hvolume : ∀ l ∈ volumeHeader, '\n' ∉ l := by
    simp only [volumeHeader, toList_literal]
    decide
  have hstatus : ∀ l ∈ statusHeader, '\n' ∉ l := by
    simp only [statusHeader, toList_literal]
    decide
  simp only [renderLines, List.forall_mem_append]
  exact ⟨⟨⟨⟨⟨hrate, (rateLine_column floats).newline_not_mem hsound⟩, hvolume⟩,
    volumeLine_column.newline_not_mem hsound⟩, hstatus⟩, statusLine_column.newline_not_mem hsound⟩

theorem readText_render (hsound : ∀ r ∈ records, Sound r) :
    readText (renderPrometheusText floats records) =
      (sampleLines floats records).mapM readSample := by
  have hne : renderLines floats records ≠ [] := by
    simp only [renderLines, List.append_assoc]
    exact List.append_ne_nil_of_left_ne_nil (List.cons_ne_nil _ _) _
  have hlines : newlineLines (renderPrometheusText floats records) = renderLines floats records := by
    rw [renderPrometheusText]
    exact (congrArg newlineLines (joinWith_newline hne)).trans
      (newlineLines_unlines (newline_not_mem_renderLines hsound))
  rw [readText, hlines, renderLines_filter]

theorem mapM_readSample_eq_some_iff {lines : List Str} {samples : List Sample} :
    lines.mapM readSample = some samples ↔
      (∀ l ∈ lines, readSample l ≠ none) ∧ samples = lines.filterMap readSample := by
  rw [mapM_eq_some_iff]
  induction lines generalizing samples with
  | nil => cases samples <;> simp
  | cons l lines ih =>
    rw [List.map_cons, List.forall_mem_cons, List.filterMap_cons]
    cases hl : readSample l with
    | none => cases samples <;> simp
    | some sample =>
      cases samples with
      | nil => simp
      | cons first samples => simp [ih, eq_comm, and_left_comm]

theorem nodup_and_pairwise_iff {samples : List Sample} :
    ((samples.map fun sample => (sample.metric, sample.labels)).Nodup ∧
      samples.Pairwise fun a b => a.metric = statusMetric → b.metric = statusMetric →
        a.labels.lookup "ip".toList ≠ b.labels.lookup "ip".toList) ↔ samples.Pairwise Apart := by
  rw [List.Nodup, List.pairwise_map, ← List.pairwise_and_iff]
  rfl

def Published (r : IpReputation F) : Prop :=
  r.complaintRate.isSome ∨ r.volume.isSome ∨ r.status.isSome

/-- Two records with samples of one metric for one address. -/
def Clash (a b : IpReputation F) : Prop :=
  a.ip = b.ip ∧ ((a.complaintRate.isSome ∧ b.complaintRate.isSome) ∨
    (a.volume.isSome ∧ b.volume.isSome) ∨ (a.status.isSome ∧ b.status.isSome))

theorem not_clash_iff {a b : IpReputation F} : ¬ Clash a b ↔
    (¬ (a.ip = b.ip ∧ a.complaintRate.isSome ∧ b.complaintRate.isSome) ∧
      ¬ (a.ip = b.ip ∧ a.volume.isSome ∧ b.volume.isSome)) ∧
        ¬ (a.ip = b.ip ∧ a.status.isSome ∧ b.status.isSome) := by
  rw [Clash, and_or_left, and_or_left, not_or, not_or, and_assoc]

theorem sampleLines_readable_iff (hsound : ∀ r ∈ records, Sound r) :
    (∀ l ∈ sampleLines floats records, readSample l ≠ none) ↔
      ∀ r ∈ records, Published r → decode r.ip ≠ none := by
  simp only [sampleLines, List.forall_mem_append, (rateLine_column floats).readable_iff hsound,
    volumeLine_column.readable_iff hsound, statusLine_column.readable_iff hsound, Published]
  constructor
  · rintro ⟨⟨hrate, hvolume⟩, hstatus⟩ r hr (h | h | h)
    · exact hrate r hr h
    · exact hvolume r hr h
    · exact hstatus r hr h
  · intro h
    exact ⟨⟨fun r hr hrate => h r hr (.inl hrate), fun r hr hvolume => h r hr (.inr (.inl hvolume))⟩,
      fun r hr hstatus => h r hr (.inr (.inr hstatus))⟩

theorem Column.apart {metric metric' : Str} {published published' : IpReputation F → Prop}
    {line line' : IpReputation F → Option Str} (h : Column metric published line)
    (h' : Column metric' published' line') (hsound : ∀ r ∈ records, Sound r)
    (hne : metric ≠ metric') :
    ∀ x ∈ (records.filterMap line).filterMap readSample,
      ∀ y ∈ (records.filterMap line').filterMap readSample, Apart x y := by
  intro x hx y hy
  obtain ⟨ip, hofx⟩ := h.exists_sampleOf hsound hx
  obtain ⟨ip', hofy⟩ := h'.exists_sampleOf hsound hy
  exact hofx.apart_of_ne hofy hne

theorem samples_apart_iff (hsound : ∀ r ∈ records, Sound r)
    (hdecodes : ∀ r ∈ records, Published r → decode r.ip ≠ none) :
    ((sampleLines floats records).filterMap readSample).Pairwise Apart ↔
      records.Pairwise fun a b => ¬ Clash a b := by
  have hrate := (rateLine_column floats).pairwise_iff hsound
    fun r hr h => hdecodes r hr (.inl h)
  have hvolume := volumeLine_column.pairwise_iff hsound
    fun r hr h => hdecodes r hr (.inr (.inl h))
  have hstatus := statusLine_column.pairwise_iff hsound
    fun r hr h => hdecodes r hr (.inr (.inr h))
  have hcross := (rateLine_column floats).apart volumeLine_column hsound (by decide)
  have hcross' := (rateLine_column floats).apart statusLine_column hsound (by decide)
  have hcross'' := volumeLine_column.apart statusLine_column hsound (by decide)
  simp only [sampleLines, List.filterMap_append, List.pairwise_append, hrate, hvolume, hstatus,
    not_clash_iff, List.pairwise_and_iff, List.mem_append]
  constructor
  · rintro ⟨⟨hr, hv, -⟩, hs, -⟩
    exact ⟨⟨hr, hv⟩, hs⟩
  · rintro ⟨⟨hr, hv⟩, hs⟩
    refine ⟨⟨hr, hv, hcross⟩, hs, fun x hx y hy => ?_⟩
    rcases hx with hx | hx
    · exact hcross' x hx y hy
    · exact hcross'' x hx y hy

theorem sample_metric_mem (hsound : ∀ r ∈ records, Sound r) :
    ∀ sample ∈ (sampleLines floats records).filterMap readSample, sample.metric ∈ metrics := by
  simp only [sampleLines, List.filterMap_append, List.forall_mem_append]
  refine ⟨⟨fun sample h => ?_, fun sample h => ?_⟩, fun sample h => ?_⟩
  · obtain ⟨ip, hof⟩ := (rateLine_column floats).exists_sampleOf hsound h
    rw [hof.metric_eq]
    exact List.mem_cons_self ..
  · obtain ⟨ip, hof⟩ := volumeLine_column.exists_sampleOf hsound h
    rw [hof.metric_eq]
    exact List.mem_cons_of_mem _ (List.mem_cons_self ..)
  · obtain ⟨ip, hof⟩ := statusLine_column.exists_sampleOf hsound h
    rw [hof.metric_eq]
    exact List.mem_cons_of_mem _ (List.mem_cons_of_mem _ (List.mem_cons_self ..))

theorem validExposition_render_iff (hsound : ∀ r ∈ records, Sound r) :
    ValidExposition (renderPrometheusText floats records) ↔
      (∀ r ∈ records, Published r → decode r.ip ≠ none) ∧
        records.Pairwise fun a b => ¬ Clash a b := by
  simp only [ValidExposition, readText_render hsound, mapM_readSample_eq_some_iff,
    nodup_and_pairwise_iff, sampleLines_readable_iff hsound]
  constructor
  · rintro ⟨samples, ⟨hdecodes, rfl⟩, -, hapart⟩
    exact ⟨hdecodes, (samples_apart_iff hsound hdecodes).mp hapart⟩
  · rintro ⟨hdecodes, hclash⟩
    exact ⟨_, ⟨hdecodes, rfl⟩, sample_metric_mem hsound,
      (samples_apart_iff hsound hdecodes).mpr hclash⟩

end Rendered

section Feeds

variable {text row : Str} {r : IpReputation F}

theorem isAddressChar_comma : isAddressChar ',' = false := by decide

theorem isAddressChar_newline : isAddressChar '\n' = false := by decide

theorem not_mem_ipText {s ip : Str} {c : Char} (h : ipText s = some ip)
    (haddress : isAddressChar c = false) (hc : c ∉ s) : c ∉ ip := by
  obtain ⟨address, scope, rfl, hchars, hscope⟩ := ipText_eq h
  rw [List.mem_append, not_or]
  exact ⟨fun hmem => Bool.false_ne_true (haddress.symm.trans (hchars c hmem)),
    fun hmem => hc (hscope c hmem)⟩

theorem mem_dataRows (h : row ∈ dataRows text) : '\n' ∉ row := by
  have hmem := (List.dropWhile_sublist _).subset h
  obtain ⟨line, hline, rfl⟩ := List.mem_map.mp (List.mem_of_mem_filter hmem)
  intro hnewline
  have hbreak := noBreak_of_mem_splitlines text line hline '\n'
    ((strip_sublist line).subset hnewline)
  cases hbreak

theorem first_field (row : Str) :
    ∃ piece ∈ splitOnChar ',' row, (fieldsOf row).headD [] = strip piece := by
  obtain ⟨piece, pieces, hpieces⟩ := List.exists_cons_of_ne_nil (splitOnChar_ne_nil ',' row)
  refine ⟨piece, by rw [hpieces]; exact List.mem_cons_self .., ?_⟩
  rw [fieldsOf, hpieces]
  rfl

theorem parseStatus_valid {fields : List Str} {status : Str}
    (h : parseStatus fields = some status) : status ∈ validStatuses := by
  rw [parseStatus] at h
  split at h
  · cases h
  · split_ifs at h with _ hvalid
    cases h
    exact hvalid

theorem sound_of_rowRecord (hnewline : '\n' ∉ row) (h : rowRecord floats row = some r) :
    Sound r := by
  obtain ⟨ip, hip, rfl⟩ := Option.map_eq_some_iff.mp h
  obtain ⟨piece, hpiece, hfirst⟩ := first_field row
  rw [rowAddress, hfirst] at hip
  refine ⟨not_mem_ipText hip isAddressChar_comma fun hc => ?_,
    not_mem_ipText hip isAddressChar_newline fun hc => ?_, fun status hstatus => ?_⟩
  · exact not_mem_of_mem_splitOnChar piece hpiece ((strip_sublist piece).subset hc)
  · exact hnewline (mem_of_mem_piece hpiece ((strip_sublist piece).subset hc))
  · exact parseStatus_valid hstatus

theorem publishable_iff {rows : List Str} : Publishable floats rows ↔
    (∀ r ∈ rows.filterMap (rowRecord floats), Published r → decode r.ip ≠ none) ∧
      (rows.filterMap (rowRecord floats)).Pairwise fun a b => ¬ Clash a b := by
  simp only [List.mem_filterMap, forall_exists_index, and_imp, List.pairwise_filterMap]
  constructor
  · refine fun h => ⟨fun r row hrow hr hpublished => ?_, h.once.imp fun {a b} honce x hx y hy => ?_⟩
    · obtain ⟨ip, hip, rfl⟩ := Option.map_eq_some_iff.mp hr
      exact h.spelled row hrow ip hip hpublished
    · obtain ⟨ip, hip, rfl⟩ := Option.map_eq_some_iff.mp hx
      obtain ⟨ip', hip', rfl⟩ := Option.map_eq_some_iff.mp hy
      rintro ⟨heq, hboth⟩
      obtain ⟨hrate, hvolume, hstatus⟩ := honce ip hip ((congrArg some heq).symm ▸ hip')
      rcases hboth with h | h | h
      · exact hrate h
      · exact hvolume h
      · exact hstatus h
  · refine fun ⟨hspelled, honce⟩ => ⟨fun row hrow ip hip hpublished => ?_,
      honce.imp fun {a b} hclash ip hip hip' => ?_⟩
    · exact hspelled _ row hrow (Option.map_eq_some_iff.mpr ⟨ip, hip, rfl⟩) hpublished
    · have hnot := hclash _ (Option.map_eq_some_iff.mpr ⟨ip, hip, rfl⟩) _
        (Option.map_eq_some_iff.mpr ⟨ip, hip', rfl⟩)
      obtain ⟨⟨hrate, hvolume⟩, hstatus⟩ := not_clash_iff.mp hnot
      exact ⟨fun h => hrate ⟨rfl, h⟩, fun h => hvolume ⟨rfl, h⟩, fun h => hstatus ⟨rfl, h⟩⟩

theorem validExposition_feed_iff {feed : ParsedFeed F} (h : parseSndsFeed floats text = .ok feed) :
    ValidExposition (renderPrometheusText floats feed.records) ↔
      Publishable floats (dataRows text) := by
  have hreads := reads_parseSndsFeed floats text
  rw [h] at hreads
  have hrecords : feed.records = (dataRows text).filterMap (rowRecord floats) := hreads.2
  have hsound : ∀ r ∈ feed.records, Sound r := by
    intro r hr
    rw [hrecords] at hr
    obtain ⟨row, hrow, hrecord⟩ := List.mem_filterMap.mp hr
    exact sound_of_rowRecord (mem_dataRows hrow) hrecord
  rw [validExposition_render_iff hsound, hrecords, publishable_iff]

/-- Every text published from a feed is valid exactly for the feeds that raise an `OverflowError`
and those the rows of which can be published. -/
theorem publishedText_valid_iff (floats : Floats F) (text : Str) :
    (∀ feed, parseSndsFeed floats text = .ok feed →
      ValidExposition (renderPrometheusText floats feed.records)) ↔
      (∃ row ∈ dataRows text, Overflows floats row) ∨ Publishable floats (dataRows text) := by
  have hreads := reads_parseSndsFeed floats text
  cases hparse : parseSndsFeed floats text with
  | error e =>
    rw [hparse] at hreads
    exact ⟨fun _ => .inl hreads, fun _ => nofun⟩
  | ok feed =>
    rw [hparse] at hreads
    constructor
    · exact fun h => .inr ((validExposition_feed_iff hparse).mp (h feed rfl))
    · rintro (⟨row, hrow, hoverflow⟩ | hpublishable) _ hfeed
      · exact absurd hoverflow (hreads.1 row hrow)
      · cases hfeed
        exact (validExposition_feed_iff hparse).mpr hpublishable

/-- A feed without numbers needs no floats. -/
def noFloats : Floats Empty where
  parse _ := none
  percent := nofun
  truncate := nofun
  repr := nofun
  repr_number := nofun

/-- Two rows of one address, and a scope id with a double quote. -/
theorem unreadable_texts_published :
    (∃ feed, parseSndsFeed noFloats "192.0.2.1,green\n192.0.2.1,red" = .ok feed ∧
        ¬ ValidExposition (renderPrometheusText noFloats feed.records)) ∧
      ∃ feed, parseSndsFeed noFloats "fe80::1%\",green" = .ok feed ∧
        ¬ ValidExposition (renderPrometheusText noFloats feed.records) := by
  have hrows : dataRows "192.0.2.1,green\n192.0.2.1,red" =
      ["192.0.2.1,green".toList, "192.0.2.1,red".toList] := by decide
  have hrow : dataRows "fe80::1%\",green" = ["fe80::1%\",green".toList] := by decide
  have hgreen : rowAddress "192.0.2.1,green" = some "192.0.2.1".toList ∧
      (rowStatus "192.0.2.1,green").isSome := by decide
  have hred : rowAddress "192.0.2.1,red" = some "192.0.2.1".toList ∧
      (rowStatus "192.0.2.1,red").isSome := by decide
  have hscope : rowAddress "fe80::1%\",green" = some "fe80::1%\"".toList ∧
      (rowStatus "fe80::1%\",green").isSome ∧ decode "fe80::1%\"" = none := by decide
  have hparsed : ∀ text : Str, (parseSndsFeed noFloats text).toOption.isSome →
      ∃ feed, parseSndsFeed noFloats text = .ok feed := by
    intro text h
    cases hfeed : parseSndsFeed noFloats text with
    | error e => rw [hfeed] at h; cases h
    | ok feed => exact ⟨feed, rfl⟩
  constructor
  · obtain ⟨feed, hfeed⟩ := hparsed "192.0.2.1,green\n192.0.2.1,red" (by decide)
    refine ⟨feed, hfeed, fun hvalid => ?_⟩
    have honce := ((validExposition_feed_iff hfeed).mp hvalid).once
    rw [hrows, List.pairwise_pair] at honce
    exact (honce _ hgreen.1 hred.1).2.2 ⟨hgreen.2, hred.2⟩
  · obtain ⟨feed, hfeed⟩ := hparsed "fe80::1%\",green" (by decide)
    refine ⟨feed, hfeed, fun hvalid => ?_⟩
    have hspelled := ((validExposition_feed_iff hfeed).mp hvalid).spelled
    rw [hrow] at hspelled
    exact hspelled _ (List.mem_singleton_self _) _ hscope.1 (.inr (.inr hscope.2.1)) hscope.2.2

end Feeds

end SharedInfra.Snds
