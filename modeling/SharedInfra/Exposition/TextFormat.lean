import SharedInfra.Python.Lines
import SharedInfra.Sequences.Pattern

/-!
# The text exposition format

A sample line is read letter by letter (`step`): a metric name, labels whose values
stand between double quotes with a backslash before a quote, a backslash or an `n`,
a blank and a number.  `decode` is the value a quoted text spells; a text that spells
none leaves the reader where no sample ends (`Dead`).
-/

namespace SharedInfra.Exposition

open Python Sequences Pattern

structure Sample where
  metric : Str
  labels : List (Str × Str)
  value : Str
deriving DecidableEq

def isSign (c : Char) : Bool := c == '+' || c == '-'

def digits : Pattern Char := plus (one Char.isDigit)

/-- A number: digits with a fraction and an exponent, or a name of what is none. -/
def number : Pattern Char :=
  seq (opt (one isSign))
    (alt
      (seq digits
        (seq (opt (seq (literal ['.']) (star (one Char.isDigit))))
          (opt (seq (one fun c => c == 'e' || c == 'E') (seq (opt (one isSign)) digits)))))
      (alt (literal "nan".toList) (literal "inf".toList)))

inductive ReadState where
  | name (read : Str)
  | labelName (metric : Str) (labels : List (Str × Str)) (read : Str)
  | opening (metric : Str) (labels : List (Str × Str)) (label : Str)
  | value (metric : Str) (labels : List (Str × Str)) (label read : Str)
  | escape (metric : Str) (labels : List (Str × Str)) (label read : Str)
  | closed (metric : Str) (labels : List (Str × Str))
  | spaced (metric : Str) (labels : List (Str × Str))
  | number (metric : Str) (labels : List (Str × Str)) (read : Str)
  | failed
deriving DecidableEq

def step : ReadState → Char → ReadState
  | .name read, c =>
    if c = '{' then .labelName read [] []
    else if c = ' ' then .number read [] []
    else .name (read ++ [c])
  | .labelName metric labels read, c =>
    if c = '=' then .opening metric labels read else .labelName metric labels (read ++ [c])
  | .opening metric labels label, c => if c = '"' then .value metric labels label [] else .failed
  | .value metric labels label read, c =>
    if c = '"' then .closed metric (labels ++ [(label, read)])
    else if c = '\\' then .escape metric labels label read
    else .value metric labels label (read ++ [c])
  | .escape metric labels label read, c =>
    if c = '"' ∨ c = '\\' then .value metric labels label (read ++ [c])
    else if c = 'n' then .value metric labels label (read ++ ['\n'])
    else .failed
  | .closed metric labels, c =>
    if c = ',' then .labelName metric labels []
    else if c = '}' then .spaced metric labels
    else .failed
  | .spaced metric labels, c => if c = ' ' then .number metric labels [] else .failed
  | .number metric labels read, c => .number metric labels (read ++ [c])
  | .failed, _ => .failed

def ReadState.sample : ReadState → Option Sample
  | .number metric labels read =>
    if fullMatch Exposition.number read then some ⟨metric, labels, read⟩ else none
  | _ => none

def readSample (line : Str) : Option Sample := (line.foldl step (.name [])).sample

def readText (text : Str) : Option (List Sample) :=
  ((newlineLines text).filter fun line => !startsWith line ['#']).mapM readSample

section Values

variable {metric label : Str} {labels : List (Str × Str)}

/-- The label value a text between quotes spells. -/
def decode : Str → Option Str
  | [] => some []
  | '"' :: _ => none
  | '\\' :: 'n' :: text => (decode text).map ('\n' :: ·)
  | '\\' :: '\\' :: text => (decode text).map ('\\' :: ·)
  | '\\' :: '"' :: text => (decode text).map ('"' :: ·)
  | '\\' :: _ => none
  | c :: text => (decode text).map (c :: ·)

theorem decode_escape {text : Str} (hn : ∀ rest, text ≠ 'n' :: rest)
    (hslash : ∀ rest, text ≠ '\\' :: rest) (hquote : ∀ rest, text ≠ '"' :: rest) :
    decode ('\\' :: text) = none := by
  rw [decode]
  · exact fun rest => hn rest
  · exact fun rest => hslash rest
  · exact fun rest => hquote rest

theorem decode_plain {c : Char} {text : Str} (hquote : c ≠ '"') (hslash : c ≠ '\\') :
    decode (c :: text) = (decode text).map (c :: ·) := by
  rw [decode] <;> first | exact hquote | exact hslash | exact fun _ h => absurd h hslash

theorem step_plain {c : Char} {read : Str} (hquote : c ≠ '"') (hslash : c ≠ '\\') :
    step (.value metric labels label read) c = .value metric labels label (read ++ [c]) := by
  rw [step, if_neg hquote, if_neg hslash]

theorem run_value {text read value : Str} (h : decode text = some value) :
    text.foldl step (.value metric labels label read) =
      .value metric labels label (read ++ value) := by
  have hnext : ∀ {c : Char} {text rest read : Str}, (∀ {read value : Str},
      decode text = some value → text.foldl step (.value metric labels label read) =
        .value metric labels label (read ++ value)) → decode text = some rest →
      text.foldl step (.value metric labels label (read ++ [c])) =
        .value metric labels label (read ++ c :: rest) := by
    intro c text rest read ih hrest
    rw [ih hrest, List.append_assoc]
    rfl
  induction text using decode.induct generalizing read value with
  | case1 =>
    cases h
    rw [List.append_nil, List.foldl_nil]
  | case2 => cases h
  | case3 text ih =>
    obtain ⟨rest, hrest, rfl⟩ := Option.map_eq_some_iff.mp h
    exact hnext ih hrest
  | case4 text ih =>
    obtain ⟨rest, hrest, rfl⟩ := Option.map_eq_some_iff.mp h
    exact hnext ih hrest
  | case5 text ih =>
    obtain ⟨rest, hrest, rfl⟩ := Option.map_eq_some_iff.mp h
    exact hnext ih hrest
  | case6 text hn hslash hquote =>
    rw [decode_escape hn hslash hquote] at h
    cases h
  | case7 c text hquote _ _ _ hslash ih =>
    rw [decode_plain hquote hslash] at h
    obtain ⟨rest, hrest, rfl⟩ := Option.map_eq_some_iff.mp h
    rw [List.foldl_cons, step_plain hquote hslash]
    exact hnext ih hrest

/-- A state no sample ends in: the line is lost, or a quote is read for a number. -/
def Dead (state : ReadState) : Prop :=
  state = .failed ∨ ∃ metric labels read, state = .number metric labels read ∧ '"' ∈ read

theorem Dead.run {state : ReadState} (h : Dead state) (text : Str) :
    Dead (text.foldl step state) := by
  induction text generalizing state with
  | nil => exact h
  | cons c text ih =>
    rw [List.foldl_cons]
    obtain rfl | ⟨metric, labels, read, rfl, hquote⟩ := h
    · exact ih (.inl rfl)
    · exact ih (.inr ⟨metric, labels, read ++ [c], rfl, List.mem_append_left _ hquote⟩)

theorem Dead.sample_eq {state : ReadState} (h : Dead state) : state.sample = none := by
  obtain rfl | ⟨metric, labels, read, rfl, hquote⟩ := h
  · rfl
  · rw [ReadState.sample, if_neg]
    intro hnumber
    have havoids : avoids '"' Exposition.number = true := by decide
    exact not_mem_of_avoids havoids (fullMatch_iff.mp hnumber) hquote

theorem dead_of_closed {text : Str} (h : ',' ∉ text) :
    Dead ((text ++ ['"']).foldl step (.closed metric labels)) := by
  cases text with
  | nil => exact .inl rfl
  | cons c text =>
    rw [List.mem_cons, not_or] at h
    rw [List.cons_append, List.foldl_cons, step, if_neg (Ne.symm h.1)]
    split_ifs
    · cases text with
      | nil => exact .inl rfl
      | cons d text =>
        rw [List.cons_append, List.foldl_cons, step]
        split_ifs
        · rw [List.foldl_append]
          have hnumber : ∀ (text read : Str), text.foldl step (.number metric labels read) =
              .number metric labels (read ++ text) := by
            intro text
            induction text with
            | nil => simp
            | cons c text ih => intro read; simp [step, ih]
          exact .inr ⟨metric, labels, _, by rw [hnumber]; rfl, by simp⟩
        · exact Dead.run (.inl rfl) _
    · exact Dead.run (.inl rfl) _

theorem run_undecodable {text read : Str} (h : decode text = none) (hcomma : ',' ∉ text) :
    Dead ((text ++ ['"']).foldl step (.value metric labels label read)) ∨
      ∃ read', (text ++ ['"']).foldl step (.value metric labels label read) =
        .value metric labels label read' := by
  induction text using decode.induct generalizing read with
  | case1 => cases h
  | case2 text =>
    exact .inl (dead_of_closed fun hmem => hcomma (List.mem_cons_of_mem _ hmem))
  | case3 text ih =>
    exact ih (Option.map_eq_none_iff.mp h) fun hmem => hcomma (by simp [hmem])
  | case4 text ih =>
    exact ih (Option.map_eq_none_iff.mp h) fun hmem => hcomma (by simp [hmem])
  | case5 text ih =>
    exact ih (Option.map_eq_none_iff.mp h) fun hmem => hcomma (by simp [hmem])
  | case6 text hn hslash hquote =>
    cases text with
    | nil => exact .inr ⟨_, rfl⟩
    | cons c text =>
      left
      have hc : ¬ (c = '"' ∨ c = '\\') ∧ c ≠ 'n' := by
        refine ⟨?_, fun heq => hn text (by rw [heq])⟩
        rintro (heq | heq)
        · exact hquote text (by rw [heq])
        · exact hslash text (by rw [heq])
      have hstep : step (.escape metric labels label read) c = .failed := by
        rw [step, if_neg hc.1, if_neg hc.2]
      show Dead ((text ++ ['"']).foldl step (step (.escape metric labels label read) c))
      rw [hstep]
      exact Dead.run (.inl rfl) _
  | case7 c text hquote _ _ _ hslash ih =>
    rw [decode_plain hquote hslash, Option.map_eq_none_iff] at h
    rw [List.cons_append, List.foldl_cons, step_plain hquote hslash]
    exact ih h fun hmem => hcomma (List.mem_cons_of_mem _ hmem)

/-- The one text without a line break that spells a value. -/
def spell (c : Char) : Str :=
  if c = '\n' then ['\\', 'n'] else if c = '\\' ∨ c = '"' then ['\\', c] else [c]

theorem eq_spell_of_decode {text value : Str} (h : decode text = some value) (hbreak : '\n' ∉ text) :
    text = value.flatMap spell := by
  induction text using decode.induct generalizing value with
  | case1 =>
    cases h
    rfl
  | case2 => cases h
  | case3 text ih =>
    obtain ⟨rest, hrest, rfl⟩ := Option.map_eq_some_iff.mp h
    rw [List.flatMap_cons, ← ih hrest fun hmem => hbreak (by simp [hmem])]
    rfl
  | case4 text ih =>
    obtain ⟨rest, hrest, rfl⟩ := Option.map_eq_some_iff.mp h
    rw [List.flatMap_cons, ← ih hrest fun hmem => hbreak (by simp [hmem])]
    rfl
  | case5 text ih =>
    obtain ⟨rest, hrest, rfl⟩ := Option.map_eq_some_iff.mp h
    rw [List.flatMap_cons, ← ih hrest fun hmem => hbreak (by simp [hmem])]
    rfl
  | case6 text hn hslash hquote =>
    rw [decode_escape hn hslash hquote] at h
    cases h
  | case7 c text hquote _ _ _ hslash ih =>
    rw [decode_plain hquote hslash] at h
    obtain ⟨rest, hrest, rfl⟩ := Option.map_eq_some_iff.mp h
    have hc : c ≠ '\n' := fun heq => hbreak (by rw [heq]; exact List.mem_cons_self ..)
    rw [List.flatMap_cons, ← ih hrest fun hmem => hbreak (List.mem_cons_of_mem _ hmem), spell,
      if_neg hc, if_neg (by tauto)]
    rfl

theorem decode_injective {text other value : Str} (h : decode text = some value)
    (hother : decode other = some value) (hbreak : '\n' ∉ text) (hbreak' : '\n' ∉ other) :
    text = other :=
  (eq_spell_of_decode h hbreak).trans (eq_spell_of_decode hother hbreak').symm

theorem decode_of_plain {text : Str} (h : ∀ c ∈ text, c ≠ '"' ∧ c ≠ '\\') :
    decode text = some text := by
  induction text with
  | nil => rfl
  | cons c text ih =>
    obtain ⟨hc, htext⟩ := List.forall_mem_cons.mp h
    rw [decode_plain hc.1 hc.2, ih htext]
    rfl

end Values

theorem newlineLines_append {line rest : Str} (h : '\n' ∉ line) :
    newlineLines (line ++ '\n' :: rest) = line :: newlineLines rest := by
  induction line with
  | nil => simp [newlineLines]
  | cons c line ih =>
    rw [List.mem_cons, not_or] at h
    rw [List.cons_append, newlineLines, if_neg (Ne.symm h.1), ih h.2]
    rfl

theorem newlineLines_unlines {lines : List Str} (h : ∀ line ∈ lines, '\n' ∉ line) :
    newlineLines (unlines lines) = lines := by
  induction lines with
  | nil => rfl
  | cons line lines ih =>
    obtain ⟨hline, hlines⟩ := List.forall_mem_cons.mp h
    rw [unlines, newlineLines_append hline, ih hlines]

theorem joinWith_newline {lines : List Str} (h : lines ≠ []) :
    joinWith ['\n'] lines ++ ['\n'] = unlines lines := by
  induction lines with
  | nil => exact absurd rfl h
  | cons line lines ih =>
    cases lines with
    | nil => rfl
    | cons next lines =>
      rw [joinWith_cons_cons, List.append_assoc, ih (List.cons_ne_nil _ _)]
      simp [unlines]

end SharedInfra.Exposition
