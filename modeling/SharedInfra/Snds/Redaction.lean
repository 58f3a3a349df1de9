import SharedInfra.Python.Marker
import SharedInfra.Python.UrlQuery

/-!
# The access key in the log

`redact` of `collect_snds_metrics.py`: the URL and the long values of its parameters, each as it
stands and as `parse_qsl` decodes it, are replaced one after another.  It keeps them out of every
message exactly where the URL is `Redactable`: each long spelling holds a text that is replaced, and
neither it nor the URL reaches over an end of the marker.
-/

namespace SharedInfra.Snds

open Python

def redactedMarker : Str := "<redacted-snds-url>"

/-- The order in which a set of texts is iterated. -/
structure SetIteration where
  list : List Str → List Str
  perm : ∀ xs, (list xs).Perm xs.dedup

/-- `sorted(set(candidates), key=len, reverse=True)`. -/
def longestFirst (order : SetIteration) (candidates : List Str) : List Str :=
  (order.list candidates).mergeSort fun a b => decide (b.length ≤ a.length)

/-- The loop of `redact`. -/
def redactValues (values : List Str) (out : Str) : Str :=
  values.foldl (fun out value => if 8 ≤ value.length then replace out value redactedMarker else out)
    out

/-- The texts that `redact` replaces, if they are long. -/
def candidates (query : Str) : List Str := parseQsl query ++ rawValues query

def redact (order : SetIteration) (refused : Str → Bool) (message url : Str) : Str :=
  if url = [] then message
  else
    match urlsplitQuery refused url with
    | none => replace message url redactedMarker
    | some query =>
      redactValues (longestFirst order (candidates query)) (replace message url redactedMarker)

/-- The values of the parameters of a URL, as they stand and percent-decoded. -/
def spellings (url : Str) : List Str :=
  (rawValues (queryOf url)).flatMap fun raw => [raw, unquote raw]

/-- A spelling that is to be kept out: a long one that is no part of the marker. -/
structure Secret (url word : Str) : Prop where
  spelling : word ∈ spellings url
  long : 8 ≤ word.length
  outside : ¬ word <:+: redactedMarker

/-- No message keeps the URL or a long spelling, and putting in the marker makes no new occurrence
of either. -/
structure NeverLogged (order : SetIteration) (refused : Str → Bool) (url : Str) : Prop where
  whole : ∀ message, ¬ url <:+: redact order refused message url
  secrets : ∀ message word, Secret url word → ¬ word <:+: redact order refused message url
  creates : ∀ word, word = url ∨ Secret url word → ∀ left right,
    word <:+: left ++ redactedMarker ++ right →
      word <:+: left ∨ word <:+: right ∨ word <:+: redactedMarker

/-- The URL is no part of the marker, it and its long spellings are apart from the marker, and each
of these holds a long value that `parse_qsl` or the splitting of the query gives. -/
structure Redactable (refused : Str → Bool) (url : Str) : Prop where
  outside : ¬ url <:+: redactedMarker
  apart : ∀ word, word = url ∨ Secret url word → Python.Apart redactedMarker word
  covered : ∀ word, Secret url word → refused url = false ∧
    ∃ value ∈ candidates (queryOf url), 8 ≤ value.length ∧ value <:+: word

section Redacting

variable {order : SetIteration} {refused : Str → Bool} {message url word out : Str}
  {values : List Str}

theorem mem_longestFirst {value : Str} : value ∈ longestFirst order values ↔ value ∈ values := by
  rw [longestFirst, (List.mergeSort_perm _ _).mem_iff, (order.perm values).mem_iff, List.mem_dedup]

theorem ne_nil_of_long {value : Str} (h : 8 ≤ value.length) : value ≠ [] := by
  rintro rfl
  exact absurd h (by decide)

theorem infix_redactValues (hword : Python.Apart redactedMarker word)
    (houtside : ¬ word <:+: redactedMarker) (h : word <:+: redactValues values out) :
    word <:+: out ∧ ∀ value ∈ values, 8 ≤ value.length → ¬ value <:+: word := by
  induction values generalizing out with
  | nil => exact ⟨h, fun value hvalue => absurd hvalue List.not_mem_nil⟩
  | cons value values ih =>
    rw [redactValues, List.foldl_cons] at h
    obtain ⟨hin, hrest⟩ := ih h
    by_cases hlong : 8 ≤ value.length
    · rw [if_pos hlong] at hin
      obtain ⟨hout, hnot⟩ := infix_of_infix_replace (ne_nil_of_long hlong) hword houtside hin
      exact ⟨hout, List.forall_mem_cons.mpr ⟨fun _ => hnot, hrest⟩⟩
    · rw [if_neg hlong] at hin
      exact ⟨hin, List.forall_mem_cons.mpr ⟨fun h => absurd h hlong, hrest⟩⟩

theorem redactValues_of_absent (h : ∀ value ∈ values, 8 ≤ value.length → ¬ value <:+: out) :
    redactValues values out = out := by
  induction values with
  | nil => rfl
  | cons value values ih =>
    obtain ⟨hvalue, hvalues⟩ := List.forall_mem_cons.mp h
    rw [redactValues, List.foldl_cons]
    by_cases hlong : 8 ≤ value.length
    · rw [if_pos hlong, replace_of_absent (hvalue hlong)]
      exact ih hvalues
    · rw [if_neg hlong]
      exact ih hvalues

theorem infix_redact (hurl : url ≠ []) (hword : Python.Apart redactedMarker word)
    (houtside : ¬ word <:+: redactedMarker) (h : word <:+: redact order refused message url) :
    ¬ url <:+: word ∧ (refused url = false →
      ∀ value ∈ candidates (queryOf url), 8 ≤ value.length → ¬ value <:+: word) := by
  rw [redact, if_neg hurl, urlsplitQuery] at h
  cases hrefused : refused url with
  | true =>
    rw [hrefused, if_pos rfl] at h
    exact ⟨(infix_of_infix_replace hurl hword houtside h).2, fun hfalse => by cases hfalse⟩
  | false =>
    rw [hrefused, if_neg Bool.false_ne_true] at h
    obtain ⟨hout, hvalues⟩ := infix_redactValues hword houtside h
    exact ⟨(infix_of_infix_replace hurl hword houtside hout).2,
      fun _ value hvalue => hvalues value (mem_longestFirst.mpr hvalue)⟩

theorem Secret.length_lt (h : Secret url word) : word.length < url.length := by
  obtain ⟨raw, hraw, hword⟩ := List.mem_flatMap.mp h.spelling
  have hle : word.length ≤ raw.length := by
    rcases List.mem_cons.mp hword with rfl | hword
    · exact le_rfl
    · rw [List.mem_singleton.mp hword]
      exact length_unquote raw
  have hne : raw ≠ [] := ne_nil_of_long (h.long.trans hle)
  exact hle.trans_lt (length_rawValues hraw hne)

theorem redact_of_absent (hurl : ¬ url <:+: message)
    (hvalues : refused url = false →
      ∀ value ∈ candidates (queryOf url), 8 ≤ value.length → ¬ value <:+: message) :
    redact order refused message url = message := by
  rw [redact, urlsplitQuery, replace_of_absent hurl]
  cases hrefused : refused url with
  | true => exact ite_self _
  | false =>
    have hloop : redactValues (longestFirst order (candidates (queryOf url))) message = message :=
      redactValues_of_absent fun value hvalue =>
        hvalues hrefused value (mem_longestFirst.mp hvalue)
    rw [if_neg Bool.false_ne_true]
    dsimp only
    rw [hloop, ite_self]

theorem neverLogged_of (h : Redactable refused url) : NeverLogged order refused url := by
  have hurl : url ≠ [] := by
    rintro rfl
    exact h.outside List.nil_infix
  refine ⟨fun message hin => ?_, fun message word hword hin => ?_,
    fun word hword left right hin => ?_⟩
  · exact (infix_redact hurl (h.apart url (.inl rfl)) h.outside hin).1 List.infix_rfl
  · obtain ⟨hrefused, value, hvalue, hlong, hheld⟩ := h.covered word hword
    exact (infix_redact hurl (h.apart word (.inr hword)) hword.outside hin).2 hrefused value hvalue
      hlong hheld
  · have houtside : ¬ word <:+: redactedMarker := by
      rcases hword with rfl | hword
      · exact h.outside
      · exact hword.outside
    exact ((h.apart word hword).beside houtside hin).imp_right .inl

theorem outside_of (h : NeverLogged order refused url) : ¬ url <:+: redactedMarker := by
  intro hin
  by_cases hurl : url = []
  · subst hurl
    exact h.whole [] List.nil_infix
  · have hmark : '?' ∉ (url.filter fun c => !isUnsafeUrlChar c).takeWhile (· != '#') := by
      intro hmem
      have hmarker : '?' ∈ redactedMarker :=
        hin.subset (List.mem_of_mem_filter ((List.takeWhile_prefix _).subset hmem))
      exact absurd hmarker (by decide)
    have hquery : queryOf url = [] := by rw [queryOf, partition_none hmark]
    have hshort : ∀ value ∈ candidates [], ¬ 8 ≤ value.length := by decide
    have hredact : redact order refused url url = redactedMarker := by
      rw [redact, if_neg hurl, urlsplitQuery, replace_self hurl]
      cases hrefused : refused url with
      | true => rfl
      | false =>
        rw [if_neg Bool.false_ne_true, hquery]
        refine redactValues_of_absent fun value hvalue hlong => ?_
        exact absurd hlong (hshort value (mem_longestFirst.mp hvalue))
    exact h.whole url (hredact ▸ hin)

theorem redactable_of (h : NeverLogged order refused url) : Redactable refused url := by
  have houtside := outside_of h
  refine ⟨houtside, fun word hword => ?_, fun word hword => ?_⟩
  · refine apart_of_beside (by decide) ?_ (h.creates word hword)
    rcases hword with rfl | hword
    · exact houtside
    · exact hword.outside
  · by_contra hnot
    refine h.secrets word word hword ?_
    rw [redact_of_absent]
    · intro hin
      exact absurd hin.length_le (Nat.not_le.mpr hword.length_lt)
    · intro hrefused value hvalue hlong hin
      exact hnot ⟨hrefused, value, hvalue, hlong, hin⟩

end Redacting

/-- The URL and the long spellings of its values are kept out of every message exactly where the URL
is redactable. -/
theorem neverLogged_iff (order : SetIteration) (refused : Str → Bool) (url : Str) :
    NeverLogged order refused url ↔ Redactable refused url :=
  ⟨redactable_of, neverLogged_of⟩

/-- A key with an escaped slash and a plus sign, in a message that has it decoded. -/
theorem plus_sign_leaks :
    ¬ NeverLogged ⟨List.dedup, fun _ => List.Perm.refl _⟩ (fun _ => false)
      "https://sendersupport/d?key=ab%2Fcdefgh+i" := by
  intro h
  have hsecret : Secret "https://sendersupport/d?key=ab%2Fcdefgh+i" "ab/cdefgh+i" :=
    ⟨by decide, by decide, by decide⟩
  obtain ⟨-, hcovered⟩ := (redactable_of h).covered _ hsecret
  revert hcovered
  decide

end SharedInfra.Snds
