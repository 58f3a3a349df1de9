import SharedInfra.CiJump.Inputs

/-!
# Which destinations are let through

`check_destinations` against what it is for: a list of host names and dotted
quads, each of which is one `PermitOpen` argument.  One entry is refused, let
through, or read by `int` and not understood (`destinationShape_cases`); the
whole list follows from its entries in order (`scanDestinations_cases`).

The shape test asks `str.isdigit`, which is true of digits of every script and
of superscripts.  A quad of the former is let through and a superscript stops
the check with a `ValueError`; `checkDestinations_iff` says that nothing else
goes wrong.
-/

namespace SharedInfra.CiJump

open Python

section Meaning

variable {ω : Type}

/-- A label of a host name: letters, digits and inner hyphens, 63 at most. -/
structure IsHostLabel (label : Str) : Prop where
  named : label ≠ []
  short : label.length ≤ 63
  chars : ∀ c ∈ label, isLabelChar c = true
  first : label.head? ≠ some '-'
  last : label.getLast? ≠ some '-'

structure IsHostName (entry : Str) : Prop where
  short : entry.length ≤ 253
  labels : ∀ label ∈ splitOnChar '.' entry, IsHostLabel label
  named : ∃ label ∈ splitOnChar '.' entry, isAsciiDigits label = false

def IsQuadNumber (label : Str) : Prop :=
  isAsciiDigits label = true ∧ label.length ≤ 3 ∧ decimalValue label ≤ 255

/-- Four numbers with dots between them. -/
def IsQuad (entry : Str) : Prop :=
  (splitOnChar '.' entry).length = 4 ∧ ∀ label ∈ splitOnChar '.' entry, IsQuadNumber label

/-- A text with its ASCII capitals lowered. -/
def lowered (entry : Str) : Str := entry.map Char.toLower

/-- A list of hosts and addresses, no two of them the same but for case. -/
def Acceptable (entries : List Str) : Prop :=
  entries ≠ [] ∧ (∀ entry ∈ entries, IsQuad entry ∨ IsHostName entry) ∧
    entries.Pairwise fun a b => lowered a ≠ lowered b

/-- One argument of `PermitOpen`: a host, of which no character means anything to the reader of
the line, and the pinned port. -/
def IsPermitOpen (argument : Str) : Prop :=
  ∃ host, argument = permitted host ∧ host ≠ [] ∧
    ∀ c ∈ host, c.isAlphanum = true ∨ c = '-' ∨ c = '.'

/-- The check takes an acceptable list as it is, each entry a `PermitOpen` argument, and refuses
any other object. -/
def JudgesRightly (t : CharTables) (v : Object ω) : Prop :=
  (∃ entries, v = .list (entries.map .text) ∧ checkDestinations t v = .ok entries ∧
      Acceptable entries ∧ ∀ entry ∈ entries, IsPermitOpen (permitted entry)) ∨
    (∃ r, checkDestinations t v = .error (.refusal r)) ∧
      ¬∃ entries, v = .list (entries.map .text) ∧ Acceptable entries

end Meaning

/-- A number of a quad in whatever script `int` reads. -/
def IsOctet (label : Str) : Prop := label.length ≤ 3 ∧ ∃ n ≤ 255, intOfDigits label = some n

/-- Four such numbers, with a digit beyond ASCII. -/
structure ForeignQuad (entry : Str) : Prop where
  four : (splitOnChar '.' entry).length = 4
  octets : ∀ label ∈ splitOnChar '.' entry, isDigits label = true ∧ IsOctet label
  foreign : ∃ c ∈ entry, 128 ≤ c.toNat

/-- Four labels of digits, of which `int` cannot read one before a number is too large. -/
structure Unreadable (entry : Str) : Prop where
  four : (splitOnChar '.' entry).length = 4
  digits : ∀ label ∈ splitOnChar '.' entry, isDigits label = true
  unread : ∃ front label back, splitOnChar '.' entry = front ++ label :: back ∧
    (∀ l ∈ front, IsOctet l) ∧ label.length ≤ 3 ∧ intOfDigits label = none

/-- What the shape test lets through. -/
def Passing (entry : Str) : Prop := IsQuad entry ∨ ForeignQuad entry ∨ IsHostName entry

theorem intOfDigits_ascii {label : Str} (h : isAsciiDigits label = true)
    (hshort : label.length ≤ 3) : intOfDigits label = some (decimalValue label) := by
  rw [isAsciiDigits, Bool.and_eq_true, Bool.not_eq_true', List.isEmpty_eq_false_iff,
    List.all_eq_true] at h
  have hlong : ¬ maxStrDigits < label.length := by
    rw [maxStrDigits]
    omega
  have hfold : ∀ (s : Str) (n : Nat), (s.map fun c => c.toNat - 48).foldl (fun n d => 10 * n + d) n =
      s.foldl (fun n c => n * 10 + (c.toNat - 48)) n := by
    intro s
    induction s with
    | nil => exact fun _ => rfl
    | cons c s ih =>
      intro n
      rw [List.map_cons, List.foldl_cons, List.foldl_cons, ih, Nat.mul_comm]
  rw [intOfDigits, if_neg (not_or.mpr ⟨h.1, hlong⟩), mapM_digitValue h.2]
  exact congrArg some (hfold label 0)

theorem isDigits_of_ascii {label : Str} (h : isAsciiDigits label = true) : isDigits label = true := by
  rw [isAsciiDigits, Bool.and_eq_true, List.all_eq_true] at h
  rw [isDigits, Bool.and_eq_true, List.all_eq_true]
  exact ⟨h.1, fun c hc => by rw [isDigitChar, isDecimal_of_isDigit (h.2 c hc), Bool.true_or]⟩

theorem isAsciiDigits_of_digits {label : Str} (h : isDigits label = true)
    (hascii : ∀ c ∈ label, c.toNat < 128) : isAsciiDigits label = true := by
  rw [isDigits, Bool.and_eq_true, List.all_eq_true] at h
  rw [isAsciiDigits, Bool.and_eq_true, List.all_eq_true]
  exact ⟨h.1, fun c hc => by rw [← isDigitChar_ascii (hascii c hc), h.2 c hc]⟩

theorem toNat_of_isAlphanum {c : Char} (h : c.isAlphanum = true) : c.toNat < 128 := by
  rw [Char.isAlphanum, Bool.or_eq_true, Char.isAlpha, Bool.or_eq_true] at h
  rcases h with (h | h) | h
  · have := toNat_of_isUpper h
    omega
  · have := toNat_of_isLower h
    omega
  · have := toNat_of_isDigit h
    omega

theorem passing_of_octets {entry : Str} (hfour : (splitOnChar '.' entry).length = 4)
    (h : ∀ label ∈ splitOnChar '.' entry, isDigits label = true ∧ IsOctet label) :
    Passing entry := by
  by_cases hforeign : ∃ c ∈ entry, 128 ≤ c.toNat
  · exact Or.inr (Or.inl ⟨hfour, h, hforeign⟩)
  · refine Or.inl ⟨hfour, fun label hlabel => ?_⟩
    have hascii : ∀ c ∈ label, c.toNat < 128 := fun c hc =>
      not_le.mp fun hle => hforeign ⟨c, mem_of_mem_piece hlabel hc, hle⟩
    obtain ⟨hdigits, hshort, n, hn, hint⟩ := h label hlabel
    have hplain := isAsciiDigits_of_digits hdigits hascii
    rw [intOfDigits_ascii hplain hshort, Option.some.injEq] at hint
    exact ⟨hplain, hshort, hint ▸ hn⟩

theorem octets_of_quad {entry : Str} (h : IsQuad entry) :
    ∀ label ∈ splitOnChar '.' entry, isDigits label = true ∧ IsOctet label := by
  intro label hlabel
  obtain ⟨hdigits, hshort, hvalue⟩ := h.2 label hlabel
  exact ⟨isDigits_of_ascii hdigits, hshort, _, hvalue, intOfDigits_ascii hdigits hshort⟩

/-- A character of a host name, or a digit of any script. -/
def isEntryChar (c : Char) : Bool := isLabelChar c || c == '.' || isDigitChar c

theorem isLabelChar_ascii {c : Char} (h : isLabelChar c = true) : c.toNat < 128 := by
  rw [isLabelChar, Bool.or_eq_true, beq_iff_eq] at h
  rcases h with h | rfl
  · exact toNat_of_isAlphanum h
  · decide

theorem not_isEntryChar {c : Char}
    (h : c ∈ ['"', '\'', '\\', '*', '?', ',', '[', ']', ':']) : isEntryChar c = false := by
  simp only [List.mem_cons, List.not_mem_nil, or_false] at h
  rcases h with rfl | rfl | rfl | rfl | rfl | rfl | rfl | rfl | rfl <;> decide

theorem not_mem_of_entryChars {entry : Str} (h : ∀ c ∈ entry, isEntryChar c = true) {c : Char}
    (hc : c ∈ ['"', '\'', '\\', '*', '?', ',', '[', ']', ':']) : c ∉ entry := by
  intro hmem
  exact absurd (h c hmem) (by simp [not_isEntryChar hc])

theorem isSpace_cases {c : Char} (h : isSpace c = true) :
    ∃ n ∈ ([9, 10, 11, 12, 13, 28, 29, 30, 31, 32, 0x85, 0xa0, 0x1680, 0x2000, 0x2001, 0x2002,
      0x2003, 0x2004, 0x2005, 0x2006, 0x2007, 0x2008, 0x2009, 0x200a, 0x2028, 0x2029, 0x202f,
      0x205f, 0x3000] : List Nat), c = Char.ofNat n := by
  refine ⟨c.toNat, ?_, (Char.ofNat_toNat c).symm⟩
  simp only [isSpace, Bool.or_eq_true, Bool.and_eq_true, decide_eq_true_eq, beq_iff_eq] at h
  simp only [List.mem_cons, List.not_mem_nil, or_false]
  omega

theorem isSpace_entryChar {c : Char} (h : isEntryChar c = true) : isSpace c = false := by
  by_contra hspace
  obtain ⟨n, hn, rfl⟩ := isSpace_cases (Bool.not_eq_false _ ▸ hspace)
  have hnone : ∀ n ∈ ([9, 10, 11, 12, 13, 28, 29, 30, 31, 32, 0x85, 0xa0, 0x1680, 0x2000, 0x2001,
      0x2002, 0x2003, 0x2004, 0x2005, 0x2006, 0x2007, 0x2008, 0x2009, 0x200a, 0x2028, 0x2029,
      0x202f, 0x205f, 0x3000] : List Nat), isEntryChar (Char.ofNat n) = false := by
    decide
  exact absurd h (by simp [hnone n hn])

theorem isPrintable_entryChar (t : CharTables) {c : Char} (h : isEntryChar c = true) :
    t.isPrintable c = true := by
  by_cases hdigit : isDigitChar c = true
  · exact t.isPrintable_digit c hdigit
  · rw [isEntryChar, Bool.or_eq_true, Bool.or_eq_true] at h
    have hplain : isLabelChar c = true ∨ c = '.' := by
      simpa [hdigit] using h
    have hascii : c.toNat < 128 := by
      rcases hplain with h | rfl
      · exact isLabelChar_ascii h
      · decide
    rw [t.isPrintable_ascii c hascii]
    exact ascii_cases (p := fun c => isLabelChar c = true ∨ c = '.' → isPrintableAscii c = true)
      (by decide) hascii hplain

section Entries

variable {entry : Str}

theorem isHostLabel_iff {label : Str} : isHostLabel label = true ↔ IsHostLabel label := by
  cases label with
  | nil => simp only [isHostLabel, Bool.false_eq_true, false_iff]; exact fun h => h.named rfl
  | cons c cs =>
    have hedge : ∀ d, isLabelChar d = true ∧ d ≠ '-' ↔ d.isAlphanum = true := by
      intro d
      rw [isLabelChar, Bool.or_eq_true, beq_iff_eq]
      constructor
      · rintro ⟨h | h, hne⟩
        · exact h
        · exact absurd h hne
      · intro h
        refine ⟨Or.inl h, ?_⟩
        rintro rfl
        exact absurd h (by decide)
    rcases List.eq_nil_or_concat cs with rfl | ⟨inner, d, rfl⟩
    · simp only [isHostLabel, List.isEmpty_nil, Bool.true_or, Bool.and_true]
      constructor
      · intro h
        obtain ⟨hchar, hne⟩ := (hedge c).mpr h
        exact ⟨by simp, by simp, by simpa using hchar, by simpa using hne, by simpa using hne⟩
      · intro h
        exact (hedge c).mp ⟨h.chars c (by simp), by simpa using h.first⟩
    · simp only [isHostLabel, List.concat_eq_append, List.dropLast_concat, List.getLast?_concat,
        Option.any_some, Bool.and_eq_true, Bool.or_eq_true, List.isEmpty_iff,
        List.append_eq_nil_iff, List.cons_ne_self, and_false, false_or, List.all_eq_true,
        decide_eq_true_eq]
      constructor
      · rintro ⟨hfirst, ⟨hinner, hlength⟩, hlast⟩
        obtain ⟨hc, hcne⟩ := (hedge c).mpr hfirst
        obtain ⟨hd, hdne⟩ := (hedge d).mpr hlast
        refine ⟨by simp, ?_, ?_, by simpa using hcne, ?_⟩
        · simp only [List.length_cons, List.length_append, List.length_nil]
          omega
        · intro e he
          simp only [List.mem_cons, List.mem_append, List.not_mem_nil, or_false] at he
          rcases he with rfl | he | rfl
          · exact hc
          · exact hinner e he
          · exact hd
        · simpa [List.getLast?_cons] using hdne
      · intro h
        have hlength := h.short
        simp only [List.length_cons, List.length_append, List.length_nil] at hlength
        have hlast := h.last
        refine ⟨(hedge c).mp ⟨h.chars c (by simp), by simpa using h.first⟩,
          ⟨fun e he => h.chars e (by simp [he]), by omega⟩,
          (hedge d).mp ⟨h.chars d (by simp), ?_⟩⟩
        simpa [List.getLast?_cons] using hlast

theorem entryChars_of_labels
    (h : ∀ label ∈ splitOnChar '.' entry, ∀ c ∈ label, isEntryChar c = true) :
    ∀ c ∈ entry, isEntryChar c = true :=
  @chars_of_pieces _ _ (fun c => isEntryChar c = true) (by decide) h

theorem entryChars_of_digits (h : ∀ label ∈ splitOnChar '.' entry, isDigits label = true) :
    ∀ c ∈ entry, isEntryChar c = true := by
  refine entryChars_of_labels fun label hlabel c hc => ?_
  have := h label hlabel
  rw [isDigits, Bool.and_eq_true, List.all_eq_true] at this
  rw [isEntryChar, this.2 c hc, Bool.or_true]

theorem IsHostName.entryChars (h : IsHostName entry) : ∀ c ∈ entry, isEntryChar c = true := by
  refine entryChars_of_labels fun label hlabel c hc => ?_
  rw [isEntryChar, (h.labels label hlabel).chars c hc, Bool.true_or, Bool.true_or]

theorem Passing.entryChars (h : Passing entry) : ∀ c ∈ entry, isEntryChar c = true := by
  rcases h with h | h | h
  · exact entryChars_of_digits fun label hlabel => (octets_of_quad h label hlabel).1
  · exact entryChars_of_digits fun label hlabel => (h.octets label hlabel).1
  · exact h.entryChars

theorem IsHostName.not_digits (h : IsHostName entry) :
    ¬ ∀ label ∈ splitOnChar '.' entry, isDigits label = true := by
  intro hdigits
  obtain ⟨label, hlabel, hnumber⟩ := h.named
  have hascii := isAsciiDigits_of_digits (hdigits label hlabel) fun c hc =>
    isLabelChar_ascii ((h.labels label hlabel).chars c hc)
  rw [hascii] at hnumber
  cases hnumber

theorem anyTooLarge_cases (labels : List Str) :
    ((∃ front label back, labels = front ++ label :: back ∧ (∀ l ∈ front, IsOctet l) ∧
        label.length ≤ 3 ∧ intOfDigits label = none) ∧ anyTooLarge labels = .error .valueError) ∨
      ((∀ l ∈ labels, IsOctet l) ∧ anyTooLarge labels = .ok false) ∨
      ((∃ front label back, labels = front ++ label :: back ∧ (∀ l ∈ front, IsOctet l) ∧
        (label.length ≤ 3 → intOfDigits label ≠ none) ∧ ¬IsOctet label) ∧
        anyTooLarge labels = .ok true) := by
  induction labels with
  | nil => exact Or.inr (Or.inl ⟨by simp, rfl⟩)
  | cons label labels ih =>
    by_cases hlong : label.length > 3
    · refine Or.inr (Or.inr ⟨⟨[], label, labels, rfl, by simp, fun h => ?_, fun h => ?_⟩, ?_⟩)
      · omega
      · have := h.1
        omega
      · rw [anyTooLarge, if_pos hlong]
        rfl
    have hshort : label.length ≤ 3 := by omega
    cases hint : intOfDigits label with
    | none =>
      refine Or.inl ⟨⟨[], label, labels, rfl, by simp, hshort, hint⟩, ?_⟩
      rw [anyTooLarge, if_neg hlong, hint]
      rfl
    | some n =>
      by_cases hlarge : n > 255
      · refine Or.inr (Or.inr ⟨⟨[], label, labels, rfl, by simp, fun _ => ?_, fun h => ?_⟩, ?_⟩)
        · simp [hint]
        · obtain ⟨_, m, hm, hint'⟩ := h
          rw [hint, Option.some.injEq] at hint'
          omega
        · rw [anyTooLarge, if_neg hlong, hint]
          simp only [if_pos hlarge]
          rfl
      have hoctet : IsOctet label := ⟨hshort, n, by omega, hint⟩
      have hstep : anyTooLarge (label :: labels) = anyTooLarge labels := by
        rw [anyTooLarge, if_neg hlong, hint]
        simp only [if_neg hlarge]
      rw [hstep]
      have hfront : ∀ front : List Str, (∀ l ∈ front, IsOctet l) →
          ∀ l ∈ label :: front, IsOctet l := fun front hfront =>
        List.forall_mem_cons.mpr ⟨hoctet, hfront⟩
      rcases ih with ⟨⟨front, l, back, rfl, hf, hl⟩, h⟩ | ⟨hall, h⟩ |
        ⟨⟨front, l, back, rfl, hf, hl⟩, h⟩
      · exact Or.inl ⟨⟨label :: front, l, back, rfl, hfront front hf, hl⟩, h⟩
      · exact Or.inr (Or.inl ⟨hfront labels hall, h⟩)
      · exact Or.inr (Or.inr ⟨⟨label :: front, l, back, rfl, hfront front hf, hl⟩, h⟩)

theorem destinationShape_foreign (t : CharTables) (number : Nat)
    (h : ¬ ∀ c ∈ entry, isEntryChar c = true) :
    ∃ r, destinationShape t entry number = .error (.refusal r) := by
  have hdigits : ¬ (splitOnChar '.' entry).all isDigits = true := fun hall =>
    h (entryChars_of_digits (List.all_eq_true.mp hall))
  have hlabels : ¬ (splitOnChar '.' entry).all isHostLabel = true := fun hall =>
    h (entryChars_of_labels fun label hlabel c hc => by
      have := (isHostLabel_iff.mp (List.all_eq_true.mp hall label hlabel)).chars c hc
      rw [isEntryChar, this, Bool.true_or, Bool.true_or])
  unfold destinationShape
  simp only [refuse, bind, Except.bind, pure, Except.pure, if_neg hdigits,
    if_pos (Or.inr hlabels : entry.length > 253 ∨ _)]
  split_ifs
  all_goals exact ⟨_, rfl⟩

theorem destinationShape_entry (t : CharTables) (number : Nat)
    (h : ∀ c ∈ entry, isEntryChar c = true) :
    destinationShape t entry number =
      (if (splitOnChar '.' entry).all isDigits then
        if (splitOnChar '.' entry).length ≠ 4 then
          refuse "E-DEST-SHAPE".toList ("destination ".toList ++ decimal number ++
            " is not an IPv4 address or a host name".toList)
        else anyTooLarge (splitOnChar '.' entry) >>= fun large =>
          if large then refuse "E-DEST-SHAPE".toList ("destination ".toList ++ decimal number ++
            " is not an IPv4 address or a host name".toList)
          else pure ()
      else if entry.length > 253 ∨ ¬(splitOnChar '.' entry).all isHostLabel then
        refuse "E-DEST-SHAPE".toList ("destination ".toList ++ decimal number ++
          " is not an IPv4 address or a host name".toList)
      else pure ()) := by
  have hquote : ¬('"' ∈ entry ∨ '\'' ∈ entry ∨ '\\' ∈ entry) := by
    simp [not_mem_of_entryChars h]
  have hwild : ¬('*' ∈ entry ∨ '?' ∈ entry) := by simp [not_mem_of_entryChars h]
  have hcomma : ¬(',' ∈ entry) := by simp [not_mem_of_entryChars h]
  have hcolon : ¬(':' ∈ entry) := by simp [not_mem_of_entryChars h]
  have hspace : ¬((!entry.all t.isPrintable || entry.any isSpace) = true) := by
    rw [Bool.or_eq_true, Bool.not_eq_true', not_or, Bool.not_eq_false, List.all_eq_true,
      Bool.not_eq_true, List.any_eq_false]
    exact ⟨fun c hc => isPrintable_entryChar t (h c hc),
      fun c hc => by simp [isSpace_entryChar (h c hc)]⟩
  have hsix : ¬('[' ∈ entry ∨ ']' ∈ entry ∨ entry.count ':' > 1) := by
    simp [not_mem_of_entryChars h, List.count_eq_zero_of_not_mem hcolon]
  unfold destinationShape
  simp only [if_neg hquote, if_neg hwild, if_neg hcomma, if_neg hspace, if_neg hsix, if_neg hcolon]

theorem destinationShape_cases (t : CharTables) (entry : Str) (number : Nat) :
    (Unreadable entry ∧ destinationShape t entry number = .error .valueError) ∨
      (Passing entry ∧ ¬Unreadable entry ∧ destinationShape t entry number = .ok ()) ∨
      (¬Passing entry ∧ ¬Unreadable entry ∧
        ∃ r, destinationShape t entry number = .error (.refusal r)) := by
  by_cases hchars : ∀ c ∈ entry, isEntryChar c = true
  swap
  · exact Or.inr (Or.inr ⟨fun h => hchars h.entryChars,
      fun h => hchars (entryChars_of_digits h.digits), destinationShape_foreign t number hchars⟩)
  rw [destinationShape_entry t number hchars]
  by_cases hdigits : (splitOnChar '.' entry).all isDigits = true
  swap
  · rw [if_neg hdigits]
    rw [List.all_eq_true] at hdigits
    have hunread : ¬Unreadable entry := fun h => hdigits h.digits
    by_cases hname : entry.length > 253 ∨ ¬(splitOnChar '.' entry).all isHostLabel = true
    · rw [if_pos hname]
      refine Or.inr (Or.inr ⟨?_, hunread, _, rfl⟩)
      rintro (h | h | h)
      · exact hdigits fun label hlabel => (octets_of_quad h label hlabel).1
      · exact hdigits fun label hlabel => (h.octets label hlabel).1
      · rcases hname with hlong | hlabels
        · have := h.short
          omega
        · exact hlabels (List.all_eq_true.mpr fun l hl => isHostLabel_iff.mpr (h.labels l hl))
    · rw [if_neg hname]
      obtain ⟨hshort, hlabels⟩ := not_or.mp hname
      rw [not_not, List.all_eq_true] at hlabels
      refine Or.inr (Or.inl ⟨Or.inr (Or.inr ⟨by omega, fun l hl => isHostLabel_iff.mp (hlabels l hl), ?_⟩),
        hunread, rfl⟩)
      by_contra hnumbers
      exact hdigits fun label hlabel => isDigits_of_ascii
        (by_contra fun h => hnumbers ⟨label, hlabel, Bool.not_eq_true _ ▸ h⟩)
  rw [if_pos hdigits]
  rw [List.all_eq_true] at hdigits
  by_cases hfour : (splitOnChar '.' entry).length ≠ 4
  · rw [if_pos hfour]
    refine Or.inr (Or.inr ⟨?_, fun h => hfour h.four, _, rfl⟩)
    rintro (h | h | h)
    · exact hfour h.1
    · exact hfour h.four
    · exact h.not_digits hdigits
  rw [if_neg hfour]
  rw [not_not] at hfour
  rcases anyTooLarge_cases (splitOnChar '.' entry) with ⟨hunread, h⟩ | ⟨hall, h⟩ |
    ⟨⟨front, label, back, hsplit, hfront, hread, hlarge⟩, h⟩
  · exact Or.inl ⟨⟨hfour, hdigits, hunread⟩, by rw [h]; rfl⟩
  · refine Or.inr (Or.inl ⟨passing_of_octets hfour fun l hl => ⟨hdigits l hl, hall l hl⟩, ?_, ?_⟩)
    · rintro ⟨_, _, front, label, back, hsplit, _, _, hnone⟩
      obtain ⟨_, n, _, hn⟩ := hall label (by simp [hsplit])
      rw [hnone] at hn
      cases hn
    · rw [h]
      rfl
  · have hmem : label ∈ splitOnChar '.' entry := by simp [hsplit]
    refine Or.inr (Or.inr ⟨?_, ?_, _, by rw [h]; rfl⟩)
    · rintro (hquad | hquad | hhost)
      · exact hlarge (octets_of_quad hquad label hmem).2
      · exact hlarge (hquad.octets label hmem).2
      · exact hhost.not_digits hdigits
    · -- Every label before the one that is too large is an octet, so `int` reads it.
      rintro ⟨_, _, front', label', back', hsplit', hfront', hshort', hnone'⟩
      rw [hsplit] at hsplit'
      rcases List.append_eq_append_iff.mp hsplit' with ⟨more, hmore, hrest⟩ | ⟨more, hmore, hrest⟩
      · cases more with
        | nil =>
          have : label = label' := (List.cons.inj (by simpa using hrest)).1
          exact hread (this ▸ hshort') (this ▸ hnone')
        | cons x more =>
          have : label = x := (List.cons.inj (by simpa using hrest)).1
          exact hlarge (hfront' label (by simp [hmore, this]))
      · cases more with
        | nil =>
          have : label' = label := (List.cons.inj (by simpa using hrest)).1
          exact hread (this ▸ hshort') (this ▸ hnone')
        | cons x more =>
          have : label' = x := (List.cons.inj (by simpa using hrest)).1
          obtain ⟨_, n, _, hn⟩ := hfront label' (by simp [hmore, this])
          rw [hnone'] at hn
          cases hn

theorem Unreadable.not_passing (h : Unreadable entry) : ¬Passing entry := by
  obtain ⟨_, hdigits, front, label, back, hsplit, _, _, hnone⟩ := h
  have hmem : label ∈ splitOnChar '.' entry := by simp [hsplit]
  have hoctet : ¬IsOctet label := by
    rintro ⟨_, n, _, hn⟩
    rw [hnone] at hn
    cases hn
  rintro (hquad | hquad | hhost)
  · exact hoctet (octets_of_quad hquad label hmem).2
  · exact hoctet (hquad.octets label hmem).2
  · exact hhost.not_digits hdigits

theorem labelChars_of_plain (h : IsQuad entry ∨ IsHostName entry) :
    ∀ c ∈ entry, isLabelChar c = true ∨ c = '.' := by
  refine @chars_of_pieces _ _ (fun c => isLabelChar c = true ∨ c = '.') (Or.inr rfl) ?_
  intro label hlabel c hc
  left
  rcases h with h | h
  · have hdigits := (h.2 label hlabel).1
    rw [isAsciiDigits, Bool.and_eq_true, List.all_eq_true] at hdigits
    rw [isLabelChar, Char.isAlphanum, hdigits.2 c hc, Bool.or_true, Bool.true_or]
  · exact (h.labels label hlabel).chars c hc

theorem ForeignQuad.not_plain (h : ForeignQuad entry) : ¬(IsQuad entry ∨ IsHostName entry) := by
  intro hplain
  obtain ⟨c, hc, hforeign⟩ := h.foreign
  rcases labelChars_of_plain hplain c hc with hlabel | rfl
  · have := isLabelChar_ascii hlabel
    omega
  · exact absurd hforeign (by decide)

theorem isPermitOpen_of_plain (h : IsQuad entry ∨ IsHostName entry) :
    IsPermitOpen (permitted entry) := by
  refine ⟨entry, rfl, ?_, fun c hc => ?_⟩
  · rintro rfl
    rcases h with h | h
    · exact absurd h.1 (by decide)
    · exact (h.labels [] (by simp [splitOnChar])).named rfl
  · rcases labelChars_of_plain h c hc with hlabel | rfl
    · rw [isLabelChar, Bool.or_eq_true, beq_iff_eq] at hlabel
      exact hlabel.imp_right Or.inl
    · exact Or.inr (Or.inr rfl)

theorem Passing.lower_eq (h : Passing entry) (t : CharTables) : t.lower entry = lowered entry := by
  refine t.lower_plain entry fun c hc => ?_
  have hchar := h.entryChars c hc
  rw [isEntryChar, Bool.or_eq_true, Bool.or_eq_true, beq_iff_eq] at hchar
  rcases hchar with (hchar | rfl) | hchar
  · exact Or.inl (isLabelChar_ascii hchar)
  · exact Or.inl (by decide)
  · exact Or.inr hchar

end Entries

section Lists

variable {ω : Type}

inductive Stops (front : List (Object ω)) : Object ω → Prop
  | notText {item : Object ω} : (∀ entry, item ≠ .text entry) → Stops front item
  | shape {entry : Str} : ¬Passing entry → ¬Unreadable entry → Stops front (.text entry)
  | repeats {entry earlier : Str} : Passing entry → .text earlier ∈ front →
      lowered earlier = lowered entry → Stops front (.text entry)

/-- No entry is a quad of other digits or one that `int` cannot read, or an item that is refused
comes before any of the latter. -/
def Settles (items : List (Object ω)) : Prop :=
  (∀ entry, .text entry ∈ items → ¬ForeignQuad entry ∧ ¬Unreadable entry) ∨
    ∃ front item back, items = front ++ item :: back ∧
      (∀ entry, .text entry ∈ front → ¬Unreadable entry) ∧ Stops front item

theorem scanDestinations_cases (t : CharTables) (number : Nat) {found : List Str}
    (items : List (Object ω)) (hfound : ∀ e ∈ found, Passing e)
    (hdistinct : found.Pairwise fun a b => lowered a ≠ lowered b) :
    ∃ entries : List Str, (∀ e ∈ entries, Passing e) ∧
      ((found ++ entries).Pairwise fun a b => lowered a ≠ lowered b) ∧
      ((items = entries.map .text ∧ scanDestinations t number found items = .ok (found ++ entries)) ∨
        (∃ entry back, items = entries.map .text ++ .text entry :: back ∧ Unreadable entry ∧
          scanDestinations t number found items = .error .valueError) ∨
        (∃ item back, items = entries.map .text ++ item :: back ∧
          Stops ((found ++ entries).map .text) item ∧
          ∃ r, scanDestinations t number found items = .error (.refusal r))) := by
  induction items generalizing number found with
  | nil => exact ⟨[], by simp, by simpa using hdistinct, Or.inl ⟨rfl, by simp [scanDestinations]; rfl⟩⟩
  | cons item items ih =>
    have hhere : (found ++ []).Pairwise fun a b => lowered a ≠ lowered b := by simpa using hdistinct
    cases item with
    | list _ | other _ =>
      exact ⟨[], by simp, hhere, Or.inr (Or.inr ⟨_, items, rfl, .notText (by simp), _, rfl⟩)⟩
    | text entry =>
      rcases destinationShape_cases t entry number with ⟨hunread, h⟩ | ⟨hpass, hread, h⟩ |
        ⟨hpass, hread, r, h⟩
      · refine ⟨[], by simp, hhere, Or.inr (Or.inl ⟨entry, items, rfl, hunread, ?_⟩)⟩
        rw [scanDestinations, h]
        rfl
      · have hlower : found.map t.lower = found.map lowered :=
          List.map_congr_left fun e he => (hfound e he).lower_eq t
        by_cases hrepeat : lowered entry ∈ found.map lowered
        · obtain ⟨earlier, hmem, hsame⟩ := List.mem_map.mp hrepeat
          refine ⟨[], by simp, hhere, Or.inr (Or.inr ⟨_, items, rfl, ?_, ?_⟩)⟩
          · exact .repeats hpass (by simpa using hmem) hsame
          · rw [scanDestinations, h, hpass.lower_eq t, hlower]
            simp only [bind, Except.bind, if_pos hrepeat]
            exact ⟨_, rfl⟩
        · have hstep : scanDestinations t number found (.text entry :: items) =
              scanDestinations t (number + 1) (found ++ [entry]) items := by
            rw [scanDestinations, h, hpass.lower_eq t, hlower]
            simp only [bind, Except.bind, if_neg hrepeat]
          have hfound' : ∀ e ∈ found ++ [entry], Passing e := by
            intro e he
            rcases List.mem_append.mp he with he | he
            · exact hfound e he
            · exact List.mem_singleton.mp he ▸ hpass
          have hdistinct' : (found ++ [entry]).Pairwise fun a b => lowered a ≠ lowered b := by
            refine List.pairwise_append.mpr ⟨hdistinct, List.pairwise_singleton _ _, ?_⟩
            intro a ha b hb hsame
            exact hrepeat (List.mem_map.mpr ⟨a, ha, List.mem_singleton.mp hb ▸ hsame⟩)
          obtain ⟨entries, hentries, hpairs, hcases⟩ := ih (number + 1) hfound' hdistinct'
          have happend : found ++ [entry] ++ entries = found ++ entry :: entries := by simp
          rw [happend] at hpairs hcases
          rw [hstep]
          refine ⟨entry :: entries, List.forall_mem_cons.mpr ⟨hpass, hentries⟩, hpairs, ?_⟩
          rcases hcases with ⟨rfl, h⟩ | ⟨e, back, rfl, h⟩ | ⟨i, back, rfl, h⟩
          · exact Or.inl ⟨rfl, h⟩
          · exact Or.inr (Or.inl ⟨e, back, rfl, h⟩)
          · exact Or.inr (Or.inr ⟨i, back, rfl, h⟩)
      · refine ⟨[], by simp, hhere, Or.inr (Or.inr ⟨_, items, rfl, .shape hpass hread, r, ?_⟩)⟩
        rw [scanDestinations, h]
        rfl

theorem not_stops_of_passing {entries : List Str} (hpass : ∀ e ∈ entries, Passing e)
    (hdistinct : entries.Pairwise fun a b => lowered a ≠ lowered b) {front back : List (Object ω)}
    {item : Object ω} (h : entries.map .text = front ++ item :: back) : ¬Stops front item := by
  obtain ⟨before, after, rfl, rfl, hafter⟩ := List.map_eq_append_iff.mp h
  obtain ⟨entry, rest, rfl, rfl, rfl⟩ := List.map_eq_cons_iff.mp hafter
  intro hstops
  cases hstops with
  | notText hitem => exact hitem entry rfl
  | shape hentry _ => exact hentry (hpass entry (by simp))
  | repeats _ hmem hsame =>
    obtain ⟨earlier, hearlier, heq⟩ := List.mem_map.mp hmem
    exact (List.pairwise_append.mp hdistinct).2.2 earlier hearlier entry (by simp)
      (Object.text.inj heq ▸ hsame)

theorem not_acceptable_of_stops {front back : List (Object ω)} {item : Object ω}
    (hstops : Stops front item) :
    ¬∃ entries : List Str, front ++ item :: back = entries.map .text ∧ Acceptable entries := by
  rintro ⟨entries, heq, -, hplain, hdistinct⟩
  exact not_stops_of_passing (fun e he => (hplain e he).imp_right Or.inr) hdistinct heq.symm hstops

theorem not_settles_of_unreadable {entries : List Str} {entry : Str} {back : List (Object ω)}
    (hpass : ∀ e ∈ entries, Passing e)
    (hdistinct : entries.Pairwise fun a b => lowered a ≠ lowered b) (hunread : Unreadable entry) :
    ¬Settles (entries.map .text ++ .text entry :: back) := by
  rintro (hnone | ⟨front, item, rest, hsplit, hread, hstops⟩)
  · exact (hnone entry (by simp)).2 hunread
  · rcases List.append_eq_append_iff.mp hsplit with ⟨more, hmore, hrest⟩ | ⟨more, hmore, hrest⟩
    · cases more with
      | nil =>
        obtain ⟨rfl, -⟩ := List.cons.inj (by simpa using hrest)
        cases hstops with
        | notText hitem => exact hitem entry rfl
        | shape _ hentry => exact hentry hunread
        | repeats hentry _ _ => exact hunread.not_passing hentry
      | cons x more =>
        obtain ⟨hx, -⟩ := List.cons.inj (by simpa using hrest)
        exact hread entry (by simp [hmore, hx]) hunread
    · cases more with
      | nil =>
        obtain ⟨rfl, -⟩ := List.cons.inj (by simpa using hrest)
        cases hstops with
        | notText hitem => exact hitem entry rfl
        | shape _ hentry => exact hentry hunread
        | repeats hentry _ _ => exact hunread.not_passing hentry
      | cons x more =>
        obtain ⟨rfl, -⟩ := List.cons.inj (by simpa using hrest)
        exact not_stops_of_passing hpass hdistinct hmore hstops

theorem judges_list_iff (t : CharTables) (items : List (Object ω)) :
    JudgesRightly t (.list items) ↔ Settles items := by
  cases items with
  | nil =>
    refine ⟨fun _ => Or.inl (by simp), fun _ => Or.inr ⟨⟨_, rfl⟩, ?_⟩⟩
    rintro ⟨entries, h, hne, -⟩
    exact hne (by simpa using h)
  | cons first rest =>
    obtain ⟨entries, hpass, hdistinct, hcases⟩ :=
      scanDestinations_cases t 1 (first :: rest) (by simp) List.Pairwise.nil
    rw [List.nil_append] at hdistinct hcases
    have hcheck : checkDestinations t (.list (first :: rest)) =
        scanDestinations t 1 [] (first :: rest) := rfl
    rcases hcases with ⟨hitems, hscan⟩ | ⟨entry, back, hitems, hunread, hscan⟩ |
      ⟨item, back, hitems, hstops, r, hscan⟩
    · constructor
      · rintro (⟨entries', hv, -, ⟨-, hplain, -⟩, -⟩ | ⟨⟨r, hr⟩, -⟩)
        · refine Or.inl fun entry hentry => ?_
          rw [Object.list.inj hv] at hentry
          obtain ⟨e, he, heq⟩ := List.mem_map.mp hentry
          rw [← Object.text.inj heq]
          refine ⟨fun hforeign => hforeign.not_plain (hplain e he), fun hunread => ?_⟩
          exact hunread.not_passing ((hplain e he).imp_right Or.inr)
        · rw [hcheck, hscan] at hr
          cases hr
      · intro hsettles
        have hplain : ∀ e ∈ entries, IsQuad e ∨ IsHostName e := by
          rcases hsettles with hnone | ⟨front, item, back, hsplit, -, hstops⟩
          · intro e he
            rcases hpass e he with h | h | h
            · exact Or.inl h
            · exact absurd h (hnone e (hitems ▸ List.mem_map_of_mem he)).1
            · exact Or.inr h
          · exact absurd hstops (not_stops_of_passing hpass hdistinct (hitems ▸ hsplit))
        refine Or.inl ⟨entries, congrArg Object.list hitems, hcheck.trans hscan,
          ⟨?_, hplain, hdistinct⟩, fun e he => isPermitOpen_of_plain (hplain e he)⟩
        rintro rfl
        simp at hitems
    · rw [hitems]
      refine iff_of_false ?_ (not_settles_of_unreadable hpass hdistinct hunread)
      rw [← hitems]
      rintro (⟨entries', -, hr, -⟩ | ⟨⟨r, hr⟩, -⟩)
      · rw [hcheck, hscan] at hr
        cases hr
      · rw [hcheck, hscan] at hr
        cases hr
    · refine iff_of_true (Or.inr ⟨⟨r, hcheck.trans hscan⟩, ?_⟩) (Or.inr ⟨entries.map .text, item,
        back, hitems, fun e he hunread => ?_, hstops⟩)
      · rintro ⟨entries', hv, hacceptable⟩
        exact not_acceptable_of_stops hstops ⟨entries', hitems ▸ Object.list.inj hv, hacceptable⟩
      · obtain ⟨e', he', heq⟩ := List.mem_map.mp he
        exact hunread.not_passing (Object.text.inj heq ▸ hpass e' he')

/-- The check judges an object rightly when the object is no list, or when its list holds no quad
of digits beyond ASCII and none that `int` cannot read, unless a refused item comes before. -/
theorem checkDestinations_iff (t : CharTables) (v : Object ω) :
    JudgesRightly t v ↔ ∀ items, v = .list items → Settles items := by
  cases v with
  | text _ | other _ =>
    refine ⟨fun _ items h => by simp at h, fun _ => Or.inr ⟨⟨_, rfl⟩, ?_⟩⟩
    rintro ⟨entries, h, -⟩
    simp at h
  | list items =>
    have hall : (∀ is, Object.list items = .list is → Settles is) ↔ Settles items :=
      ⟨fun h => h items rfl, fun h is his => Object.list.inj his ▸ h⟩
    rw [hall]
    exact judges_list_iff t items

/-- A superscript is a digit that `int` does not read: the check raises its `ValueError`. -/
theorem superscript_raises_valueError :
    checkDestinations latinTables (.list [.text "1.1.1.²".toList] : Object Unit) =
        .error .valueError ∧
      ¬JudgesRightly latinTables (.list [.text "1.1.1.²".toList] : Object Unit) := by
  have h : checkDestinations latinTables (.list [.text "1.1.1.²".toList] : Object Unit) =
      .error .valueError := by
    simp only [toList_literal]
    rfl
  refine ⟨h, ?_⟩
  rintro (⟨entries, -, hr, -⟩ | ⟨⟨r, hr⟩, -⟩)
  · rw [h] at hr
    cases hr
  · rw [h] at hr
    cases hr

end Lists

end SharedInfra.CiJump
