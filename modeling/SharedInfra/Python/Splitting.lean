import SharedInfra.Python.Lines

/-!
# Splitting at blanks and at a first separator

`str.split(None, n)` and `str.partition` of one character, `splitlines` of lines
joined by the newline, and what each of them makes of text that holds no blank.
-/

namespace SharedInfra.Python

/-- `s.split(None, n)`: up to `n` words, then what is left from its first character on. -/
def splitMax : Nat → Str → List Str
  | 0, s => if (lstrip s).isEmpty then [] else [lstrip s]
  | n + 1, s =>
    if (lstrip s).isEmpty then []
    else (lstrip s).takeWhile (fun c => !isSpace c) ::
      splitMax n ((lstrip s).dropWhile fun c => !isSpace c)

/-- `s.partition(sep)`, with whether the separator was found. -/
def partition (sep : Char) (s : Str) : Str × Bool × Str :=
  match s.dropWhile (· != sep) with
  | [] => (s, false, [])
  | _ :: after => (s.takeWhile (· != sep), true, after)

section Words

variable {w rest : Str}

/-- Text that neither begins nor ends with a blank. -/
def Trimmed (s : Str) : Prop :=
  (∀ c ∈ s.head?, isSpace c = false) ∧ ∀ c ∈ s.getLast?, isSpace c = false

theorem lstrip_of_head (h : ∀ c ∈ w.head?, isSpace c = false) : lstrip w = w := by
  cases w with
  | nil => rfl
  | cons c w =>
    have hc : isSpace c = false := h c rfl
    rw [lstrip, List.dropWhile_cons_of_neg (by simp [hc])]

theorem strip_trimmed (h : Trimmed w) : strip w = w := by
  rw [strip, lstrip_of_head h.1, rstrip, List.rdropWhile_eq_self_iff]
  intro hne
  simp [h.2 _ (List.getLast_mem_getLast? hne)]

theorem trimmed_of_noSpace (h : ∀ c ∈ w, isSpace c = false) : Trimmed w :=
  ⟨fun c hc => h c (List.mem_of_mem_head? hc), fun c hc => h c (List.mem_of_getLast? hc)⟩

theorem takeWhile_word (h : ∀ c ∈ w, isSpace c = false) :
    (w ++ ' ' :: rest).takeWhile (fun c => !isSpace c) = w := by
  rw [List.takeWhile_append_of_pos (by simpa using h)]
  have : isSpace ' ' = true := rfl
  rw [List.takeWhile_cons_of_neg (by simp [this]), List.append_nil]

theorem dropWhile_word (h : ∀ c ∈ w, isSpace c = false) :
    (w ++ ' ' :: rest).dropWhile (fun c => !isSpace c) = ' ' :: rest := by
  rw [List.dropWhile_append_of_pos (by simpa using h)]
  have : isSpace ' ' = true := rfl
  rw [List.dropWhile_cons_of_neg (by simp [this])]

theorem lstrip_word (hne : w ≠ []) (h : ∀ c ∈ w, isSpace c = false) :
    lstrip (w ++ rest) = w ++ rest := by
  obtain ⟨c, w, rfl⟩ := List.exists_cons_of_ne_nil hne
  exact lstrip_of_head (by simpa using h c (by simp))

theorem splitMax_word (n : Nat) (hne : w ≠ []) (h : ∀ c ∈ w, isSpace c = false) :
    splitMax (n + 1) (w ++ ' ' :: rest) = w :: splitMax n (' ' :: rest) := by
  rw [splitMax, lstrip_word hne h, takeWhile_word h, dropWhile_word h, if_neg]
  simp [hne]

theorem splitMax_blank (n : Nat) : splitMax n (' ' :: rest) = splitMax n rest := by
  have : lstrip (' ' :: rest) = lstrip rest := by
    rw [lstrip, List.dropWhile_cons_of_pos (by rfl)]
    rfl
  cases n with
  | zero => rw [splitMax, splitMax, this]
  | succ n => rw [splitMax, splitMax, this]

theorem splitMax_single (n : Nat) (hne : w ≠ []) (h : ∀ c ∈ w, isSpace c = false) :
    splitMax n w = [w] := by
  have hstrip : lstrip w = w := lstrip_of_head (trimmed_of_noSpace h).1
  have hempty : ¬ w.isEmpty = true := by simpa using hne
  cases n with
  | zero => rw [splitMax, hstrip, if_neg hempty]
  | succ n =>
    have htake : w.takeWhile (fun c => !isSpace c) = w :=
      List.takeWhile_eq_self_iff.mpr (by simpa using h)
    have hdrop : w.dropWhile (fun c => !isSpace c) = [] :=
      List.dropWhile_eq_nil_iff.mpr (by simpa using h)
    have hnil : splitMax n [] = [] := by cases n <;> rfl
    rw [splitMax, hstrip, if_neg hempty, htake, hdrop, hnil]

theorem partition_found {sep : Char} (h : sep ∉ w) :
    partition sep (w ++ sep :: rest) = (w, true, rest) := by
  have hall : ∀ c ∈ w, (c != sep) = true := by
    intro c hc
    rw [bne_iff_ne]
    rintro rfl
    exact h hc
  rw [partition, List.dropWhile_append_of_pos hall, List.takeWhile_append_of_pos hall]
  simp

theorem partition_none {sep : Char} (h : sep ∉ w) : partition sep w = (w, false, []) := by
  have hdrop : w.dropWhile (· != sep) = [] := by
    rw [List.dropWhile_eq_nil_iff]
    intro c hc
    rw [bne_iff_ne]
    rintro rfl
    exact h hc
  rw [partition, hdrop]

end Words

theorem splitlines_single {l : Str} (hne : l ≠ []) (h : ∀ c ∈ l, isLineBreak c = false) :
    splitlines l = [l] := by
  induction l with
  | nil => exact absurd rfl hne
  | cons c l ih =>
    obtain ⟨hc, hl⟩ := List.forall_mem_cons.mp h
    rw [splitlines_cons hc]
    cases l with
    | nil => rfl
    | cons d l => rw [ih (by simp) hl]; rfl

theorem splitlines_joinWith {lines : List Str} (hne : ∀ line ∈ lines, line ≠ [])
    (h : ∀ line ∈ lines, ∀ c ∈ line, isLineBreak c = false) :
    splitlines (joinWith ['\n'] lines) = lines := by
  induction lines with
  | nil => rfl
  | cons line lines ih =>
    obtain ⟨hline, hlines⟩ := List.forall_mem_cons.mp h
    obtain ⟨hlinene, hlinesne⟩ := List.forall_mem_cons.mp hne
    cases lines with
    | nil => exact splitlines_single hlinene hline
    | cons next lines =>
      rw [joinWith_cons_cons, List.append_assoc, List.singleton_append,
        splitlines_append_newline hline, ih hlinesne hlines]

theorem isSpace_of_isLineBreak {c : Char} (h : isLineBreak c = true) : isSpace c = true := by
  simp only [isLineBreak, isSpace, Bool.or_eq_true, Bool.and_eq_true, decide_eq_true_eq,
    beq_iff_eq] at h ⊢
  omega

end SharedInfra.Python
