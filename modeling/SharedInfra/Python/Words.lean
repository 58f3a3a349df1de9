import SharedInfra.Python.Text

/-!
# The words of a text

`str.split()` of words with blanks between them gives the words again (`splitWords_joinWith`),
and neither the blanks at the ends of a text nor those within it show in its words.
-/

namespace SharedInfra.Python

section Words

variable {s t w rest : Str} {c d : Char}

theorem splitWords_cons_space (h : isSpace c = true) : splitWords (c :: s) = splitWords s := by
  rw [splitWords.eq_def]
  dsimp only
  rw [if_pos h]

theorem splitWords_singleton (h : isSpace c = false) : splitWords [c] = [[c]] := by
  rw [splitWords.eq_def]
  dsimp only
  rw [h, if_neg Bool.false_ne_true]

theorem splitWords_cons_cons (h : isSpace c = false) : splitWords (c :: d :: rest) =
    if isSpace d then [c] :: splitWords (d :: rest) else consLine c (splitWords (d :: rest)) := by
  rw [splitWords.eq_def]
  dsimp only
  rw [h, if_neg Bool.false_ne_true]

theorem splitWords_head (h : isSpace c = false) :
    ∃ word words, splitWords (c :: s) = (c :: word) :: words := by
  cases s with
  | nil => exact ⟨[], [], splitWords_singleton h⟩
  | cons d s =>
    rw [splitWords_cons_cons h]
    split_ifs
    · exact ⟨[], _, rfl⟩
    · cases splitWords (d :: s) with
      | nil => exact ⟨[], [], rfl⟩
      | cons word words => exact ⟨word, words, rfl⟩

theorem splitWords_cons_append {words : List Str}
    (h : splitWords (d :: rest) = splitWords (d :: s) ++ words) :
    splitWords (c :: d :: rest) = splitWords (c :: d :: s) ++ words := by
  by_cases hc : isSpace c = true
  · rw [splitWords_cons_space hc, splitWords_cons_space hc, h]
  · have hcfalse : isSpace c = false := Bool.eq_false_iff.mpr hc
    rw [splitWords_cons_cons hcfalse, splitWords_cons_cons hcfalse, h]
    by_cases hd : isSpace d = true
    · rw [if_pos hd, if_pos hd]
      rfl
    · obtain ⟨word, others, hwords⟩ := splitWords_head (s := s) (Bool.eq_false_iff.mpr hd)
      rw [if_neg hd, if_neg hd, hwords]
      rfl

theorem splitWords_append_cons (hc : isSpace c = true) :
    splitWords (s ++ c :: t) = splitWords s ++ splitWords t := by
  induction s with
  | nil => exact splitWords_cons_space hc
  | cons d s ih =>
    cases s with
    | nil =>
      rw [List.singleton_append]
      by_cases hd : isSpace d = true
      · rw [splitWords_cons_space hd, splitWords_cons_space hd, splitWords_cons_space hc]
        rfl
      · have hd : isSpace d = false := Bool.eq_false_iff.mpr hd
        rw [splitWords_cons_cons hd, if_pos hc, splitWords_cons_space hc, splitWords_singleton hd]
        rfl
    | cons e s => exact splitWords_cons_append ih

/-- A word: characters and no blank. -/
def IsWord (w : Str) : Prop := w ≠ [] ∧ ∀ c ∈ w, isSpace c = false

theorem splitWords_word (h : IsWord w) : splitWords w = [w] := by
  obtain ⟨hne, hw⟩ := h
  induction w with
  | nil => exact absurd rfl hne
  | cons c w ih =>
    obtain ⟨hc, hw⟩ := List.forall_mem_cons.mp hw
    cases w with
    | nil => exact splitWords_singleton hc
    | cons d w =>
      have hd : isSpace d = false := hw d List.mem_cons_self
      rw [splitWords_cons_cons hc, hd, if_neg Bool.false_ne_true, ih (List.cons_ne_nil _ _) hw]
      rfl

theorem splitWords_append_space (h : IsWord w) :
    splitWords (w ++ ' ' :: rest) = w :: splitWords rest := by
  obtain ⟨hne, hw⟩ := h
  have hblank : isSpace ' ' = true := rfl
  induction w with
  | nil => exact absurd rfl hne
  | cons c w ih =>
    obtain ⟨hc, hw⟩ := List.forall_mem_cons.mp hw
    cases w with
    | nil =>
      rw [List.singleton_append, splitWords_cons_cons hc, hblank, if_pos rfl,
        splitWords_cons_space hblank]
    | cons d w =>
      have hd : isSpace d = false := hw d List.mem_cons_self
      have hrest := ih (List.cons_ne_nil _ _) hw
      rw [List.cons_append] at hrest
      rw [List.cons_append, List.cons_append, splitWords_cons_cons hc, hd,
        if_neg Bool.false_ne_true, hrest]
      rfl

theorem splitWords_joinWith {words : List Str} (h : ∀ w ∈ words, IsWord w) :
    splitWords (joinWith [' '] words) = words := by
  induction words with
  | nil => rfl
  | cons word words ih =>
    obtain ⟨hword, hwords⟩ := List.forall_mem_cons.mp h
    cases words with
    | nil => exact splitWords_word hword
    | cons next words =>
      rw [joinWith_cons_cons, List.append_assoc, List.singleton_append,
        splitWords_append_space hword, ih hwords]

theorem isWord_of_mem_splitWords (h : w ∈ splitWords s) : IsWord w := by
  induction s generalizing w with
  | nil => cases h
  | cons c s ih =>
    by_cases hc : isSpace c = true
    · rw [splitWords_cons_space hc] at h
      exact ih h
    · have hfalse : isSpace c = false := Bool.eq_false_iff.mpr hc
      have hone : IsWord [c] :=
        ⟨List.cons_ne_nil _ _, List.forall_mem_singleton.mpr hfalse⟩
      cases s with
      | nil =>
        rw [splitWords_singleton hfalse] at h
        rw [List.mem_singleton.mp h]
        exact hone
      | cons d s =>
        rw [splitWords_cons_cons hfalse] at h
        split_ifs at h with hd
        · obtain rfl | h := List.mem_cons.mp h
          · exact hone
          · exact ih h
        · obtain ⟨word, words, hwords⟩ := splitWords_head (s := s) (Bool.eq_false_iff.mpr hd)
          rw [hwords, consLine] at h
          rw [hwords] at ih
          obtain rfl | h := List.mem_cons.mp h
          · obtain ⟨-, hword⟩ := ih List.mem_cons_self
            exact ⟨List.cons_ne_nil _ _, List.forall_mem_cons.mpr ⟨hfalse, hword⟩⟩
          · exact ih (List.mem_cons_of_mem _ h)

end Words

theorem splitWords_of_space {t : Str} (h : ∀ c ∈ t, isSpace c = true) : splitWords t = [] := by
  induction t with
  | nil => rfl
  | cons c t ih =>
    obtain ⟨hc, ht⟩ := List.forall_mem_cons.mp h
    rw [splitWords_cons_space hc, ih ht]

theorem splitWords_append_of_space {s t : Str} (ht : ∀ c ∈ t, isSpace c = true) :
    splitWords (s ++ t) = splitWords s := by
  induction s with
  | nil => exact splitWords_of_space ht
  | cons c s ih =>
    cases s with
    | nil =>
      by_cases hc : isSpace c = true
      · rw [List.singleton_append, splitWords_cons_space hc, splitWords_cons_space hc,
          splitWords_of_space ht]
        rfl
      · have hfalse : isSpace c = false := Bool.eq_false_iff.mpr hc
        rw [List.singleton_append, splitWords_singleton hfalse]
        cases t with
        | nil => exact splitWords_singleton hfalse
        | cons d t =>
          rw [splitWords_cons_cons hfalse, if_pos (ht d List.mem_cons_self), splitWords_of_space ht]
    | cons d s =>
      have hrest : splitWords (d :: (s ++ t)) = splitWords (d :: s) ++ [] := by
        rw [List.append_nil]
        exact ih
      have hcons := splitWords_cons_append (c := c) hrest
      rw [List.append_nil] at hcons
      exact hcons

theorem splitWords_strip (s : Str) : splitWords (strip s) = splitWords s := by
  have hleft : splitWords (lstrip s) = splitWords s := by
    induction s with
    | nil => rfl
    | cons c s ih =>
      by_cases hc : isSpace c = true
      · rw [splitWords_cons_space hc, lstrip, List.dropWhile_cons_of_pos hc]
        exact ih
      · rw [lstrip, List.dropWhile_cons_of_neg hc]
  have hright : ∀ u : Str, splitWords (rstrip u) = splitWords u := fun u => by
    have hcut : rstrip u ++ u.rtakeWhile isSpace = u := by
      rw [rstrip, List.rdropWhile, List.rtakeWhile, ← List.reverse_append,
        List.takeWhile_append_dropWhile, List.reverse_reverse]
    conv_rhs => rw [← hcut]
    refine (splitWords_append_of_space fun c hc => ?_).symm
    exact List.mem_rtakeWhile_imp hc
  rw [strip, hright, hleft]

end SharedInfra.Python
