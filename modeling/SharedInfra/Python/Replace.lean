import SharedInfra.Python.Text

/-!
# Replacing text

`str.replace` for a text that is not empty: the occurrences are taken from the
left and do not overlap, and what is put in is not searched again.  A character
that is not in the text to replace cuts the work in two (`replace_cut`).
-/

namespace SharedInfra.Python

/-- The work of `str.replace`, after the characters of an occurrence that are still to be left
out. -/
def replaceAfter (old new : Str) : Nat → Str → Str
  | _, [] => []
  | skip + 1, _ :: rest => replaceAfter old new skip rest
  | 0, c :: rest =>
    if startsWith (c :: rest) old then new ++ replaceAfter old new (old.length - 1) rest
    else c :: replaceAfter old new 0 rest

/-- `str.replace`, of a text that is not empty. -/
def replace (s old new : Str) : Str := replaceAfter old new 0 s

/-- `old in s`. -/
def occursIn (old : Str) : Str → Bool
  | [] => old.isEmpty
  | c :: rest => startsWith (c :: rest) old || occursIn old rest

section Facts

variable {s old new left right rest : Str} {c d : Char}

theorem startsWith_iff : startsWith s old = true ↔ old <+: s := List.isPrefixOf_iff_prefix

theorem occursIn_iff : occursIn old s = true ↔ old <:+: s := by
  induction s with
  | nil => rw [occursIn, List.isEmpty_iff, List.infix_nil]
  | cons c rest ih =>
    rw [occursIn, Bool.or_eq_true, startsWith_iff, ih, List.infix_cons_iff]

theorem replaceAfter_of_match (h : old <+: c :: rest) :
    replaceAfter old new 0 (c :: rest) = new ++ replaceAfter old new (old.length - 1) rest := by
  rw [replaceAfter, if_pos (startsWith_iff.mpr h)]

theorem replaceAfter_of_mismatch (h : ¬ old <+: c :: rest) :
    replaceAfter old new 0 (c :: rest) = c :: replaceAfter old new 0 rest := by
  rw [replaceAfter, if_neg fun htrue => h (startsWith_iff.mp htrue)]

theorem replace_of_absent (h : ¬ old <:+: s) : replace s old new = s := by
  induction s with
  | nil => rfl
  | cons c rest ih =>
    have hrest : ¬ old <:+: rest :=
      fun hinside => h (hinside.trans (List.suffix_cons c rest).isInfix)
    have hnot : ¬ old <+: c :: rest := fun hprefix => h hprefix.isInfix
    exact (replaceAfter_of_mismatch hnot).trans (congrArg (c :: ·) (ih hrest))

theorem replaceAfter_all (skip : Nat) (h : s.length ≤ skip) : replaceAfter old new skip s = [] := by
  induction s generalizing skip with
  | nil => cases skip <;> rfl
  | cons c rest ih =>
    cases skip with
    | zero => simp at h
    | succ skip => exact ih skip (by simpa using h)

theorem replace_self (h : old ≠ []) : replace old old new = new := by
  cases old with
  | nil => exact absurd rfl h
  | cons c rest =>
    have hrest : replaceAfter (c :: rest) new ((c :: rest).length - 1) rest = [] :=
      replaceAfter_all _ (by simp)
    have hstart := @replaceAfter_of_match (c :: rest) new rest c (List.prefix_refl _)
    rw [hrest, List.append_nil] at hstart
    exact hstart

theorem prefix_cut_iff (hd : d ∉ old) : old <+: left ++ d :: right ↔ old <+: left := by
  constructor
  · intro h
    by_contra hnot
    have hlong : left.length < old.length := by
      by_contra hshort
      exact hnot (List.prefix_of_prefix_length_le h (List.prefix_append _ _) (by omega))
    have hcut : left ++ [d] <+: old := by
      refine @List.prefix_of_prefix_length_le _ _ _ (left ++ d :: right) ?_ h ?_
      · exact ⟨right, by simp⟩
      · simp only [List.length_append, List.length_singleton]
        omega
    exact hd (hcut.subset (by simp))
  · intro h
    exact h.trans (List.prefix_append _ _)

theorem replaceAfter_cut (hne : old ≠ []) (hd : d ∉ old) (skip : Nat) (h : skip ≤ left.length) :
    replaceAfter old new skip (left ++ d :: right) =
      replaceAfter old new skip left ++ d :: replace right old new := by
  induction left generalizing skip with
  | nil =>
    obtain rfl : skip = 0 := by simpa using h
    have hnot : ¬ old <+: d :: right := by
      intro hprefix
      exact hne (List.prefix_nil.mp ((@prefix_cut_iff old [] right d hd).mp hprefix))
    exact replaceAfter_of_mismatch hnot
  | cons c rest ih =>
    cases skip with
    | succ skip => exact ih skip (by simpa using h)
    | zero =>
      by_cases hprefix : old <+: c :: rest
      · have hlong : old <+: c :: (rest ++ d :: right) :=
          (@prefix_cut_iff old (c :: rest) right d hd).mpr hprefix
        have hlength := hprefix.length_le
        rw [List.length_cons] at hlength
        rw [List.cons_append, replaceAfter_of_match hprefix, replaceAfter_of_match hlong,
          ih _ (by omega), List.append_assoc]
      · have hlong : ¬ old <+: c :: (rest ++ d :: right) :=
          fun h => hprefix ((@prefix_cut_iff old (c :: rest) right d hd).mp h)
        rw [List.cons_append, replaceAfter_of_mismatch hprefix,
          replaceAfter_of_mismatch hlong, ih 0 (Nat.zero_le _)]
        rfl

theorem replace_cut (hne : old ≠ []) (hd : d ∉ old) :
    replace (left ++ d :: right) old new = replace left old new ++ d :: replace right old new :=
  replaceAfter_cut hne hd 0 (Nat.zero_le _)

end Facts

end SharedInfra.Python
