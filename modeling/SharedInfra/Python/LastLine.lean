import SharedInfra.Python.Splitting

/-!
# The last line of a text

What is appended to a text goes on with its last line, the part after the last line
break: `splitlines` finds the lines before it as they were (`splitlines_append`).
-/

namespace SharedInfra.Python

section Breaks

variable {s t before : Str}

def finishedLines (s : Str) : Str := s.rdropWhile fun c => !isLineBreak c

def lastLine (s : Str) : Str := s.rtakeWhile fun c => !isLineBreak c

theorem finishedLines_append_lastLine (s : Str) : finishedLines s ++ lastLine s = s :=
  List.rdropWhile_append_rtakeWhile

theorem isLineBreak_of_finished {c : Char} (h : (finishedLines s).getLast? = some c) :
    isLineBreak c = true := by
  obtain ⟨hne, rfl⟩ := List.mem_getLast?_eq_getLast h
  have hnot := List.rdropWhile_last_not (fun c => !isLineBreak c) s hne
  rwa [Bool.not_eq_true, Bool.not_eq_false'] at hnot

theorem noBreak_lastLine : ∀ c ∈ lastLine s, isLineBreak c = false := fun c hc => by
  simpa using List.mem_rtakeWhile_imp hc

theorem splitlines_ne_nil (h : s ≠ []) : splitlines s ≠ [] := by
  fun_induction splitlines s with
  | case1 => exact absurd rfl h
  | case2 rest ih => exact List.cons_ne_nil _ _
  | case3 c rest _ hbreak ih => exact List.cons_ne_nil _ _
  | case4 c rest _ hbreak ih => cases splitlines rest <;> exact List.cons_ne_nil _ _

theorem splitlines_append (hbreak : ∀ c, before.getLast? = some c → isLineBreak c = true)
    (hreturn : '\r' ∉ before) (rest : Str) :
    splitlines (before ++ rest) = splitlines before ++ splitlines rest := by
  induction before with
  | nil => rfl
  | cons c before ih =>
    obtain ⟨hc, hbefore⟩ := List.ne_and_not_mem_of_not_mem_cons hreturn
    have hlast : ∀ d, before.getLast? = some d → isLineBreak d = true := fun d hd =>
      hbreak d (by
        cases before with
        | nil => cases hd
        | cons e before => rw [List.getLast?_cons_cons, hd])
    have ih := ih hlast hbefore
    rw [List.cons_append, splitlines.eq_3 _ _ fun _ hr _ => hc hr.symm,
      splitlines.eq_3 _ _ fun _ hr _ => hc hr.symm, ih]
    split_ifs with hcbreak
    · rfl
    · refine consLine_append c (splitlines_ne_nil ?_) _
      rintro rfl
      exact hcbreak (hbreak c rfl)

end Breaks

section Blanks

variable {s t : Str} {c : Char}

theorem lstrip_append_of_exists (h : ∃ c ∈ s, isSpace c = false) :
    lstrip (s ++ t) = lstrip s ++ t := by
  obtain ⟨c, hc, hspace⟩ := h
  rw [lstrip, List.dropWhile_append, if_neg]
  · rfl
  · rw [List.isEmpty_iff, List.dropWhile_eq_nil_iff]
    intro hall
    rw [hall c hc] at hspace
    cases hspace

theorem lstrip_append_of_forall (h : ∀ c ∈ s, isSpace c = true) : lstrip (s ++ t) = lstrip t := by
  rw [lstrip, List.dropWhile_append_of_pos h]
  rfl

theorem rstrip_past (h : isSpace c = false) : rstrip (s ++ c :: t) = s ++ c :: rstrip t := by
  rw [← List.singleton_append, ← List.append_assoc, rstrip, List.rdropWhile, List.reverse_append,
    List.dropWhile_append]
  split_ifs with hempty
  · rw [List.isEmpty_iff] at hempty
    rw [rstrip, List.rdropWhile, hempty, List.reverse_append, List.reverse_singleton,
      List.singleton_append, List.dropWhile_cons_of_neg (by simp [h])]
    simp
  · simp [rstrip, List.rdropWhile]

theorem isSpace_head_strip (h : (strip s).head? = some c) : isSpace c = false := by
  obtain ⟨rest, hrest⟩ : strip s <+: s.dropWhile isSpace := List.rdropWhile_prefix _ _
  have hne : s.dropWhile isSpace ≠ [] := by
    rintro hnil
    rw [hnil] at hrest
    rw [(List.append_eq_nil_iff.mp hrest).1] at h
    cases h
  have hhead : (s.dropWhile isSpace).head hne = c := by
    refine Option.some.inj ((List.head?_eq_some_head hne).symm.trans ?_)
    rw [← hrest, List.head?_append, h]
    rfl
  simpa [hhead] using List.head_dropWhile_not _ hne

theorem isLineBreak_of_noSpace (h : isSpace c = false) : isLineBreak c = false := by
  rw [← Bool.not_eq_true] at h ⊢
  exact fun hbreak => h (isSpace_of_isLineBreak hbreak)

theorem isSpace_of_graphic (h : 33 ≤ c.toNat) (h' : c.toNat < 127) : isSpace c = false := by
  rw [← Bool.not_eq_true]
  intro hspace
  simp only [isSpace, Bool.or_eq_true, Bool.and_eq_true, decide_eq_true_eq, beq_iff_eq] at hspace
  omega

end Blanks

end SharedInfra.Python
