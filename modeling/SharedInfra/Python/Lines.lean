import SharedInfra.Python.Text

/-!
# Lines, pieces and blanks

How the characters of a text are found again in its pieces and lines, and what
`strip` leaves.
-/

namespace SharedInfra.Python

theorem toNat_of_isLower {c : Char} (h : c.isLower = true) : 97 ≤ c.toNat ∧ c.toNat ≤ 122 := by
  simpa [Char.isLower, UInt32.le_iff_toNat_le] using h

theorem toNat_of_isDigit {c : Char} (h : c.isDigit = true) : 48 ≤ c.toNat ∧ c.toNat ≤ 57 := by
  simpa [Char.isDigit, UInt32.le_iff_toNat_le] using h

theorem toNat_of_isUpper {c : Char} (h : c.isUpper = true) : 65 ≤ c.toNat ∧ c.toNat ≤ 90 := by
  simpa [Char.isUpper, UInt32.le_iff_toNat_le] using h

section Pieces

variable {sep : Char} {s : Str}

theorem mem_splitOnChar (sep : Char) {c : Char} (h : c ∈ s) :
    c = sep ∨ ∃ piece ∈ splitOnChar sep s, c ∈ piece := by
  induction s with
  | nil => cases h
  | cons d s ih =>
    rw [splitOnChar]
    split_ifs with hd
    · rcases List.mem_cons.mp h with rfl | h
      · exact Or.inl hd
      · rcases ih h with hc | ⟨piece, hpiece, hc⟩
        · exact Or.inl hc
        · exact Or.inr ⟨piece, List.mem_cons_of_mem _ hpiece, hc⟩
    · cases hs : splitOnChar sep s with
      | nil => exact absurd hs (splitOnChar_ne_nil _ _)
      | cons l ls =>
        rw [hs] at ih
        rw [consLine]
        rcases List.mem_cons.mp h with rfl | h
        · exact Or.inr ⟨_, List.mem_cons_self, List.mem_cons_self⟩
        · rcases ih h with hc | ⟨piece, hpiece, hc⟩
          · exact Or.inl hc
          · rcases List.mem_cons.mp hpiece with rfl | hpiece
            · exact Or.inr ⟨_, List.mem_cons_self, List.mem_cons_of_mem _ hc⟩
            · exact Or.inr ⟨piece, List.mem_cons_of_mem _ hpiece, hc⟩

theorem chars_of_pieces {allowed : Char → Prop} (hsep : allowed sep)
    (h : ∀ piece ∈ splitOnChar sep s, ∀ c ∈ piece, allowed c) : ∀ c ∈ s, allowed c := by
  intro c hc
  rcases mem_splitOnChar sep hc with heq | ⟨piece, hpiece, hmem⟩
  · exact heq ▸ hsep
  · exact h piece hpiece c hmem

theorem consLine_append (c : Char) {xs : List Str} (hxs : xs ≠ []) (ys : List Str) :
    consLine c (xs ++ ys) = consLine c xs ++ ys := by
  cases xs with
  | nil => exact absurd rfl hxs
  | cons x xs => rfl

theorem splitOnChar_append (sep : Char) (u v : Str) :
    splitOnChar sep (u ++ sep :: v) = splitOnChar sep u ++ splitOnChar sep v := by
  induction u with
  | nil => simp [splitOnChar]
  | cons c u ih =>
    rw [List.cons_append, splitOnChar, splitOnChar, ih]
    split_ifs
    · rfl
    · exact consLine_append c (splitOnChar_ne_nil sep u) _

theorem splitOnChar_of_not_mem (h : sep ∉ s) :
    splitOnChar sep s = [s] := by
  induction s with
  | nil => rfl
  | cons c s ih =>
    obtain ⟨hc, hs⟩ := List.ne_and_not_mem_of_not_mem_cons h
    rw [splitOnChar, if_neg (Ne.symm hc), ih hs]
    rfl

theorem splitOnChar_replicate_append (sep : Char) (n : Nat) (s : Str) :
    splitOnChar sep (List.replicate n sep ++ s) = List.replicate n [] ++ splitOnChar sep s := by
  induction n with
  | zero => rfl
  | succ n ih =>
    rw [List.replicate_succ, List.cons_append, splitOnChar, if_pos rfl, ih]
    rfl

theorem splitOnChar_prepend {s t : Str} (h : sep ∉ s) :
    splitOnChar sep (s ++ t) =
      (s ++ (splitOnChar sep t).headD []) :: (splitOnChar sep t).tail := by
  induction s with
  | nil =>
    obtain ⟨x, xs, hx⟩ := List.exists_cons_of_ne_nil (splitOnChar_ne_nil sep t)
    simp [hx]
  | cons c s ih =>
    obtain ⟨hc, hs⟩ := List.ne_and_not_mem_of_not_mem_cons h
    rw [List.cons_append, splitOnChar, if_neg (Ne.symm hc), ih hs]
    rfl

theorem mem_of_mem_piece {sep c : Char} {s piece : Str} (hpiece : piece ∈ splitOnChar sep s)
    (hc : c ∈ piece) : c ∈ s := by
  induction s generalizing piece with
  | nil =>
    rw [List.mem_singleton.mp hpiece] at hc
    exact hc
  | cons d s ih =>
    rw [splitOnChar] at hpiece
    split_ifs at hpiece with hd
    · rcases List.mem_cons.mp hpiece with rfl | hpiece
      · cases hc
      · exact List.mem_cons_of_mem _ (ih hpiece hc)
    · obtain ⟨x, xs, hx⟩ := List.exists_cons_of_ne_nil (splitOnChar_ne_nil sep s)
      rw [hx, consLine] at hpiece
      rcases List.mem_cons.mp hpiece with rfl | hpiece
      · rcases List.mem_cons.mp hc with rfl | hc
        · exact List.mem_cons_self
        · exact List.mem_cons_of_mem _ (ih (hx ▸ List.mem_cons_self) hc)
      · exact List.mem_cons_of_mem _ (ih (hx ▸ List.mem_cons_of_mem _ hpiece) hc)

theorem joinWith_consLine (sep c : Char) {xs : List Str} (hxs : xs ≠ []) :
    joinWith [sep] (consLine c xs) = c :: joinWith [sep] xs := by
  match xs, hxs with
  | [], hxs => exact absurd rfl hxs
  | [x], _ => rfl
  | x :: y :: xs, _ => rfl

theorem joinWith_splitOnChar (sep : Char) (s : Str) :
    joinWith [sep] (splitOnChar sep s) = s := by
  induction s with
  | nil => rfl
  | cons c s ih =>
    have hne := splitOnChar_ne_nil sep s
    rw [splitOnChar]
    split_ifs with hc
    · obtain ⟨x, xs, hx⟩ := List.exists_cons_of_ne_nil hne
      rw [hx, joinWith_cons_cons, ← hx, ih, hc]
      rfl
    · rw [joinWith_consLine sep c hne, ih]

theorem splitOnChar_joinWith {pieces : List Str} (hne : pieces ≠ [])
    (h : ∀ piece ∈ pieces, sep ∉ piece) : splitOnChar sep (joinWith [sep] pieces) = pieces := by
  induction pieces with
  | nil => exact absurd rfl hne
  | cons x pieces ih =>
    obtain ⟨hx, hpieces⟩ := List.forall_mem_cons.mp h
    cases pieces with
    | nil => exact splitOnChar_of_not_mem hx
    | cons y pieces =>
      rw [joinWith_cons_cons, List.append_assoc, List.singleton_append, splitOnChar_append,
        splitOnChar_of_not_mem hx, ih (by simp) hpieces]
      rfl

theorem not_mem_of_mem_splitOnChar :
    ∀ piece ∈ splitOnChar sep s, sep ∉ piece := by
  induction s with
  | nil => simp [splitOnChar]
  | cons c s ih =>
    rw [splitOnChar]
    split_ifs with hc
    · exact List.forall_mem_cons.mpr ⟨by simp, ih⟩
    · obtain ⟨x, xs, hx⟩ := List.exists_cons_of_ne_nil (splitOnChar_ne_nil sep s)
      rw [hx] at ih ⊢
      obtain ⟨hsep, hrest⟩ := List.forall_mem_cons.mp ih
      refine List.forall_mem_cons.mpr ⟨?_, hrest⟩
      rw [List.mem_cons, not_or]
      exact ⟨Ne.symm hc, hsep⟩

theorem joinWith_append_replicate (sep : Char) {pieces : List Str} (hne : pieces ≠ []) (n : Nat) :
    joinWith [sep] (pieces ++ List.replicate n []) =
      joinWith [sep] pieces ++ List.replicate n sep := by
  have honce : ∀ (x : Str) (n : Nat),
      joinWith [sep] (x :: List.replicate n []) = x ++ List.replicate n sep := by
    intro x n
    induction n generalizing x with
    | zero => simp [joinWith]
    | succ n ihn =>
      rw [List.replicate_succ, joinWith_cons_cons, ihn, List.replicate_succ]
      simp
  induction pieces with
  | nil => exact absurd rfl hne
  | cons x pieces ih =>
    cases pieces with
    | nil => exact honce x n
    | cons y pieces =>
      rw [List.cons_append, List.cons_append, joinWith_cons_cons, ← List.cons_append,
        ih (by simp), joinWith_cons_cons, ← List.append_assoc]

end Pieces

theorem universalNewlines_append {s t : Str} (h : ∀ c ∈ s, isLineBreak c = false) :
    universalNewlines (s ++ '\n' :: t) = s ++ '\n' :: universalNewlines t := by
  induction s with
  | nil => rfl
  | cons c s ih =>
    have hc : c ≠ '\r' := by
      rintro rfl
      exact absurd (h _ List.mem_cons_self) (by decide)
    rw [List.cons_append, universalNewlines.eq_3 _ _ (fun _ hr _ => hc hr), if_neg hc,
      ih fun d hd => h d (List.mem_cons_of_mem _ hd), List.cons_append]

theorem noBreak_of_consLine {c : Char} {lines : List Str} (hc : isLineBreak c = false)
    (h : ∀ line ∈ lines, ∀ d ∈ line, isLineBreak d = false) :
    ∀ line ∈ consLine c lines, ∀ d ∈ line, isLineBreak d = false := by
  cases lines with
  | nil => simpa [consLine] using hc
  | cons l ls =>
    obtain ⟨hl, hls⟩ := List.forall_mem_cons.mp h
    exact List.forall_mem_cons.mpr ⟨List.forall_mem_cons.mpr ⟨hc, hl⟩, hls⟩

theorem noBreak_of_mem_splitlines (s : Str) :
    ∀ line ∈ splitlines s, ∀ c ∈ line, isLineBreak c = false := by
  fun_induction splitlines s with
  | case1 => simp
  | case2 rest ih => exact List.forall_mem_cons.mpr ⟨by simp, ih⟩
  | case3 c rest _ hbreak ih => exact List.forall_mem_cons.mpr ⟨by simp, ih⟩
  | case4 c rest _ hbreak ih => exact noBreak_of_consLine (by simpa using hbreak) ih

theorem strip_of_noSpace {s : Str} (h : ∀ c ∈ s, isSpace c = false) : strip s = s := by
  have hl : lstrip s = s := by
    cases s with
    | nil => rfl
    | cons c s => rw [lstrip, List.dropWhile_cons_of_neg (by simp [h c])]
  rw [strip, hl, rstrip, List.rdropWhile_eq_self_iff]
  intro hs
  simp [h _ (List.getLast_mem hs)]

theorem strip_sublist (s : Str) : (strip s).Sublist s :=
  (List.rdropWhile_prefix _ _).sublist.trans (List.dropWhile_suffix _).sublist

theorem isSpace_or_mem_strip {s : Str} {c : Char} (h : c ∈ s) :
    isSpace c = true ∨ c ∈ strip s := by
  rw [← List.takeWhile_append_dropWhile (p := isSpace) (l := s)] at h
  rcases List.mem_append.mp h with h | h
  · exact Or.inl (List.mem_takeWhile_imp h)
  · rw [← List.rdropWhile_append_rtakeWhile (p := isSpace) (l := s.dropWhile isSpace)] at h
    rcases List.mem_append.mp h with h | h
    · exact Or.inr h
    · exact Or.inl (List.mem_rtakeWhile_imp h)

theorem strip_strip (s : Str) : strip (strip s) = strip s := by
  have hl : lstrip (strip s) = strip s := by
    have hpre : strip s <+: lstrip s := List.rdropWhile_prefix _ _
    cases hs : strip s with
    | nil => rfl
    | cons c t =>
      obtain ⟨rest, hrest⟩ := hs ▸ hpre
      have hhead : ¬isSpace c = true := by
        have hidem : lstrip (lstrip s) = lstrip s := List.dropWhile_idempotent _ _
        rw [← hrest] at hidem
        simpa using List.dropWhile_eq_self_iff.mp hidem (by simp)
      rw [lstrip, List.dropWhile_cons_of_neg hhead]
  rw [strip, hl, rstrip, strip, rstrip, List.rdropWhile_idempotent]

end SharedInfra.Python
