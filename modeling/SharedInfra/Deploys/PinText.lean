import SharedInfra.Python.Lines
import SharedInfra.Deploys.PinnedDeploy

/-!
# The text of a pin

`read_current_image` gives back what `write_image_env` wrote, for an image
reference (`isPin_of_isImageRef`) and for whatever was read of a pin file before
(`isPin_of_currentImage`).
-/

namespace SharedInfra.Deploys

open Python

/-- The characters of a reference lie between `-` and `z`. -/
def inRefRange (c : Char) : Prop := 45 ≤ c.toNat ∧ c.toNat ≤ 122

theorem inRefRange_of_isAlphanum {c : Char} (h : c.isAlphanum = true) : inRefRange c := by
  unfold inRefRange
  rcases Bool.or_eq_true_iff.mp h with h | h
  · rcases Bool.or_eq_true_iff.mp h with h | h
    · have := toNat_of_isUpper h
      omega
    · have := toNat_of_isLower h
      omega
  · have := toNat_of_isDigit h
    omega

theorem inRefRange_of_isLowerOrDigit {c : Char} (h : isLowerOrDigit c = true) : inRefRange c := by
  apply inRefRange_of_isAlphanum
  rcases Bool.or_eq_true_iff.mp h with h | h
  · simp [Char.isAlphanum, Char.isAlpha, h]
  · simp [Char.isAlphanum, h]

theorem inRefRange_of_pathComponent {s : Str} (h : isPathComponent s = true) :
    ∀ c ∈ s, inRefRange c := by
  intro c hc
  simp only [isPathComponent, List.all_eq_true, Bool.and_eq_true] at h
  have hbare := List.mem_map_of_mem
    (f := fun c => if c == '.' || c == '_' || c == '-' then '-' else c) hc
  rcases mem_splitOnChar '-' hbare with heq | ⟨piece, hpiece, hmem⟩
  · split_ifs at heq with hsep
    · simp only [Bool.or_eq_true, beq_iff_eq] at hsep
      rcases hsep with (rfl | rfl) | rfl <;> exact ⟨by decide, by decide⟩
    · subst heq
      exact absurd hsep (by decide)
  · have hletter := (h piece hpiece).2 _ hmem
    split_ifs at hletter hmem with hsep
    · exact absurd hletter (by decide)
    · exact inRefRange_of_isLowerOrDigit hletter

theorem inRefRange_of_port {s : Str} (h : isPort s = true) : ∀ c ∈ s, inRefRange c := by
  intro c hc
  simp only [isPort, Bool.and_eq_true, List.all_eq_true] at h
  exact inRefRange_of_isLowerOrDigit (by simp [isLowerOrDigit, h.2 c hc])

theorem inRefRange_of_tag {s : Str} (h : isTag s = true) : ∀ c ∈ s, inRefRange c := by
  have hchar : ∀ c : Char, (c.isAlphanum || c == '.' || c == '_' || c == '-') = true →
      inRefRange c := by
    intro c hc
    simp only [Bool.or_eq_true, beq_iff_eq] at hc
    rcases hc with ((hc | rfl) | rfl) | rfl
    · exact inRefRange_of_isAlphanum hc
    all_goals exact ⟨by decide, by decide⟩
  cases s with
  | nil => simp
  | cons d s =>
    simp only [isTag, Bool.and_eq_true, List.all_eq_true] at h
    intro c hc
    rcases List.mem_cons.mp hc with rfl | hc
    · refine hchar c ?_
      rcases Bool.or_eq_true_iff.mp h.1.1 with h | h <;> simp [h]
    · exact hchar c (h.1.2 c hc)

theorem inRefRange_of_imagePath {pieces : List Str} (h : isImagePath pieces = true) :
    ∀ piece ∈ pieces, ∀ c ∈ piece, inRefRange c := by
  have hcolon : inRefRange ':' := ⟨by decide, by decide⟩
  have hpieces : ∀ {s : Str} {parts : List Str}, splitOnChar ':' s = parts →
      (∀ part ∈ parts, ∀ c ∈ part, inRefRange c) → ∀ c ∈ s, inRefRange c :=
    fun heq hparts => chars_of_pieces hcolon (heq ▸ hparts)
  unfold isImagePath at h
  split at h
  · cases h
  · rename_i only
    refine List.forall_mem_singleton.mpr ?_
    split at h
    · rename_i path heq
      exact hpieces heq (List.forall_mem_singleton.mpr (inRefRange_of_pathComponent h))
    · rename_i path tail heq
      simp only [Bool.and_eq_true, Bool.or_eq_true] at h
      refine hpieces heq (List.forall_mem_cons.mpr ⟨inRefRange_of_pathComponent h.1, ?_⟩)
      exact List.forall_mem_singleton.mpr
        (h.2.elim inRefRange_of_port inRefRange_of_tag)
    · rename_i path port tag heq
      simp only [Bool.and_eq_true] at h
      refine hpieces heq (List.forall_mem_cons.mpr ⟨inRefRange_of_pathComponent h.1.1, ?_⟩)
      refine List.forall_mem_cons.mpr ⟨inRefRange_of_port h.1.2, ?_⟩
      exact List.forall_mem_singleton.mpr (inRefRange_of_tag h.2)
    · cases h
  · rename_i host rest hrest
    simp only [Bool.and_eq_true, List.all_eq_true] at h
    obtain ⟨⟨hhost, hmiddle⟩, hlast⟩ := h
    refine List.forall_mem_cons.mpr ⟨?_, ?_⟩
    · split at hhost
      · rename_i path heq
        exact hpieces heq (List.forall_mem_singleton.mpr (inRefRange_of_pathComponent hhost))
      · rename_i path port heq
        simp only [Bool.and_eq_true] at hhost
        refine hpieces heq (List.forall_mem_cons.mpr
          ⟨inRefRange_of_pathComponent hhost.1, ?_⟩)
        exact List.forall_mem_singleton.mpr (inRefRange_of_port hhost.2)
      · cases hhost
    · intro piece hpiece
      rcases List.eq_nil_or_concat rest with rfl | ⟨middle, last, rfl⟩
      · cases hpiece
      · simp only [List.concat_eq_append, List.dropLast_concat, List.getLastD_concat]
          at hmiddle hlast hpiece
        rcases List.mem_append.mp hpiece with hpiece | hpiece
        · exact inRefRange_of_pathComponent (hmiddle piece hpiece)
        · rw [List.mem_singleton.mp hpiece]
          split at hlast
          · rename_i path heq
            exact hpieces heq
              (List.forall_mem_singleton.mpr (inRefRange_of_pathComponent hlast))
          · rename_i path tag heq
            simp only [Bool.and_eq_true] at hlast
            refine hpieces heq (List.forall_mem_cons.mpr
              ⟨inRefRange_of_pathComponent hlast.1, ?_⟩)
            exact List.forall_mem_singleton.mpr (inRefRange_of_tag hlast.2)
          · cases hlast

theorem digestMark_length : ("@sha256:" : Str).length = 8 := by decide

theorem digestMark_chars : ∀ c ∈ ("@sha256:" : Str), inRefRange c := by
  simp [inRefRange]

theorem inRefRange_of_isImageRef {ref : Str} (h : isImageRef ref = true) :
    ∀ c ∈ ref, inRefRange c := by
  simp only [isImageRef, Bool.and_eq_true, List.all_eq_true] at h
  obtain ⟨⟨⟨hpath, hat⟩, _⟩, hdigest⟩ := h
  intro c hc
  set path := ref.takeWhile (· != '@') with hpathEq
  have hsplit : ref = path ++ ref.drop path.length :=
    (List.prefix_iff_eq_append.mp (List.takeWhile_prefix _)).symm
  rw [hsplit] at hc
  rcases List.mem_append.mp hc with hc | hc
  · exact chars_of_pieces ⟨by decide, by decide⟩ (inRefRange_of_imagePath hpath) c hc
  · obtain ⟨hex, hhex⟩ := List.isPrefixOf_iff_prefix.mp hat
    rw [← hhex] at hc
    rw [← hhex, List.drop_left' digestMark_length] at hdigest
    rcases List.mem_append.mp hc with hc | hc
    · exact digestMark_chars c hc
    · have hletter := hdigest c hc
      rcases Bool.or_eq_true_iff.mp hletter with hdigit | hletter
      · exact inRefRange_of_isLowerOrDigit (by simp [isLowerOrDigit, hdigit])
      · simp only [Bool.and_eq_true, decide_eq_true_eq, Char.le_def, UInt32.le_iff_toNat_le]
          at hletter
        unfold inRefRange
        have h1 : 97 ≤ c.toNat := hletter.1
        have h2 : c.toNat ≤ 102 := hletter.2
        omega

/-- A text the line `IMAGE=` gives back: not empty, without blanks at its ends or line breaks. -/
structure IsPin (s : Str) : Prop where
  ne_nil : s ≠ []
  strip_eq : strip s = s
  noBreak : ∀ c ∈ s, isLineBreak c = false

theorem isPin_of_isImageRef {ref : Str} (h : isImageRef ref = true) : IsPin ref := by
  have hrange := inRefRange_of_isImageRef h
  refine ⟨?_, strip_of_noSpace fun c hc => ?_, fun c hc => ?_⟩
  · rintro rfl
    exact absurd h (by decide)
  · have := hrange c hc
    unfold inRefRange at this
    simp only [isSpace, Bool.or_eq_false_iff, Bool.and_eq_false_iff, decide_eq_false_iff_not,
      beq_eq_false_iff_ne]
    omega
  · have := hrange c hc
    unfold inRefRange at this
    simp only [isLineBreak, Bool.or_eq_false_iff, Bool.and_eq_false_iff, decide_eq_false_iff_not,
      beq_eq_false_iff_ne]
    omega

theorem partitionEq_append {key value : Str} (h : ∀ c ∈ key, c ≠ '=') :
    partitionEq (key ++ '=' :: value) = (key, value) := by
  have hkey : ∀ c ∈ key, (c != '=') = true := fun c hc => by simpa using h c hc
  rw [partitionEq, List.takeWhile_append_of_pos hkey, List.dropWhile_append_of_pos hkey]
  simp

theorem imageKey_chars : (∀ c ∈ ("IMAGE" : Str), c ≠ '=') ∧
    ∀ c ∈ ("IMAGE=" : Str), isLineBreak c = false := by
  simp [isLineBreak]

theorem currentImage_imageEnvText {image : Str} (h : IsPin image) :
    currentImage (some (.text (imageEnvText image))) = .ok (some image) := by
  have hline : ∀ c ∈ ("IMAGE=" : Str) ++ image, isLineBreak c = false := by
    intro c hc
    exact (List.mem_append.mp hc).elim (imageKey_chars.2 c) (h.noBreak c)
  have hparts : partitionEq (("IMAGE=" : Str) ++ image) = (("IMAGE" : Str), image) :=
    partitionEq_append imageKey_chars.1
  have hlines : splitlines (universalNewlines (imageEnvText image)) =
      [("IMAGE=" : Str) ++ image] := by
    show splitlines (universalNewlines ((("IMAGE=" : Str) ++ image) ++ '\n' :: [])) = _
    rw [universalNewlines_append hline, splitlines_append_newline hline]
    rfl
  rw [currentImage, hlines, imageOfLines, hparts]
  have hkey : strip ("IMAGE" : Str) = "IMAGE" := strip_of_noSpace (by simp [isSpace])
  simp only [hkey, if_true, h.strip_eq]
  rw [if_neg (by simpa using h.ne_nil)]

theorem exists_of_imageOfLines {lines : List Str} {value : Str}
    (h : imageOfLines lines = some value) :
    value ≠ [] ∧ ∃ line ∈ lines, value = strip (partitionEq line).2 := by
  induction lines with
  | nil => cases h
  | cons line lines ih =>
    rw [imageOfLines] at h
    split_ifs at h with hkey
    · simp only [Option.ite_none_left_eq_some, Option.some.injEq] at h
      obtain ⟨hempty, rfl⟩ := h
      exact ⟨by simpa using hempty, line, by simp, rfl⟩
    · obtain ⟨hne, l, hl, hvalue⟩ := ih h
      exact ⟨hne, l, List.mem_cons_of_mem _ hl, hvalue⟩

theorem isPin_of_currentImage {pin : Option PinContent} {previous : Str}
    (h : currentImage pin = .ok (some previous)) : IsPin previous := by
  unfold currentImage at h
  split at h
  · cases h
  · rename_i raw
    obtain ⟨hne, line, hline, rfl⟩ := exists_of_imageOfLines (Except.ok.inj h)
    refine ⟨hne, strip_strip _, fun c hc => ?_⟩
    have hmem : c ∈ line :=
      List.dropWhile_suffix _ |>.subset (List.mem_of_mem_drop ((strip_sublist _).subset hc))
    exact noBreak_of_mem_splitlines _ line hline c hmem
  · cases h

end SharedInfra.Deploys
