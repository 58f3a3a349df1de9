import SharedInfra.Effects.Moves
import SharedInfra.MailStack.Stamp
import SharedInfra.Python.LastLine

/-!
# The text of a stamp

What `render` writes is parsed back (`parse_render_set`).  A text that is parsed is what `render`
writes exactly where the newline is its only line break (`render_eq_iff`): `splitlines` ends a line
at other characters too.
-/

namespace SharedInfra.MailStack

open Python Sequences Effects

section Lines

variable {name hash raw : Str} {line : Str × Str}

/-- A line that `LINE_PATTERN` matches. -/
def WellFormed (line : Str × Str) : Prop := isInputName line.1 = true ∧ isLineHash line.2 = true

/-- A character that ASCII prints, other than the blank. -/
def Graphic (c : Char) : Prop := 33 ≤ c.toNat ∧ c.toNat < 127

theorem graphic_of_name (h : isInputName name = true) : ∀ c ∈ name, Graphic c := by
  have hletter : ∀ c, isLowerLetter c = true → Graphic c := by
    intro c hc
    simp only [isLowerLetter, Bool.and_eq_true, decide_eq_true_eq] at hc
    rw [Graphic]
    omega
  cases name with
  | nil => cases h
  | cons c rest =>
    rw [isInputName, Bool.and_eq_true, List.all_eq_true] at h
    refine List.forall_mem_cons.mpr ⟨hletter c h.1, fun d hd => ?_⟩
    have hd := h.2 d hd
    rw [Bool.or_eq_true, Bool.or_eq_true] at hd
    obtain (hlower | hdigit) | hunder := hd
    · exact hletter d hlower
    · simp only [isAsciiDigit, Bool.and_eq_true, decide_eq_true_eq] at hdigit
      rw [Graphic]
      omega
    · rw [beq_iff_eq.mp hunder]
      exact ⟨by decide, by decide⟩

theorem graphic_of_hash (h : isLineHash hash = true) : ∀ c ∈ hash, Graphic c := by
  rw [isLineHash, Bool.or_eq_true, Bool.and_eq_true, List.all_eq_true] at h
  obtain ⟨-, hhex⟩ | habsent := h
  · intro c hc
    have hchar := hhex c hc
    simp only [isHexChar, isAsciiDigit, Bool.or_eq_true, Bool.and_eq_true, decide_eq_true_eq]
      at hchar
    rw [Graphic]
    omega
  · have hall : (absentHash.all fun c => decide (33 ≤ c.toNat ∧ c.toNat < 127)) = true := by
      unfold absentHash
      simp only [toList_literal]
      rfl
    rw [beq_iff_eq.mp habsent]
    exact fun c hc => by
      simpa [Graphic] using List.all_eq_true.mp hall c hc

theorem WellFormed.space_not_mem (h : WellFormed line) : ' ' ∉ line.1 := by
  intro hmem
  exact absurd (graphic_of_name h.1 ' ' hmem).1 (by decide)

theorem WellFormed.noBreak (h : WellFormed line) :
    ∀ c ∈ renderLine line, isLineBreak c = false := by
  have hgraphic : ∀ c, Graphic c → isLineBreak c = false := fun c hc =>
    isLineBreak_of_noSpace (isSpace_of_graphic hc.1 hc.2)
  intro c hc
  rcases List.mem_append.mp hc with hname | hrest
  · exact hgraphic c (graphic_of_name h.1 c hname)
  · rcases List.mem_cons.mp hrest with rfl | hhash
    · rfl
    · exact hgraphic c (graphic_of_hash h.2 c hhash)

theorem matchLine_renderLine (h : WellFormed line) : matchLine (renderLine line) = some line := by
  have hparts : partition ' ' (renderLine line) = (line.1, true, line.2) :=
    partition_found h.space_not_mem
  rw [matchLine, hparts]
  dsimp only
  rw [h.1, h.2]
  rfl

theorem partition_eq_found {sep : Char} {w rest s : Str} (h : partition sep s = (w, true, rest)) :
    s = w ++ sep :: rest := by
  rw [partition] at h
  cases hdrop : s.dropWhile (· != sep) with
  | nil =>
    rw [hdrop] at h
    cases h
  | cons c after =>
    rw [hdrop] at h
    cases h
    have hc : c = sep := by
      have hhead := List.head?_dropWhile_not (· != sep) s
      rw [hdrop] at hhead
      simpa using hhead
    subst hc
    rw [← hdrop, List.takeWhile_append_dropWhile]

theorem matchLine_eq_some (h : matchLine raw = some line) :
    raw = renderLine line ∧ WellFormed line := by
  rcases hparts : partition ' ' raw with ⟨before, found, after⟩
  rw [matchLine, hparts] at h
  dsimp only at h
  split_ifs at h with hall
  cases h
  rw [Bool.and_eq_true, Bool.and_eq_true] at hall
  obtain ⟨⟨rfl, hname⟩, hhash⟩ := hall
  exact ⟨partition_eq_found hparts, hname, hhash⟩

end Lines

section Reading

variable {text : Str} {lines found : Lines} {raws : List Str} {number : Nat}

theorem readLines_eq_ok_iff : readLines number lines raws = .ok found ↔
    ∃ more, found = lines ++ more ∧ raws = more.map renderLine ∧ (∀ line ∈ more, WellFormed line) ∧
      (more.map Prod.fst).Nodup ∧ ∀ line ∈ more, line.1 ∉ lines.map Prod.fst := by
  induction raws generalizing number lines with
  | nil =>
    rw [readLines]
    constructor
    · intro h
      cases h
      exact ⟨[], (List.append_nil _).symm, rfl, by simp, List.nodup_nil, by simp⟩
    · rintro ⟨more, rfl, hraws, -⟩
      rw [List.map_eq_nil_iff.mp hraws.symm, List.append_nil]
  | cons raw raws ih =>
    rw [readLines]
    constructor
    · intro h
      cases hline : matchLine raw with
      | none =>
        rw [hline] at h
        cases h
      | some line =>
        rw [hline] at h
        dsimp only at h
        split_ifs at h with hold
        obtain ⟨more, rfl, rfl, hwell, hnodup, hnew⟩ := ih.mp h
        obtain ⟨rfl, hwellLine⟩ := matchLine_eq_some hline
        refine ⟨line :: more, by rw [List.append_assoc]; rfl, rfl,
          List.forall_mem_cons.mpr ⟨hwellLine, hwell⟩, ?_, List.forall_mem_cons.mpr ⟨hold, ?_⟩⟩
        · rw [List.map_cons, List.nodup_cons]
          refine ⟨fun hmem => ?_, hnodup⟩
          obtain ⟨other, hother, hname⟩ := List.mem_map.mp hmem
          exact hnew other hother (by simp [hname])
        · intro other hother hmem
          exact hnew other hother (by simp [hmem])
    · rintro ⟨more, rfl, hraws, hwell, hnodup, hnew⟩
      cases more with
      | nil => cases hraws
      | cons line more =>
        obtain ⟨rfl, rfl⟩ := List.cons.inj hraws
        obtain ⟨hline, hwell⟩ := List.forall_mem_cons.mp hwell
        obtain ⟨hold, hnew⟩ := List.forall_mem_cons.mp hnew
        rw [List.map_cons, List.nodup_cons] at hnodup
        rw [matchLine_renderLine hline]
        dsimp only
        rw [if_neg hold]
        refine ih.mpr ⟨more, by rw [List.append_assoc]; rfl, rfl, hwell, hnodup.2, ?_⟩
        intro other hother hmem
        rw [List.map_append, List.mem_append] at hmem
        rcases hmem with hmem | hmem
        · exact hnew other hother hmem
        · exact hnodup.1 (List.mem_map.mpr ⟨other, hother, by simpa using hmem⟩)

theorem sorted_eq_self {names : List Str} (h : names.Pairwise (· ≤ ·)) : sorted names = names :=
  List.mergeSort_of_pairwise (h.imp fun hle => decide_eq_true hle)

theorem ascending_of_sorted (hnodup : (lines.map Prod.fst).Nodup)
    (h : lines.map Prod.fst = sorted (lines.map Prod.fst)) : Ascending lines := by
  have hsorted : (lines.map Prod.fst).Pairwise (· ≤ ·) := by
    rw [h]
    exact List.pairwise_mergeSort' _ _
  exact List.pairwise_map.mp (hsorted.imp₂ (fun _ _ hle hne => lt_of_le_of_ne hle hne) hnodup)

/-- The lines that a stamp can hold: one for each of some inputs, in order. -/
structure StampLines (lines : Lines) : Prop where
  ne_nil : lines ≠ []
  ascending : Ascending lines
  wellFormed : ∀ line ∈ lines, WellFormed line

theorem renderLine_ne_pending {line : Str × Str} : renderLine line ≠ "pending".toList := by
  intro h
  have hspace : ' ' ∈ renderLine line := List.mem_append_right _ List.mem_cons_self
  rw [h] at hspace
  exact absurd hspace (by decide)

theorem parse_eq_recorded_iff : parse text = .ok ⟨.recorded, lines⟩ ↔
    text.getLast? = some '\n' ∧ splitlines text = lines.map renderLine ∧ StampLines lines := by
  rw [parse]
  constructor
  · intro h
    split_ifs at h with hpending hends
    · cases h
    · obtain ⟨found, hfound, h⟩ := bind_eq_ok_iff.mp h
      split_ifs at h with hnil hsorted
      cases h
      obtain ⟨more, rfl, hraws, hwell, hnodup, -⟩ := readLines_eq_ok_iff.mp hfound
      exact ⟨not_not.mp hends, hraws, hnil, ascending_of_sorted hnodup (not_not.mp hsorted), hwell⟩
  · rintro ⟨hends, hraws, hlines⟩
    have hpending : text ≠ pendingText := by
      rintro rfl
      have hone : splitlines pendingText = ["pending".toList] := by decide
      rw [hone] at hraws
      obtain ⟨line, -, hline⟩ := List.mem_map.mp (hraws ▸ List.mem_singleton_self _)
      exact renderLine_ne_pending hline
    have hread : readLines 1 [] (splitlines text) = .ok lines :=
      readLines_eq_ok_iff.mpr ⟨lines, rfl, hraws, hlines.wellFormed, hlines.ascending.nodup,
        fun _ _ => List.not_mem_nil⟩
    have hsorted : lines.map Prod.fst = sorted (lines.map Prod.fst) :=
      (sorted_eq_self (List.pairwise_map.mpr (hlines.ascending.imp fun hlt => hlt.le))).symm
    rw [if_neg hpending, if_neg (not_not.mpr hends), hread]
    change (if lines = [] then _ else _) = _
    rw [if_neg hlines.ne_nil, if_neg (not_not.mpr hsorted)]
    rfl

theorem getLast?_unlines (hne : raws ≠ []) : (unlines raws).getLast? = some '\n' := by
  induction raws with
  | nil => exact absurd rfl hne
  | cons raw raws ih =>
    rw [unlines]
    cases raws with
    | nil => exact List.getLast?_concat
    | cons next raws =>
      rw [List.getLast?_append, List.getLast?_cons, ih (List.cons_ne_nil _ _)]
      rfl

theorem unlines_newlineLines (h : text.getLast? = some '\n') :
    unlines (newlineLines text) = text := by
  induction text with
  | nil => cases h
  | cons c rest ih =>
    rw [newlineLines]
    cases rest with
    | nil =>
      rw [List.getLast?_singleton, Option.some.injEq] at h
      subst h
      rfl
    | cons d rest =>
      rw [List.getLast?_cons_cons] at h
      have hrest := ih h
      split_ifs with hc
      · subst hc
        rw [unlines, hrest]
        rfl
      · cases hlines : newlineLines (d :: rest) with
        | nil =>
          rw [hlines] at hrest
          cases hrest
        | cons line more =>
          rw [hlines, unlines] at hrest
          rw [consLine, unlines, ← hrest]
          rfl

theorem render_of_stampLines (h : StampLines lines) :
    render lines = unlines (lines.map renderLine) := by
  rw [render, sortByKey_of_ascending h.ascending]

theorem splitlines_render (h : StampLines lines) :
    splitlines (render lines) = lines.map renderLine := by
  rw [render_of_stampLines h]
  refine splitlines_unlines fun raw hraw => ?_
  obtain ⟨line, hline, rfl⟩ := List.mem_map.mp hraw
  exact (h.wellFormed line hline).noBreak

theorem parse_render (h : StampLines lines) : parse (render lines) = .ok ⟨.recorded, lines⟩ := by
  refine parse_eq_recorded_iff.mpr ⟨?_, splitlines_render h, h⟩
  rw [render_of_stampLines h]
  exact getLast?_unlines fun hnil => h.ne_nil (List.map_eq_nil_iff.mp hnil)

/-- A set of lines, as a dict has it: in any order, one line for each of some inputs. -/
structure LineSet where
  lines : Lines
  ne_nil : lines ≠ []
  names_nodup : (lines.map Prod.fst).Nodup
  wellFormed : ∀ line ∈ lines, WellFormed line

theorem parse_render_set (set : LineSet) :
    parse (render set.lines) = .ok ⟨.recorded, sortByKey set.lines⟩ := by
  have hascending := ascending_sortByKey set.names_nodup
  have hlines : StampLines (sortByKey set.lines) := by
    refine ⟨fun hnil => ?_, hascending, fun line hline =>
      set.wellFormed line (mem_sortByKey.mp hline)⟩
    exact set.ne_nil (List.nil_perm.mp (hnil ▸ sortByKey_perm set.lines))
  have hrender : render set.lines = render (sortByKey set.lines) := by
    rw [render, render, sortByKey_of_ascending hascending]
  rw [hrender, parse_render hlines]

def OnlyNewlines (text : Str) : Prop := ∀ c ∈ text, isLineBreak c = true → c = '\n'

theorem onlyNewlines_unlines (h : ∀ raw ∈ raws, ∀ c ∈ raw, isLineBreak c = false) :
    OnlyNewlines (unlines raws) := by
  induction raws with
  | nil => exact fun _ hc => absurd hc List.not_mem_nil
  | cons raw raws ih =>
    obtain ⟨hraw, hraws⟩ := List.forall_mem_cons.mp h
    intro c hc hbreak
    rcases List.mem_append.mp hc with hc | hc
    · exact absurd hbreak (by rw [hraw c hc]; decide)
    · rcases List.mem_cons.mp hc with rfl | hc
      · rfl
      · exact ih hraws c hc hbreak

theorem render_eq_iff (h : parse text = .ok ⟨.recorded, lines⟩) :
    render lines = text ↔ OnlyNewlines text := by
  obtain ⟨hends, hraws, hlines⟩ := parse_eq_recorded_iff.mp h
  rw [render_of_stampLines hlines]
  constructor
  · intro hrender
    rw [← hrender]
    refine onlyNewlines_unlines fun raw hraw => ?_
    obtain ⟨line, hline, rfl⟩ := List.mem_map.mp hraw
    exact (hlines.wellFormed line hline).noBreak
  · intro honly
    have hnewlines : splitlines text = newlineLines text := splitlines_eq_newlineLines
      fun c hc hne => Bool.eq_false_iff.mpr fun hbreak => hne (honly c hc hbreak)
    rw [← hraws, hnewlines, unlines_newlineLines hends]

end Reading

end SharedInfra.MailStack
