import SharedInfra.AnsibleRuntime.PipReading
import SharedInfra.Python.Lines

/-!
# pip reads what the check read

The two line joiners run in step (`ignoreComments_joinLinesFrom`): whenever no
logical line of the check holds a `#`, pip's lines are the same lines.  Every line
that matches `requirement` holds neither `#` nor `$` and splits at its first hash
(`breakArgsOptions_requirement`).  Together they say what an accepted lock is to
pip (`pip_reads_accepted`).
-/

namespace SharedInfra.AnsibleRuntime

open Python Sequences

theorem stripCommentFrom_of_not_mem {start : Bool} {line : Str} (h : '#' ∉ line) :
    stripCommentFrom start line = line := by
  induction line generalizing start with
  | nil => rfl
  | cons c rest ih =>
    obtain ⟨hc, hrest⟩ := List.ne_and_not_mem_of_not_mem_cons h
    have hcomment : isCommentLine (c :: rest) = false := by
      rw [isCommentLine, beq_eq_false_iff_ne]
      intro hhead
      exact h ((List.dropWhile_suffix _).sublist.subset (List.mem_of_head? hhead))
    rw [stripCommentFrom, hcomment, ih hrest]
    simp [Ne.symm hc]

theorem not_mem_of_not_mem_strip {line : Str} (h : '#' ∉ strip line) : '#' ∉ line := by
  intro hmem
  rcases isSpace_or_mem_strip hmem with hspace | hmem
  · exact absurd hspace (by decide)
  · exact h hmem

theorem stripComment_blank_cons {line : Str} (h : isCommentLine line = true) :
    stripComment (' ' :: line) = [] := by
  have hcomment : isCommentLine (' ' :: line) = true := by
    rw [isCommentLine, lstrip, List.dropWhile_cons_of_pos (by decide)]
    exact h
  rw [stripComment, stripCommentFrom, hcomment]
  rfl

/-- What the check makes of a joined line. -/
def keep (number : Nat) (joined : Str) : List (Nat × Str) :=
  if (strip joined).isEmpty then [] else [(number, strip joined)]

theorem keep_blank {number : Nat} {joined : Str} (h : (strip joined).isEmpty = true) :
    keep number joined = [] := if_pos h

theorem ignoreComments_cons (number : Nat) {joined : Str} (more : List (Nat × Str))
    (h : ∀ line ∈ keep number joined, '#' ∉ line.2) :
    ignoreComments ((number, joined) :: more) = keep number joined ++ ignoreComments more := by
  have hnone : '#' ∉ strip joined := by
    intro hmem
    have hkeep : keep number joined = [(number, strip joined)] :=
      if_neg (by simp [List.ne_nil_of_mem hmem])
    exact h _ (hkeep ▸ List.mem_cons_self) hmem
  have hclean : stripComment joined = joined :=
    stripCommentFrom_of_not_mem (not_mem_of_not_mem_strip hnone)
  rw [ignoreComments, List.filterMap_cons, hclean, keep]
  by_cases hempty : (strip joined).isEmpty = true
  · simp [hempty, ignoreComments]
  · simp [hempty, ignoreComments]

/-- The states of the two joiners between the same two lines. -/
def Agree : Option (Nat × Str) → Nat → List Str → Prop
  | none, _, newLine => newLine = []
  | some (start, pending), primary, newLine =>
    newLine ≠ [] ∧ primary = start ∧ newLine.flatten = pending

theorem not_endsWith_of_blank {raw : Str} (h : (strip raw).isEmpty = true) :
    endsWith raw ['\\'] = false := by
  rw [Bool.eq_false_iff]
  intro hend
  have hmem : '\\' ∈ raw :=
    (List.isSuffixOf_iff_suffix.mp hend).sublist.subset List.mem_cons_self
  rcases isSpace_or_mem_strip hmem with hspace | hmem
  · exact absurd hspace (by decide)
  · exact absurd (List.isEmpty_iff.mp h) (List.ne_nil_of_mem hmem)

section Steps

variable (number : Nat) (raw : Str) (rest : List Str)

theorem logicalLinesFrom_skip (h : (isCommentLine raw || (strip raw).isEmpty) = true) :
    logicalLinesFrom number none (raw :: rest) = logicalLinesFrom (number + 1) none rest := by
  rw [logicalLinesFrom]
  simp [h]

theorem logicalLinesFrom_extend (state : Option (Nat × Str))
    (hend : endsWith raw ['\\'] = true) (hcomment : isCommentLine raw = false) :
    logicalLinesFrom number state (raw :: rest) =
      logicalLinesFrom (number + 1) (some ((state.getD (number, [])).1,
        (state.getD (number, [])).2 ++ stripBackslashes raw)) rest := by
  have hblank : (strip raw).isEmpty = false := by
    rw [Bool.eq_false_iff]
    intro h
    rw [not_endsWith_of_blank h] at hend
    cases hend
  rw [logicalLinesFrom]
  simp [hend, hcomment, hblank]

theorem logicalLinesFrom_close (state : Option (Nat × Str))
    (hstart : state.isNone = true → (isCommentLine raw || (strip raw).isEmpty) = false)
    (hclose : (endsWith raw ['\\'] && !isCommentLine raw) = false) :
    logicalLinesFrom number state (raw :: rest) =
      keep (state.getD (number, [])).1 ((state.getD (number, [])).2 ++
        if isCommentLine raw then ' ' :: raw else raw) ++
      logicalLinesFrom (number + 1) none rest := by
  have hskip : (state.isNone && (isCommentLine raw || (strip raw).isEmpty)) = false := by
    cases state with
    | none => exact hstart rfl
    | some _ => rfl
  have hnot : ¬(endsWith raw ['\\'] && !isCommentLine raw) = true := by
    rw [hclose]
    exact Bool.false_ne_true
  rw [logicalLinesFrom, if_neg (by rw [hskip]; exact Bool.false_ne_true)]
  obtain ⟨start, pending⟩ := state.getD (number, [])
  simp only [if_neg hnot, keep]
  split_ifs
  · rfl
  · rfl
  · rfl
  · rfl

theorem joinLinesFrom_extend (primary : Nat) (newLine : List Str)
    (hend : endsWith raw ['\\'] = true) (hcomment : isCommentLine raw = false) :
    joinLinesFrom number primary newLine (raw :: rest) =
      joinLinesFrom (number + 1) (if newLine.isEmpty then number else primary)
        (newLine ++ [stripBackslashes raw]) rest := by
  rw [joinLinesFrom, if_neg (by simp [hend, hcomment])]

theorem joinLinesFrom_close (primary : Nat) (newLine : List Str)
    (hclose : (endsWith raw ['\\'] && !isCommentLine raw) = false) :
    joinLinesFrom number primary newLine (raw :: rest) =
      (if newLine.isEmpty then number else primary,
        newLine.flatten ++ if isCommentLine raw then ' ' :: raw else raw) ::
      joinLinesFrom (number + 1) primary [] rest := by
  have hjoin : (!endsWith raw ['\\'] || isCommentLine raw) = true := by
    simpa [imp_iff_not_or] using hclose
  rw [joinLinesFrom, if_pos hjoin]
  cases newLine with
  | nil => rfl
  | cons piece pieces => simp

end Steps

theorem Agree.getD {state : Option (Nat × Str)} {primary : Nat} {newLine : List Str}
    (hagree : Agree state primary newLine) (number : Nat) :
    state.getD (number, []) =
      (if newLine.isEmpty then number else primary, newLine.flatten) := by
  cases state with
  | none =>
    subst hagree
    rfl
  | some pair =>
    obtain ⟨hne, hprimary, hflat⟩ := hagree
    simp [hne, hprimary, hflat]

theorem Agree.extend {state : Option (Nat × Str)} {primary : Nat} {newLine : List Str}
    (hagree : Agree state primary newLine) (number : Nat) (piece : Str) :
    Agree (some ((state.getD (number, [])).1, (state.getD (number, [])).2 ++ piece))
      (if newLine.isEmpty then number else primary) (newLine ++ [piece]) := by
  rw [hagree.getD]
  exact ⟨by simp, rfl, by simp⟩

theorem keep_of_skip {raw : Str} (number : Nat) (more : List (Nat × Str))
    (h : (isCommentLine raw || (strip raw).isEmpty) = true) :
    ignoreComments ((number, if isCommentLine raw then ' ' :: raw else raw) :: more) =
      ignoreComments more := by
  by_cases hcomment : isCommentLine raw = true
  · rw [if_pos hcomment, ignoreComments, List.filterMap_cons, stripComment_blank_cons hcomment]
    rfl
  · have hblank : (strip raw).isEmpty = true := by simpa [hcomment] using h
    rw [if_neg hcomment, ignoreComments_cons _ _ (by simp [keep_blank hblank]),
      keep_blank hblank, List.nil_append]

theorem ignoreComments_joinLinesFrom (lines : List Str) (number : Nat)
    (state : Option (Nat × Str)) (primary : Nat) (newLine : List Str)
    (hagree : Agree state primary newLine)
    (h : ∀ line ∈ logicalLinesFrom number state lines, '#' ∉ line.2) :
    ignoreComments (joinLinesFrom number primary newLine lines) =
      logicalLinesFrom number state lines := by
  induction lines generalizing number state primary newLine with
  | nil =>
    cases state with
    | none =>
      subst hagree
      rfl
    | some pair =>
      obtain ⟨hne, hprimary, hflat⟩ := hagree
      have hkeep : logicalLinesFrom number (some pair) [] = keep pair.1 pair.2 := rfl
      rw [hkeep] at h ⊢
      rw [joinLinesFrom, if_neg (by simp [hne]), hprimary, hflat, ignoreComments_cons _ _ h]
      exact List.append_nil _
  | cons raw rest ih =>
    by_cases hextend : endsWith raw ['\\'] = true ∧ isCommentLine raw = false
    · obtain ⟨hend, hcomment⟩ := hextend
      rw [logicalLinesFrom_extend number raw rest state hend hcomment] at h ⊢
      rw [joinLinesFrom_extend number raw rest primary newLine hend hcomment]
      exact ih _ _ _ _ (hagree.extend number _) h
    have hclose : (endsWith raw ['\\'] && !isCommentLine raw) = false := by
      rw [Bool.eq_false_iff]
      intro hboth
      exact hextend (by simpa using hboth)
    rw [joinLinesFrom_close number raw rest primary newLine hclose]
    by_cases hskip : state.isNone = true ∧ (isCommentLine raw || (strip raw).isEmpty) = true
    · -- Neither joiner is inside a line, so the check skips and pip drops what it yields.
      obtain ⟨hnone, hskip⟩ := hskip
      obtain rfl := Option.isNone_iff_eq_none.mp hnone
      subst hagree
      rw [logicalLinesFrom_skip number raw rest hskip] at h ⊢
      rw [List.flatten_nil, List.nil_append, keep_of_skip _ _ hskip]
      exact ih (number + 1) none primary [] rfl h
    · have hstart : state.isNone = true →
          (isCommentLine raw || (strip raw).isEmpty) = false := by
        intro hnone
        rw [Bool.eq_false_iff]
        exact fun hblank => hskip ⟨hnone, hblank⟩
      rw [logicalLinesFrom_close number raw rest state hstart hclose] at h ⊢
      rw [hagree.getD] at h ⊢
      rw [ignoreComments_cons _ _ fun line hline => h line (List.mem_append_left _ hline),
        ih (number + 1) none primary [] rfl fun line hline =>
          h line (List.mem_append_right _ hline)]

section Requirements

open Pattern

/-- What stands before the options of a line: `name==version` with an optional marker. -/
def pinned : Pattern Char := seq namePattern (seq versionPattern (seq markerPattern spaces))

theorem requirement_letters {line : Str} (h : line ∈ requirement.lang) :
    '#' ∉ line ∧ '$' ∉ line :=
  ⟨not_mem_of_avoids (by decide) h, not_mem_of_avoids (by decide) h⟩

theorem hashOption_spec {word : Str} (h : word ∈ hashOption.lang) :
    startsWith word ['-'] = true ∧ ' ' ∉ word := by
  refine ⟨?_, not_mem_of_avoids (by decide) h⟩
  obtain ⟨u, hu, v, _, rfl⟩ := mem_seq.mp h
  rw [mem_literal.mp hu]
  rfl

theorem blanks_spec {s : Str} (h : s ∈ (plus (one isBlank)).lang) :
    ∃ n, s = List.replicate (n + 1) ' ' := by
  obtain ⟨hne, hblank⟩ := mem_plus_one.mp h
  obtain ⟨n, hn⟩ := Nat.exists_eq_succ_of_ne_zero (mt List.length_eq_zero_iff.mp hne)
  exact ⟨n, List.eq_replicate_iff.mpr ⟨hn, fun c hc => eq_of_beq (hblank c hc)⟩⟩

/-- The words of a line that are no words of the requirement. -/
def IsOptionWord (word : Str) : Prop := word = [] ∨ word ∈ hashOption.lang

theorem optionWords_hashes {parts : List Str}
    (h : ∀ part ∈ parts, part ∈ (seq (plus (one isBlank)) hashOption).lang) :
    (splitOnChar ' ' parts.flatten).headD [] = [] ∧
      ∀ word ∈ splitOnChar ' ' parts.flatten, IsOptionWord word := by
  induction parts with
  | nil => exact ⟨rfl, List.forall_mem_singleton.mpr (Or.inl rfl)⟩
  | cons part parts ih =>
    obtain ⟨hpart, hparts⟩ := List.forall_mem_cons.mp h
    obtain ⟨hhead, hrest⟩ := ih hparts
    obtain ⟨blanks, hblanks, word, hword, rfl⟩ := mem_seq.mp hpart
    obtain ⟨n, hn⟩ := blanks_spec hblanks
    rw [List.flatten_cons, List.append_assoc, hn, splitOnChar_replicate_append,
      splitOnChar_prepend (hashOption_spec hword).2, hhead, List.append_nil]
    refine ⟨rfl, List.forall_mem_append.mpr ⟨fun w hw => ?_, ?_⟩⟩
    · exact Or.inl (List.eq_of_mem_replicate hw)
    · exact List.forall_mem_cons.mpr
        ⟨Or.inr hword, fun w hw => hrest w (List.mem_of_mem_tail hw)⟩

theorem no_option_of_requirement {name version marker : Str} (hname : name ∈ namePattern.lang)
    (hversion : version ∈ versionPattern.lang) (hmarker : marker ∈ markerPattern.lang) :
    ∀ word ∈ splitOnChar ' ' (name ++ version ++ marker), startsWith word ['-'] = false := by
  have hspace : ' ' ∉ name ++ version := by
    rw [List.mem_append, not_or]
    exact ⟨not_mem_of_avoids (by decide) hname, not_mem_of_avoids (by decide) hversion⟩
  have hdash : '-' ∉ marker := not_mem_of_avoids (by decide) hmarker
  rw [splitOnChar_prepend hspace]
  refine List.forall_mem_cons.mpr ⟨?_, fun word hword => ?_⟩
  · obtain ⟨u, ⟨c, hc, rfl⟩, v, _, rfl⟩ := mem_seq.mp hname
    have hne : c ≠ '-' := by
      rintro rfl
      exact absurd hc (by decide)
    rw [startsWith, List.append_assoc, List.append_assoc, List.singleton_append,
      List.isPrefixOf_cons_cons, beq_eq_false_iff_ne.mpr (Ne.symm hne)]
    rfl
  · rw [Bool.eq_false_iff]
    intro hstart
    have hmem : '-' ∈ word :=
      (List.isPrefixOf_iff_prefix.mp hstart).sublist.subset List.mem_cons_self
    exact hdash (mem_of_mem_piece (List.mem_of_mem_tail hword) hmem)

/-- The words of a requirement line: the requirement's, none of which is an option, then empty
words, then a hash and after it nothing but hashes. -/
theorem requirement_words {line : Str} (h : line ∈ requirement.lang) :
    ∃ args options : List Str, ∃ n : Nat, ∃ first,
      splitOnChar ' ' line = args ++ List.replicate n [] ++ first :: options ∧
        args ≠ [] ∧ joinWith [' '] args ++ List.replicate n ' ' ∈ pinned.lang ∧
        (∀ word ∈ args, startsWith word ['-'] = false) ∧ first ∈ hashOption.lang ∧
        ∀ word ∈ options, IsOptionWord word := by
  obtain ⟨name, hname, _, ⟨version, hversion, _, ⟨marker, hmarker, tail, htail, rfl⟩, rfl⟩,
    rfl⟩ := h
  obtain ⟨u, hu, rest, hrest, rfl⟩ := mem_seq.mp htail
  obtain ⟨blanks, hblanks, first, hfirst, rfl⟩ := mem_seq.mp hu
  obtain ⟨parts, rfl, hparts⟩ := mem_star.mp hrest
  obtain ⟨n, rfl⟩ := blanks_spec hblanks
  obtain ⟨hhead, hoptions⟩ := optionWords_hashes fun part hpart => (hparts part hpart).1
  refine ⟨splitOnChar ' ' (name ++ version ++ marker),
    (splitOnChar ' ' parts.flatten).tail, n, first, ?_, splitOnChar_ne_nil _ _, ?_,
    no_option_of_requirement hname hversion hmarker, hfirst,
    fun word hword => hoptions word (List.mem_of_mem_tail hword)⟩
  · calc splitOnChar ' ' (name ++ (version ++ (marker ++
            (List.replicate (n + 1) ' ' ++ first ++ parts.flatten))))
        = splitOnChar ' ' (name ++ version ++ marker ++
            ' ' :: (List.replicate n ' ' ++ (first ++ parts.flatten))) := by
          simp [List.replicate_succ]
      _ = splitOnChar ' ' (name ++ version ++ marker) ++
            (List.replicate n [] ++ first :: (splitOnChar ' ' parts.flatten).tail) := by
          rw [splitOnChar_append, splitOnChar_replicate_append,
            splitOnChar_prepend (hashOption_spec hfirst).2, hhead, List.append_nil]
      _ = _ := (List.append_assoc _ _ _).symm
  · rw [joinWith_splitOnChar, List.append_assoc, List.append_assoc]
    have hspaces : List.replicate n ' ' ∈ spaces.lang :=
      mem_star_one.mpr fun c hc => beq_iff_eq.mpr (List.eq_of_mem_replicate hc)
    exact ⟨name, hname, _, ⟨version, hversion, _, ⟨marker, hmarker, _, hspaces, rfl⟩, rfl⟩, rfl⟩

theorem isHashed_eq (line : Str) : isHashed line = requirement.fullMatch line := by
  rw [isHashed, Bool.and_eq_left_iff_imp, fullMatch_iff, search_iff]
  rintro ⟨name, -, _, ⟨version, -, _, ⟨marker, -, tail, htail, rfl⟩, rfl⟩, rfl⟩
  obtain ⟨u, hu, rest, -, rfl⟩ := mem_seq.mp htail
  obtain ⟨blanks, -, first, hfirst, rfl⟩ := mem_seq.mp hu
  exact ⟨first, hfirst, name ++ version ++ marker ++ blanks, rest, by simp⟩

theorem breakArgsOptions_requirement {line : Str} (h : line ∈ requirement.lang) :
    (breakArgsOptions line).1 ∈ pinned.lang ∧
      (∃ word ∈ splitOnChar ' ' (breakArgsOptions line).2, word ∈ hashOption.lang) ∧
      ∀ word ∈ splitOnChar ' ' (breakArgsOptions line).2, word = [] ∨ word ∈ hashOption.lang := by
  obtain ⟨args, options, n, first, hwords, hne, hpinned, hargs, hfirst, hoptions⟩ :=
    requirement_words h
  have hbefore : ∀ word ∈ args ++ List.replicate n [], isArg word = true := by
    refine List.forall_mem_append.mpr ⟨fun word hword => ?_, fun word hword => ?_⟩
    · rw [isArg, hargs word hword]
      rfl
    · rw [List.eq_of_mem_replicate hword]
      rfl
  have hstop : ¬isArg first = true := by
    simp [isArg, (hashOption_spec hfirst).1]
  have hsplit : breakArgsOptions line =
      (joinWith [' '] args ++ List.replicate n ' ', joinWith [' '] (first :: options)) := by
    rw [breakArgsOptions, hwords, List.takeWhile_append_of_pos hbefore,
      List.takeWhile_cons_of_neg hstop, List.append_nil, joinWith_append_replicate ' ' hne,
      List.dropWhile_append_of_pos hbefore, List.dropWhile_cons_of_neg hstop]
  have hpieces : ∀ word ∈ first :: options, ' ' ∉ word := by
    intro word hword
    refine not_mem_of_mem_splitOnChar word (s := line) ?_
    rw [hwords]
    exact List.mem_append_right _ hword
  rw [hsplit, splitOnChar_joinWith (by simp) hpieces]
  exact ⟨hpinned, ⟨first, List.mem_cons_self, hfirst⟩,
    List.forall_mem_cons.mpr ⟨Or.inr hfirst, hoptions⟩⟩

end Requirements

theorem findVars_of_not_mem {line : Str} (h : '$' ∉ line) : findVars line = [] := by
  rw [findVars, List.filterMap_eq_nil_iff]
  intro tail htail
  have hnot : '$' ∉ tail := fun hmem => h ((List.mem_tails _ _).mp htail |>.sublist.subset hmem)
  cases tail with
  | nil => rfl
  | cons c rest =>
    have hc : c ≠ '$' := fun heq => hnot (heq ▸ List.mem_cons_self)
    unfold varHere
    split
    · rename_i heq
      exact absurd (List.cons.inj heq).1 hc
    · rfl

theorem expandEnv_of_not_mem {line : Str} (getenv : Str → Option Str) (h : '$' ∉ line) :
    expandEnv getenv line = line := by
  rw [expandEnv, findVars_of_not_mem h]
  rfl

theorem pipMarks_subset : ∀ mark ∈ pipMarks, mark.1 ∈ byteOrderMarks := by
  decide

theorem decodeReqFile_of_checkLockEncoding {lock : Bytes} {text : Str}
    (named : Str → Bytes → Option Str) (fallback : Bytes → Option Str)
    (h : checkLockEncoding lock = .ok ()) (htext : utf8Decode lock = some text) :
    decodeReqFile named fallback lock = some text := by
  rw [checkLockEncoding] at h
  split_ifs at h with hmark hcoding
  have hnone : pipMarks.find? (fun mark => mark.1.isPrefixOf lock) = none := by
    rw [List.find?_eq_none]
    intro mark hmem hpre
    exact hmark (List.any_eq_true.mpr ⟨mark.1, pipMarks_subset mark hmem, hpre⟩)
  have hdeclared : declaredEncoding lock = none := by simpa using hcoding
  rw [decodeReqFile, hnone, hdeclared, htext]
  rfl

theorem checkLockIsHashed_ok {lock : Bytes} (h : checkLockIsHashed lock = .ok ()) :
    ∃ text, checkLockEncoding lock = .ok () ∧ utf8Decode lock = some text ∧
      logicalLines text ≠ [] ∧ ∀ line ∈ logicalLines text, line.2 ∈ requirement.lang := by
  rw [checkLockIsHashed] at h
  cases hencoding : checkLockEncoding lock with
  | error refusal =>
    rw [hencoding] at h
    cases h
  | ok _ =>
    cases htext : utf8Decode lock with
    | none =>
      rw [hencoding, htext] at h
      cases h
    | some text =>
      rw [hencoding, htext] at h
      cases hoptions : checkLockOptions text with
      | error refusal =>
        simp only [hoptions] at h
        cases h
      | ok _ =>
        simp only [hoptions, bind, Except.bind] at h
        split_ifs at h with hempty
        split at h
        · cases h
        · rename_i hfind
          refine ⟨text, rfl, rfl, by simpa using hempty, fun line hline => ?_⟩
          have hhashed : isHashed line.2 = true := by
            simpa using List.find?_eq_none.mp hfind line hline
          exact Pattern.fullMatch_iff.mp (Bool.and_eq_true_iff.mp hhashed).1

theorem preprocess_eq_logicalLines {text : Str} (getenv : Str → Option Str)
    (h : ∀ line ∈ logicalLines text, line.2 ∈ requirement.lang) :
    preprocess getenv text = logicalLines text := by
  have hjoin : ignoreComments (joinLines (splitlines text)) = logicalLines text :=
    ignoreComments_joinLinesFrom (splitlines text) 1 none 0 [] rfl fun line hline =>
      (requirement_letters (h line hline)).1
  rw [preprocess, hjoin]
  conv_rhs => rw [← List.map_id (logicalLines text)]
  refine List.map_congr_left fun line hline => ?_
  rw [expandEnv_of_not_mem getenv (requirement_letters (h line hline)).2]
  rfl

/-- An accepted lock is one pip reads as pinned and hashed: the same text under any locale and any
codecs, the same logical lines in any environment, and each of them one requirement with hashes
and nothing else. -/
theorem pip_reads_accepted (lock : Bytes) (named : Str → Bytes → Option Str)
    (fallback : Bytes → Option Str) (getenv : Str → Option Str)
    (h : checkLockIsHashed lock = .ok ()) :
    ∃ text, utf8Decode lock = some text ∧ decodeReqFile named fallback lock = some text ∧
      preprocess getenv text = logicalLines text ∧ logicalLines text ≠ [] ∧
      ∀ line ∈ logicalLines text, findVars line.2 = [] ∧
        pinned.fullMatch (breakArgsOptions line.2).1 = true ∧
        (∃ word ∈ splitOnChar ' ' (breakArgsOptions line.2).2, hashOption.fullMatch word = true) ∧
        ∀ word ∈ splitOnChar ' ' (breakArgsOptions line.2).2,
          word = [] ∨ hashOption.fullMatch word = true := by
  obtain ⟨text, hencoding, htext, hne, hlines⟩ := checkLockIsHashed_ok h
  refine ⟨text, htext, decodeReqFile_of_checkLockEncoding named fallback hencoding htext,
    preprocess_eq_logicalLines getenv hlines, hne, fun line hline => ?_⟩
  have hvars := findVars_of_not_mem (requirement_letters (hlines line hline)).2
  simp only [Pattern.fullMatch_iff]
  exact ⟨hvars, breakArgsOptions_requirement (hlines line hline)⟩

/-- A lock with a comment, one requirement, a continuation and a marker. -/
def smallLock : Bytes :=
  ("# pinned\na==1 ; python_version >= '3' \\\n    --hash=sha256:" : Str).map
      (fun c => UInt8.ofNat c.toNat) ++
    List.replicate 64 48 ++ [10]

theorem smallLock_hashed : checkLockIsHashed smallLock = .ok () := by
  delta smallLock
  simp only [checkLockIsHashed, isHashed_eq, toList_literal]
  decide +kernel

theorem pip_reads_accepted_smallLock :
    ∃ text, utf8Decode smallLock = some text ∧
      decodeReqFile (fun _ => utf8Decode) utf8Decode smallLock = some text ∧
      preprocess (fun _ => none) text = logicalLines text ∧ logicalLines text ≠ [] ∧
      ∀ line ∈ logicalLines text, findVars line.2 = [] ∧
        pinned.fullMatch (breakArgsOptions line.2).1 = true ∧
        (∃ word ∈ splitOnChar ' ' (breakArgsOptions line.2).2, hashOption.fullMatch word = true) ∧
        ∀ word ∈ splitOnChar ' ' (breakArgsOptions line.2).2,
          word = [] ∨ hashOption.fullMatch word = true :=
  pip_reads_accepted smallLock (fun _ => utf8Decode) utf8Decode (fun _ => none) smallLock_hashed

end SharedInfra.AnsibleRuntime
