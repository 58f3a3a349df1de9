import SharedInfra.AnsibleRuntime.PinCheck
import SharedInfra.Effects.Moves

/-!
# The gate and the program on one lock

What the groups of the gate's pattern are (`readPin_cut`), and that a line the gate passes is one
the program passes (`isHashed_of_cut`).  The two judge the lines alike once these are joined; the
program also judges the options on each physical line (`OptionsWhole`).
-/

namespace SharedInfra.AnsibleRuntime

open Python Sequences

section Cutting

open Pattern

/-- A requirement line cut in its parts. -/
def IsCut (line name version marker hashes : Str) : Prop :=
  ∃ extras, line = name ++ extras ++ ['=', '='] ++ version ++ marker ++ hashes ∧
    name ++ extras ∈ namePattern.lang ∧ (∀ c ∈ name, isNameChar c = true) ∧
    (∀ c ∈ extras.head?, c = '[') ∧ version ∈ exactVersion.lang ∧ marker ∈ narrowMarker.lang ∧
    hashes ∈ hashList.lang

variable {line name version marker hashes : Str}

theorem isNameChar_of_isAlphanum {c : Char} (h : c.isAlphanum = true) : isNameChar c = true := by
  simp [isNameChar, h]

theorem exists_cut (h : line ∈ pinLine.lang) :
    ∃ name version marker hashes, IsCut line name version marker hashes := by
  obtain ⟨whole, hwhole, _, ⟨pin, hpin, _, ⟨marker, hmarker, hashes, hhashes, rfl⟩, rfl⟩, rfl⟩ := h
  obtain ⟨signs, hsigns, version, hversion, rfl⟩ := mem_seq.mp hpin
  obtain rfl := mem_literal.mp hsigns
  obtain ⟨first, hfirst, rest, hrest, hcut⟩ := mem_seq.mp hwhole
  obtain ⟨more, hmore, extras, hextras, rfl⟩ := mem_seq.mp hrest
  refine ⟨first ++ more, version, marker, hashes, extras, ?_, ?_, ?_, ?_, hversion, hmarker,
    hhashes⟩
  · rw [← hcut]
    simp
  · rwa [List.append_assoc, hcut]
  · obtain ⟨c, hc, rfl⟩ := hfirst
    exact List.forall_mem_cons.mpr ⟨isNameChar_of_isAlphanum hc, mem_star_one.mp hmore⟩
  · rcases mem_opt.mp hextras with rfl | hextras
    · intro c hc
      cases hc
    · obtain ⟨mark, hmark, inner, _, rfl⟩ := mem_seq.mp hextras
      obtain rfl := mem_literal.mp hmark
      intro c hc
      exact (Option.some.inj hc).symm

theorem tail_starts (hmarker : marker ∈ narrowMarker.lang) (hhashes : hashes ∈ hashList.lang) :
    ∀ c ∈ (marker ++ hashes).head?, beforeTail c = false := by
  rcases mem_opt.mp hmarker with rfl | hmarker
  · obtain ⟨parts, rfl, hparts⟩ := mem_star.mp hhashes
    cases parts with
    | nil =>
      intro c hc
      cases hc
    | cons part parts =>
      obtain ⟨blanks, hblanks, word, _, rfl⟩ := mem_seq.mp (hparts part (.head _)).1
      obtain ⟨n, rfl⟩ := blanks_spec hblanks
      intro c hc
      obtain rfl := (Option.some.inj hc).symm
      rfl
  · obtain ⟨blank, hblank, _, ⟨mark, hmark, rest, _, rfl⟩, rfl⟩ := hmarker
    obtain rfl := mem_literal.mp hmark
    rcases mem_opt.mp hblank with rfl | ⟨b, hb, rfl⟩
    · intro c hc
      obtain rfl := (Option.some.inj hc).symm
      rfl
    · intro c hc
      obtain rfl := (Option.some.inj hc).symm
      rw [eq_of_beq hb]
      rfl

theorem marker_has_semicolon (hmarker : marker ∈ narrowMarker.lang) (hne : marker ≠ []) :
    ';' ∈ marker := by
  rcases mem_opt.mp hmarker with rfl | hmarker
  · exact absurd rfl hne
  · obtain ⟨blank, _, _, ⟨mark, hmark, rest, _, rfl⟩, rfl⟩ := hmarker
    obtain rfl := mem_literal.mp hmark
    simp

theorem hashes_has_hash (hhashes : hashes ∈ hashList.lang) (hne : hashes ≠ []) :
    ∃ word ∈ hashOption.lang, word <:+: hashes := by
  obtain ⟨parts, rfl, hparts⟩ := mem_star.mp hhashes
  cases parts with
  | nil => exact absurd rfl hne
  | cons part parts =>
    obtain ⟨blanks, _, word, hword, rfl⟩ := mem_seq.mp (hparts part (.head _)).1
    exact ⟨word, hword, blanks, parts.flatten, by simp⟩

theorem takeWhile_cut {p : Char → Bool} {s t : Str} (hs : ∀ c ∈ s, p c = true)
    (ht : ∀ c ∈ t.head?, p c = false) : (s ++ t).takeWhile p = s ∧ (s ++ t).dropWhile p = t := by
  rw [List.takeWhile_append_of_pos hs, List.dropWhile_append_of_pos hs]
  cases t with
  | nil => simp
  | cons c t => simp [ht c rfl]

theorem readPin_cut (h : IsCut line name version marker hashes) (hline : line ∈ pinLine.lang) :
    readPin line = some ⟨name, version, decide (marker ≠ []), decide (hashes ≠ [])⟩ := by
  obtain ⟨extras, rfl, hwhole, hname, hextras, hversion, hmarker, hhashes⟩ := h
  have hassoc : name ++ extras ++ ['=', '='] ++ version ++ marker ++ hashes =
      name ++ (extras ++ (['=', '='] ++ (version ++ (marker ++ hashes)))) := by simp
  have htakeName : (name ++ extras ++ ['=', '='] ++ version ++ marker ++ hashes).takeWhile
      isNameChar = name := by
    rw [hassoc]
    refine (takeWhile_cut hname ?_).1
    cases extras with
    | nil =>
      intro c hc
      obtain rfl := (Option.some.inj hc).symm
      decide
    | cons d extras =>
      intro c hc
      obtain rfl := (Option.some.inj hc).symm
      rw [hextras c rfl]
      decide
  have hdropWhole : (name ++ extras ++ ['=', '='] ++ version ++ marker ++ hashes).dropWhile
      (· != '=') = ['=', '='] ++ (version ++ (marker ++ hashes)) := by
    rw [hassoc, ← List.append_assoc]
    refine (takeWhile_cut (fun c hc => ?_) fun c hc => ?_).2
    · have hnone : '=' ∉ name ++ extras := not_mem_of_avoids (by decide) hwhole
      exact bne_iff_ne.mpr fun heq => hnone (heq ▸ hc)
    · obtain rfl := (Option.some.inj hc).symm
      rfl
  have hbefore : ∀ c ∈ version, beforeTail c = true := by
    intro c hc
    have hblank : ' ' ∉ version := not_mem_of_avoids (by decide) hversion
    have hsemicolon : ';' ∉ version := not_mem_of_avoids (by decide) hversion
    rw [beforeTail, Bool.and_eq_true, bne_iff_ne, bne_iff_ne]
    exact ⟨fun heq => hblank (heq ▸ hc), fun heq => hsemicolon (heq ▸ hc)⟩
  obtain ⟨htakeVersion, hdropVersion⟩ := takeWhile_cut hbefore (tail_starts hmarker hhashes)
  have hmarked : (marker ++ hashes).contains ';' = decide (marker ≠ []) := by
    rw [Bool.eq_iff_iff, List.contains_iff_mem, decide_eq_true_iff, List.mem_append]
    constructor
    · rintro (hmem | hmem)
      · exact List.ne_nil_of_mem hmem
      · exact absurd hmem (not_mem_of_avoids (by decide) hhashes)
    · exact fun hne => Or.inl (marker_has_semicolon hmarker hne)
  have hhashed : hashOption.search (marker ++ hashes) = decide (hashes ≠ []) := by
    rw [Bool.eq_iff_iff, search_iff, decide_eq_true_iff]
    constructor
    · rintro ⟨word, hword, hinside⟩ rfl
      have hdash : '-' ∈ word := by
        obtain ⟨u, hu, v, _, rfl⟩ := mem_seq.mp hword
        rw [mem_literal.mp hu]
        exact List.mem_append_left _ (by decide)
      rw [List.append_nil] at hinside
      exact not_mem_of_avoids (by decide) hmarker (hinside.subset hdash)
    · intro hne
      obtain ⟨word, hword, hinside⟩ := hashes_has_hash hhashes hne
      exact ⟨word, hword, hinside.trans (List.suffix_append _ _).isInfix⟩
  rw [readPin, if_pos (fullMatch_iff.mpr hline)]
  simp only [htakeName, hdropWhole, List.cons_append, List.nil_append, List.drop_succ_cons,
    List.drop_zero, htakeVersion, hdropVersion, hmarked, hhashed]

theorem isCut_of_readPin {pin : Pin} (h : readPin line = some pin) :
    ∃ marker hashes, IsCut line pin.name pin.version marker hashes ∧
      (pin.marked = true ↔ marker ≠ []) ∧ (pin.hashed = true ↔ hashes ≠ []) := by
  have hline : line ∈ pinLine.lang := by
    rw [readPin] at h
    split_ifs at h with hmatch
    exact fullMatch_iff.mp hmatch
  obtain ⟨name, version, marker, hashes, hcut⟩ := exists_cut hline
  rw [readPin_cut hcut hline] at h
  cases h
  exact ⟨marker, hashes, hcut, decide_eq_true_iff, decide_eq_true_iff⟩

end Cutting

section Widening

open Pattern

variable {line name version marker hashes : Str}

theorem versionPattern_of_exact (h : version ∈ exactVersion.lang) :
    ['=', '='] ++ version ∈ versionPattern.lang := by
  refine mem_seq.mpr ⟨_, mem_literal.mpr rfl, version, mem_plus_one.mpr ⟨?_, ?_⟩, rfl⟩
  · obtain ⟨u, hu, v, _, rfl⟩ := mem_seq.mp h
    exact List.append_ne_nil_of_left_ne_nil (mem_plus_one.mp hu).1 _
  · refine letters_of_over ?_ h
    have hdigit : ∀ c : Char, c.isDigit = true → isVersionChar c = true := by
      intro c hc
      simp [isVersionChar, Char.isAlphanum, hc]
    have hdigits : digits.Over (isVersionChar · = true) := ⟨hdigit, hdigit⟩
    have hliteral : ∀ w : Str, w.all isVersionChar = true →
        (literal w).Over (isVersionChar · = true) :=
      fun w hw => over_literal (List.all_eq_true.mp hw)
    exact ⟨hdigits, ⟨hliteral ['.'] rfl, hdigits⟩,
      ⟨trivial, ⟨hliteral ['a'] rfl, hliteral ['b'] rfl, hliteral ['r', 'c'] rfl⟩, hdigits⟩,
      trivial, hliteral ".post".toList rfl, hdigits⟩

theorem markerPattern_of_narrow (h : marker ∈ narrowMarker.lang) :
    marker ∈ markerPattern.lang := by
  have hblank : ∀ s ∈ (opt (one isBlank)).lang, s ∈ spaces.lang := by
    intro s hs
    rcases mem_opt.mp hs with rfl | ⟨c, hc, rfl⟩
    · exact mem_star_one.mpr (by simp)
    · exact mem_star_one.mpr (List.forall_mem_singleton.mpr hc)
  rcases mem_opt.mp h with rfl | ⟨u, hu, _, ⟨mark, hmark, _, ⟨v, hv, rest, hrest, rfl⟩, rfl⟩, rfl⟩
  · exact mem_opt.mpr (Or.inl rfl)
  · exact mem_opt.mpr (Or.inr ⟨u, hblank u hu, _, ⟨mark, hmark, _, ⟨v, hblank v hv, rest, hrest,
      rfl⟩, rfl⟩, rfl⟩)

theorem isHashed_of_cut (h : IsCut line name version marker hashes) (hne : hashes ≠ []) :
    isHashed line = true := by
  obtain ⟨extras, rfl, hwhole, _, _, hversion, hmarker, hhashes⟩ := h
  obtain ⟨word, hword, hinside⟩ := hashes_has_hash hhashes hne
  have hplus : hashes ∈ (plus (seq (plus (one isBlank)) hashOption)).lang := by
    obtain ⟨parts, rfl, hparts⟩ := mem_star.mp hhashes
    cases parts with
    | nil => exact absurd rfl hne
    | cons part parts =>
      exact mem_seq.mpr ⟨part, (hparts part (.head _)).1, parts.flatten,
        mem_star.mpr ⟨parts, rfl, fun u hu => hparts u (.tail _ hu)⟩, rfl⟩
  rw [isHashed, Bool.and_eq_true, fullMatch_iff, search_iff]
  refine ⟨⟨name ++ extras, hwhole, _, ⟨_, versionPattern_of_exact hversion, _,
    ⟨marker, markerPattern_of_narrow hmarker, hashes, hplus, rfl⟩, rfl⟩, ?_⟩, word, hword,
    hinside.trans (List.suffix_append _ _).isInfix⟩
  simp

end Widening

def IsEntry (line : Str) (entry : Str × Str) : Prop :=
  ∃ name marker hashes, IsCut line name entry.2 marker hashes ∧ hashes ≠ [] ∧
    entry.1 = normalise name ∧ (entry.1 ∈ requiredTools → marker = [])

structure ReadsLock (lock : Bytes) (pins : Pins) : Prop where
  entries : ∃ text, utf8Decode lock = some text ∧
    List.Forall₂ (fun line entry => IsEntry line.2 entry) (logicalLines text) pins
  once : (pins.map Prod.fst).Nodup
  tools : ∀ tool ∈ requiredTools, tool ∈ pins.map Prod.fst

def OptionsWhole (text : Str) : Prop :=
  ∀ raw ∈ splitlines text, isCommentLine raw = false → ∀ word ∈ splitWords raw,
    startsWith word ['-'] = true → word ∈ hashOption.lang

theorem checkLockOptions_iff {text : Str} :
    checkLockOptions text = .ok () ↔ OptionsWhole text := by
  have hline : ∀ raw, badOption raw = none ↔ (isCommentLine raw = false → ∀ word ∈ splitWords raw,
      startsWith word ['-'] = true → word ∈ hashOption.lang) := by
    intro raw
    rw [badOption]
    cases isCommentLine raw with
    | true => simp
    | false => simp [Pattern.fullMatch_iff]
  rw [checkLockOptions]
  cases hfind : (splitlines text).findSome? badOption with
  | some token =>
    obtain ⟨raw, hraw, hbad⟩ := List.exists_of_findSome?_eq_some hfind
    refine iff_of_false nofun fun hwhole => ?_
    rw [(hline raw).mpr (hwhole raw hraw)] at hbad
    cases hbad
  | none =>
    exact iff_of_true rfl fun raw hraw =>
      (hline raw).mp (List.findSome?_eq_none_iff.mp hfind raw hraw)

theorem setPin_of_not_mem {pins : Pins} {name version : Str} (h : name ∉ pins.map Prod.fst) :
    setPin pins name version = pins ++ [(name, version)] := by
  induction pins with
  | nil => rfl
  | cons pin pins ih =>
    obtain ⟨other, v⟩ := pin
    rw [List.map_cons, List.mem_cons, not_or] at h
    rw [setPin, if_neg (Ne.symm h.1), ih h.2, List.cons_append]

theorem entry_of_pinProblems {pins : Pins} {number : Nat} {line : Str} {pin : Pin}
    (hread : readPin line = some pin)
    (h : pinProblems pins number (normalise pin.name) pin = []) :
    normalise pin.name ∉ pins.map Prod.fst ∧ IsEntry line (normalise pin.name, pin.version) := by
  obtain ⟨marker, hashes, hcut, hmarked, hhashed⟩ := isCut_of_readPin hread
  simp only [pinProblems, List.append_eq_nil_iff] at h
  obtain ⟨⟨hhash, hmarker⟩, htwice⟩ := h
  refine ⟨fun hmem => by simp [hmem] at htwice, pin.name, marker, hashes, hcut, ?_, rfl, ?_⟩
  · refine hhashed.mp ?_
    by_contra hno
    simp [hno] at hhash
  · intro htool
    by_contra hne
    simp [htool, hmarked.mpr hne] at hmarker

theorem lockedFrom_ok {pins found : Pins} {lines : List (Nat × Str)}
    (h : lockedFrom pins lines = (found, [])) (hpins : (pins.map Prod.fst).Nodup) :
    (∃ entries, found = pins ++ entries ∧
      List.Forall₂ (fun line entry => IsEntry line.2 entry) lines entries) ∧
      (found.map Prod.fst).Nodup ∧ ∀ tool ∈ requiredTools, tool ∈ found.map Prod.fst := by
  induction lines generalizing pins with
  | nil =>
    obtain ⟨rfl, hmissing⟩ := Prod.mk.inj h
    refine ⟨⟨[], (List.append_nil _).symm, .nil⟩, hpins, fun tool htool => ?_⟩
    by_contra hno
    rw [List.map_eq_nil_iff, List.filter_eq_nil_iff] at hmissing
    exact hmissing tool htool (decide_eq_true hno)
  | cons line lines ih =>
    obtain ⟨number, line⟩ := line
    rw [lockedFrom] at h
    cases hread : readPin line with
    | none =>
      rw [hread] at h
      cases congrArg Prod.snd h
    | some pin =>
      rw [hread] at h
      obtain ⟨hfound, hproblems⟩ := Prod.mk.inj h
      obtain ⟨hproblems, hrest⟩ := List.append_eq_nil_iff.mp hproblems
      obtain ⟨hfresh, hentry⟩ := entry_of_pinProblems hread hproblems
      rw [setPin_of_not_mem hfresh] at hfound hrest
      have hnodup : ((pins ++ [(normalise pin.name, pin.version)]).map Prod.fst).Nodup := by
        rw [List.map_append]
        exact List.Nodup.append hpins (List.nodup_singleton _) (by simpa using hfresh)
      obtain ⟨⟨entries, rfl, hentries⟩, hrest⟩ := ih (Prod.ext hfound hrest) hnodup
      exact ⟨⟨_ :: entries, List.append_assoc _ _ _, .cons hentry hentries⟩, hrest⟩

theorem lockedPackages_ok {lock : Bytes} {pins : Pins} (h : lockedPackages lock = (pins, [])) :
    ∃ text, checkLockEncoding lock = .ok () ∧ utf8Decode lock = some text ∧
      ReadsLock lock pins := by
  rw [lockedPackages] at h
  cases hencoding : checkLockEncoding lock with
  | error refusal =>
    rw [hencoding] at h
    cases congrArg Prod.snd h
  | ok _ =>
    cases htext : utf8Decode lock with
    | none =>
      rw [hencoding, htext] at h
      cases congrArg Prod.snd h
    | some text =>
      rw [hencoding, htext] at h
      obtain ⟨⟨entries, rfl, hentries⟩, hnodup, htools⟩ := lockedFrom_ok h List.nodup_nil
      exact ⟨text, rfl, rfl, ⟨text, htext, hentries⟩, hnodup, htools⟩

theorem lines_of_readsLock {lock : Bytes} {pins : Pins} {text : Str}
    (htext : utf8Decode lock = some text) (h : ReadsLock lock pins) :
    logicalLines text ≠ [] ∧ ∀ line ∈ logicalLines text, isHashed line.2 = true := by
  obtain ⟨text', htext', hentries⟩ := h.entries
  obtain rfl := Option.some.inj (htext'.symm.trans htext)
  constructor
  · intro hnil
    rw [hnil, List.forall₂_nil_left_iff] at hentries
    have htool := h.tools "mypy".toList (by decide)
    rw [hentries] at htool
    cases htool
  · intro line hline
    obtain ⟨entry, _, name, marker, hashes, hcut, hne, _⟩ :=
      Effects.exists_of_mem_left hentries hline
    exact isHashed_of_cut hcut hne

/-- A lock the gate finds nothing wrong with is one the program accepts exactly where no physical
line holds an option that is no hash; the versions are those of its lines in any case. -/
theorem accepted_iff_of_locked (lock : Bytes) (pins : Pins)
    (h : lockedPackages lock = (pins, [])) :
    (checkLockIsHashed lock = .ok () ∧ ReadsLock lock pins) ↔
      ∀ text, utf8Decode lock = some text → OptionsWhole text := by
  obtain ⟨text, hencoding, htext, hreads⟩ := lockedPackages_ok h
  obtain ⟨hne, hlines⟩ := lines_of_readsLock htext hreads
  have hfind : (logicalLines text).find? (fun line => !isHashed line.2) = none :=
    List.find?_eq_none.mpr fun line hline => by simp [hlines line hline]
  have haccept : checkLockIsHashed lock = .ok () ↔ checkLockOptions text = .ok () := by
    rw [checkLockIsHashed, hencoding, htext]
    cases hoptions : checkLockOptions text with
    | error refusal =>
      exact iff_of_false (by simp [bind, Except.bind, hoptions]) fun h => by cases h
    | ok _ => simp [bind, Except.bind, hoptions, hfind, hne]
  rw [haccept, checkLockOptions_iff, and_iff_left hreads]
  constructor
  · intro hwhole text' htext'
    obtain rfl := Option.some.inj (htext.symm.trans htext')
    exact hwhole
  · exact fun hwhole => hwhole text htext

def toolLines : List Str :=
  requiredTools.map fun tool => tool ++ "==1 --hash=sha256:".toList ++ List.replicate 64 '0'

def lockOf (lines : List Str) : Bytes := (unlines lines).map fun c => UInt8.ofNat c.toNat

theorem tools_accepted :
    (checkLockIsHashed (lockOf toolLines) = .ok () ∧
        ReadsLock (lockOf toolLines) (requiredTools.map fun tool => (tool, ['1']))) ↔
      ∀ text, utf8Decode (lockOf toolLines) = some text → OptionsWhole text :=
  accepted_iff_of_locked _ _ (by decide +kernel)

/-- A hash that a continuation cuts in two. -/
def splitLines : List Str :=
  ["extra==1 --hash=sha256:\\".toList, List.replicate 64 '0']

theorem split_hash_refused :
    (lockedPackages (lockOf (toolLines ++ splitLines))).2 = [] ∧
      checkLockIsHashed (lockOf (toolLines ++ splitLines)) =
        .error ⟨.lockUnhashed, "--hash=sha256:\\".toList⟩ := by
  constructor
  · decide +kernel
  · decide +kernel

end SharedInfra.AnsibleRuntime
