import SharedInfra.Formats.YamlSettings

/-!
# Texts with scalars put in

A text in which every single-quoted scalar may be replaced by another text
(`Template`).  What is read then has the scalars put in and is otherwise what the
template says, exactly when all of them stand for themselves (`read_fill_iff`).
-/

namespace SharedInfra.Yaml

/-- A text of pieces, each followed by a scalar between quotes, and of what follows. -/
def pieceText : List (List Char × List Char) → List Char → List Char
  | [], last => last
  | (text, s) :: rest, last => text ++ '\'' :: (s ++ '\'' :: pieceText rest last)

def outside : State → List Char → Option (State × List Token)
  | state, [] => some (state, [])
  | state, c :: rest =>
    (step state c).bind fun next =>
      (outside next.1 rest).map fun last => (last.1, next.2 ++ last.2)

/-- The tokens of a text of pieces, each of which ends where a node may start. -/
def pieceTokens : State → List (List Char × List Char) → List Char → Option (List Token)
  | state, [], last => (scan state last).bind fun tokens =>
    if scalars tokens = [] then some tokens else none
  | state, (text, s) :: rest, last =>
    (outside state text).bind fun found =>
      if found.1 = .start ∧ scalars found.2 = [] then
        (pieceTokens (.after false) rest last).map (found.2 ++ .quoted s :: ·)
      else none

/-- A text that is not empty and does not start with a quote. -/
def opensPlain (text : List Char) : Bool := text.head?.any (· ≠ '\'')

/-- No piece behind a scalar lengthens it. -/
def framed : List (List Char × List Char) → List Char → Bool
  | [], _ => true
  | _ :: rest, last => ((rest.map Prod.fst).all opensPlain) && opensPlain last

/-- A text with scalars that may be replaced. -/
structure Template where
  pieces : List (List Char × List Char)
  last : List Char
  tokens : List Token
  settings : List Setting
  framed : framed pieces last = true
  printable : (pieces.all fun piece => piece.1.all isPrintable) = true ∧ last.all isPrintable = true
  scanned : pieceTokens .start pieces last = some tokens
  read : readSettings tokens = some settings

/-- The text, with a scalar put in for each of the template. -/
def Template.text (template : Template) (g : List Char → List Char) : List Char :=
  pieceText (template.pieces.map fun piece => (piece.1, g piece.2)) template.last

/-- The texts between quotes, each with the one before it, and the last one. -/
def pairUp : List (List Char) → List (List Char × List Char) × List Char
  | text :: s :: rest => ((text, s) :: (pairUp rest).1, (pairUp rest).2)
  | [last] => ([], last)
  | [] => ([], [])

/-- The pieces and scalars of a text whose only quotes are those around scalars. -/
def splitQuotes (text : List Char) : List (List Char × List Char) × List Char :=
  pairUp (text.splitOn '\'')

def isTemplate (text : List Char) : Bool :=
  let found := splitQuotes text
  pieceText found.1 found.2 == text && Yaml.framed found.1 found.2 &&
    ((found.1.all fun piece => piece.1.all isPrintable) && found.2.all isPrintable) &&
    ((pieceTokens .start found.1 found.2).bind readSettings).isSome

section Facts

variable {state next : State} {tokens : List Token} {text last out white s x y : List Char}
  {pieces : List (List Char × List Char)} {g : List Char → List Char}

theorem scan_append (h : outside state x = some (next, tokens)) :
    scan state (x ++ y) = (scan next y).map (tokens ++ ·) := by
  induction x generalizing state tokens with
  | nil =>
    obtain ⟨rfl, rfl⟩ := Prod.mk.inj (Option.some.inj h)
    simp
  | cons c x ih =>
    obtain ⟨⟨middle, first⟩, hstep, h⟩ := Option.bind_eq_some_iff.mp h
    obtain ⟨⟨end', more⟩, hmore, heq⟩ := Option.map_eq_some_iff.mp h
    obtain ⟨rfl, rfl⟩ := Prod.mk.inj heq
    rw [List.cons_append, scan_cons, hstep]
    simp only [ih hmore, Option.map_map]
    congr 1
    funext rest
    simp

theorem scan_closing (h : opensPlain x = true) :
    scan (.closing out) x = (scan (.after false) x).map (.quoted out :: ·) := by
  cases x with
  | nil => cases h
  | cons c x =>
    have hquote : c ≠ '\'' := by simpa [opensPlain] using h
    rw [scan_cons, scan_cons, step, if_neg hquote, step]
    cases stepAfter false c with
    | none => rfl
    | some next =>
      simp only [Option.map_some, Option.map_map]
      congr 1

theorem exists_reads (x : List Char) :
    (∀ out white tokens, scan (.quoted out white) x = some tokens →
      ∃ s, Reads (.quoted out white) x s) ∧
    ∀ out tokens, scan (.closing out) x = some tokens → ∃ s, Reads (.closing out) x s := by
  induction x with
  | nil =>
    refine ⟨fun out white tokens h => ?_, fun out tokens _ => ?_⟩
    · cases h
    · exact ⟨out, [], rfl⟩
  | cons c x ih =>
    refine ⟨fun out white tokens h => ?_, fun out tokens h => ?_⟩
    · by_cases hquote : c = '\''
      · subst hquote
        have hstep : step (.quoted out white) '\'' =
            some (.closing (out ++ folded white), []) := rfl
        rw [scan_of_silent hstep] at h
        obtain ⟨s, hs⟩ := ih.2 _ _ h
        exact ⟨s, reads_quote.mpr hs⟩
      · cases hc : isWhite c with
        | true =>
          have hstep : step (.quoted out white) c = some (.quoted out (white ++ [c]), []) := by
            rw [step, if_neg hquote, if_pos hc]
          rw [scan_of_silent hstep] at h
          obtain ⟨s, hs⟩ := ih.1 _ _ _ h
          exact ⟨s, (reads_white hc).mpr hs⟩
        | false =>
          have hstep : step (.quoted out white) c =
              some (.quoted (out ++ folded white ++ [c]) [], []) := by
            rw [step, if_neg hquote, if_neg (by simp [hc])]
          rw [scan_of_silent hstep] at h
          obtain ⟨s, hs⟩ := ih.1 _ _ _ h
          exact ⟨s, (reads_other hquote hc).mpr hs⟩
    · by_cases hquote : c = '\''
      · subst hquote
        have hstep : step (.closing out) '\'' = some (.quoted (out ++ ['\'']) [], []) := rfl
        rw [scan_of_silent hstep] at h
        obtain ⟨s, hs⟩ := ih.1 _ _ _ h
        exact ⟨s, reads_closing_quote.mpr hs⟩
      · rw [scan_closing (by simpa [opensPlain] using hquote)] at h
        obtain ⟨more, hmore, -⟩ := Option.map_eq_some_iff.mp h
        refine ⟨out, more, ?_⟩
        rw [scan_closing (by simpa [opensPlain] using hquote), hmore]
        rfl

theorem opensPlain_pieceText (h : framed ((text, s) :: pieces) last = true) :
    opensPlain (pieceText pieces last) = true := by
  obtain ⟨htexts, hlast⟩ := Bool.and_eq_true_iff.mp h
  cases pieces with
  | nil => exact hlast
  | cons piece pieces =>
    have hfirst : opensPlain piece.1 = true := by
      rw [List.map_cons, List.all_cons, Bool.and_eq_true] at htexts
      exact htexts.1
    rw [opensPlain, pieceText]
    rcases hpiece : piece.1 with _ | ⟨c, more⟩
    · rw [hpiece] at hfirst
      cases hfirst
    · rw [hpiece] at hfirst
      simpa [opensPlain] using hfirst

theorem framed_tail (h : framed ((text, s) :: pieces) last = true) : framed pieces last = true := by
  obtain ⟨htexts, hlast⟩ := Bool.and_eq_true_iff.mp h
  cases pieces with
  | nil => rfl
  | cons piece pieces =>
    rw [List.map_cons, List.all_cons, Bool.and_eq_true] at htexts
    exact Bool.and_eq_true_iff.mpr ⟨htexts.2, hlast⟩

theorem framed_map : framed (pieces.map fun piece => (piece.1, g piece.2)) last =
    framed pieces last := by
  cases pieces with
  | nil => rfl
  | cons piece pieces => simp [framed, List.all_map, Function.comp_def]

theorem scan_pieceText (hframed : framed pieces last = true)
    (htokens : pieceTokens state pieces last = some tokens)
    (hplain : ∀ piece ∈ pieces, PlainText piece.2) :
    scan state (pieceText pieces last) = some tokens := by
  induction pieces generalizing state tokens with
  | nil =>
    obtain ⟨found, hscan, h⟩ := Option.bind_eq_some_iff.mp htokens
    split_ifs at h
    rw [← Option.some.inj h]
    exact hscan
  | cons piece pieces ih =>
    obtain ⟨text, s⟩ := piece
    obtain ⟨⟨next, first⟩, houtside, h⟩ := Option.bind_eq_some_iff.mp htokens
    split_ifs at h with hend
    obtain ⟨rfl, -⟩ := hend
    obtain ⟨more, hmore, rfl⟩ := Option.map_eq_some_iff.mp h
    have hopen : step .start '\'' = some (.quoted [] [], []) := rfl
    have hrest := ih (framed_tail hframed) hmore
      fun piece hpiece => hplain piece (List.mem_cons_of_mem _ hpiece)
    rw [pieceText, scan_append houtside, scan_of_silent hopen,
      scan_plain (hplain _ List.mem_cons_self) rfl,
      scan_closing (opensPlain_pieceText hframed), hrest]
    rfl

theorem plain_of_scan (hframed : framed pieces last = true)
    (hpieces : (pieceTokens state pieces last).isSome = true)
    (hscan : scan state (pieceText pieces last) = some tokens)
    (hscalars : scalars tokens = pieces.map Prod.snd) :
    ∀ piece ∈ pieces, PlainText piece.2 := by
  induction pieces generalizing state tokens with
  | nil => simp
  | cons piece pieces ih =>
    obtain ⟨text, s⟩ := piece
    obtain ⟨found, hfound⟩ := Option.isSome_iff_exists.mp hpieces
    obtain ⟨⟨next, first⟩, houtside, h⟩ := Option.bind_eq_some_iff.mp hfound
    split_ifs at h with hend
    obtain ⟨rfl, hfirst⟩ := hend
    obtain ⟨more, hmore, -⟩ := Option.map_eq_some_iff.mp h
    have hopen : step .start '\'' = some (.quoted [] [], []) := rfl
    rw [pieceText, scan_append houtside, scan_of_silent hopen] at hscan
    obtain ⟨quoted, hquoted, rfl⟩ := Option.map_eq_some_iff.mp hscan
    rw [scalars_append, hfirst, List.nil_append, List.map_cons] at hscalars
    -- the first scalar is read as it stands, so it is plain and the rest is read after it
    obtain ⟨s', more', hreads⟩ := (exists_reads _).1 _ _ _ hquoted
    rw [hquoted] at hreads
    obtain rfl := Option.some.inj hreads
    obtain ⟨rfl, hothers⟩ := List.cons.inj hscalars
    have hplain : PlainText s' := by
      refine plain_of_reads ?_ ⟨more', hquoted⟩
      have hopens := opensPlain_pieceText hframed
      intro hhead
      rw [opensPlain, hhead] at hopens
      cases hopens
    rw [scan_plain hplain rfl, scan_closing (opensPlain_pieceText hframed)] at hquoted
    obtain ⟨rest, hrest, heq⟩ := Option.map_eq_some_iff.mp hquoted
    obtain ⟨-, rfl⟩ := List.cons.inj heq
    have htail := ih (framed_tail hframed) (by rw [hmore]; rfl) hrest hothers
    intro piece hpiece
    rcases List.mem_cons.mp hpiece with rfl | hpiece
    · exact hplain
    · exact htail piece hpiece

theorem fill_of_no_scalars (h : scalars tokens = []) : tokens.map (Token.fill g) = tokens := by
  induction tokens with
  | nil => rfl
  | cons token rest ih =>
    cases token with
    | quoted s => cases h
    | char c => exact congrArg (Token.char c :: ·) (ih h)

theorem pieceTokens_map (htokens : pieceTokens state pieces last = some tokens) :
    pieceTokens state (pieces.map fun piece => (piece.1, g piece.2)) last =
      some (tokens.map (Token.fill g)) := by
  induction pieces generalizing state tokens with
  | nil =>
    obtain ⟨found, hscan, h⟩ := Option.bind_eq_some_iff.mp htokens
    split_ifs at h with hnone
    obtain rfl := Option.some.inj h
    rw [fill_of_no_scalars hnone]
    exact htokens
  | cons piece pieces ih =>
    obtain ⟨text, s⟩ := piece
    obtain ⟨⟨next, first⟩, houtside, h⟩ := Option.bind_eq_some_iff.mp htokens
    split_ifs at h with hend
    obtain ⟨more, hmore, rfl⟩ := Option.map_eq_some_iff.mp h
    rw [List.map_cons, pieceTokens, houtside]
    simp only [Option.bind_some, if_pos hend, ih hmore, Option.map_some, List.map_append,
      fill_of_no_scalars hend.2, List.map_cons]
    rfl

theorem scalars_pieceTokens (htokens : pieceTokens state pieces last = some tokens) :
    scalars tokens = pieces.map Prod.snd := by
  induction pieces generalizing state tokens with
  | nil =>
    obtain ⟨found, -, h⟩ := Option.bind_eq_some_iff.mp htokens
    split_ifs at h with hnone
    rw [← Option.some.inj h]
    exact hnone
  | cons piece pieces ih =>
    obtain ⟨text, s⟩ := piece
    obtain ⟨⟨next, first⟩, -, h⟩ := Option.bind_eq_some_iff.mp htokens
    split_ifs at h with hend
    obtain ⟨more, hmore, rfl⟩ := Option.map_eq_some_iff.mp h
    rw [scalars_append, hend.2, scalars_quoted, ih hmore]
    rfl

theorem all_pieceText (p : Char → Bool) (hquote : p '\'' = true) :
    (pieceText pieces last).all p = true ↔
      ((pieces.all fun piece => piece.1.all p) = true ∧ last.all p = true) ∧
        ∀ piece ∈ pieces, piece.2.all p = true := by
  induction pieces with
  | nil => simp [pieceText]
  | cons piece pieces ih =>
    simp only [pieceText, List.all_append, List.all_cons, hquote, Bool.true_and,
      Bool.and_eq_true, ih, List.forall_mem_cons]
    tauto

end Facts

section Checking

variable {text : List Char}

theorem pieceText_of_isTemplate (h : isTemplate text = true) :
    pieceText (splitQuotes text).1 (splitQuotes text).2 = text := by
  simp only [isTemplate, Bool.and_eq_true, beq_iff_eq] at h
  exact h.1.1.1

theorem exists_template (h : isTemplate text = true) :
    ∃ template : Template, template.pieces = (splitQuotes text).1 ∧
      template.last = (splitQuotes text).2 := by
  simp only [isTemplate, Bool.and_eq_true] at h
  obtain ⟨⟨⟨-, hframed⟩, hprintable⟩, hread⟩ := h
  obtain ⟨settings, hread⟩ := Option.isSome_iff_exists.mp hread
  obtain ⟨tokens, hscanned, hread⟩ := Option.bind_eq_some_iff.mp hread
  exact ⟨⟨_, _, tokens, settings, hframed, hprintable, hscanned, hread⟩, rfl, rfl⟩

end Checking

section Reading

variable (template : Template) (g : List Char → List Char)

theorem Template.read_fill_iff :
    readYaml (template.text g) = some (template.settings.map (Setting.fill g)) ↔
      ∀ piece ∈ template.pieces, PlainText (g piece.2) ∧ (g piece.2).all isPrintable = true := by
  have hframed : Yaml.framed (template.pieces.map fun piece => (piece.1, g piece.2))
      template.last = true := framed_map.trans template.framed
  have htokens := @pieceTokens_map .start _ template.last template.pieces g template.scanned
  have hread : readSettings (template.tokens.map (Token.fill g)) =
      some (template.settings.map (Setting.fill g)) := by
    rw [readSettings_fill, template.read]
    rfl
  have hprintable : (template.text g).all isPrintable = true ↔
      ∀ piece ∈ template.pieces, (g piece.2).all isPrintable = true := by
    rw [Template.text, all_pieceText isPrintable rfl, List.all_map]
    simp only [Function.comp_def, List.forall_mem_map]
    exact and_iff_right template.printable
  constructor
  · intro h
    rw [readYaml] at h
    split_ifs at h with hall
    obtain ⟨tokens, hscan, hsettings⟩ := Option.bind_eq_some_iff.mp h
    have hscalars : scalars tokens =
        (template.pieces.map fun piece => (piece.1, g piece.2)).map Prod.snd := by
      rw [← scalars_readSettings hsettings, scalars_readSettings hread, scalars_pieceTokens htokens]
    have hplain := plain_of_scan hframed (by rw [htokens]; rfl) hscan hscalars
    exact fun piece hpiece =>
      ⟨hplain _ (List.mem_map_of_mem hpiece), hprintable.mp hall piece hpiece⟩
  · intro h
    rw [readYaml, if_pos (hprintable.mpr fun piece hpiece => (h piece hpiece).2)]
    have hscan := scan_pieceText hframed htokens (by
      intro piece hpiece
      obtain ⟨source, hsource, rfl⟩ := List.mem_map.mp hpiece
      exact (h source hsource).1)
    rw [Template.text, hscan]
    exact hread

end Reading

end SharedInfra.Yaml
