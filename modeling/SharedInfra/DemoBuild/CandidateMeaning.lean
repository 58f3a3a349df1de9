import SharedInfra.DemoBuild.JudgeText

/-!
# What an accepted candidate means

Whether Caddy reads the same in an accepted text wherever it runs (`MeansTheSame`).  That hangs on
what comes up while imports are replaced (`comesUp`): each import has to name a snippet that Caddy
knows, each word that Caddy reads has to stand in the text, and the snippet with the placeholder may
be imported once (`ReadAsJudged`).
-/

namespace SharedInfra.DemoBuild

open Python

section Statements

variable (table : WordTable) (tokenFile text : Str)

def readerWords : List Str :=
  ["file_server".toList, "templates".toList, "root".toList, "expression".toList]

def readerWord : Line → Option Str
  | [] => none
  | first :: rest =>
    if first.text ∈ readerWords then some first.text
    else if startsWith first.text ['@'] ∧
        rest.head?.map Token.text = some "expression".toList then
      some "expression".toList
    else none

/-- A named matcher that is a quoted expression, without the word. -/
def shorthand : Line → Bool
  | first :: second :: _ => startsWith first.text ['@'] && second.quoted
  | _ => false

/-- The tokens with a placeholder, import directives left out. -/
def placeholders (lines : List Line) : Nat :=
  (lines.map fun line =>
    if importName line = none then line.countP holdsPlaceholder else 0).sum

/-- The text means the same to Caddy everywhere, and what it means reads no file but the token's. -/
structure MeansTheSame : Prop where
  same : ∀ n env files env' files', reading env files text n = reading env' files' text n
  directives : ∀ n env files lines, reading env files text n = some lines →
    ∀ line ∈ lines, readerWord line = none ∧ shorthand line = false
  one : ∀ n env files lines, reading env files text n = some lines → placeholders lines ≤ 1
  own : ∀ n env files lines, reading env files text n = some lines →
    ∀ line ∈ lines, importName line = none →
      ∀ token ∈ line, holdsPlaceholder token = true → holdsOwn tokenFile token = true

/-- The lines that come up while imports are replaced, where no file is named. -/
def comesUp (n : Nat) : Option (List Line) := reading id (fun _ => []) text n

def placed : List (Option Str × Line) :=
  ((linesOf id text).map (placeLines 0 none)).getD []

/-- The placeholders that a round of replacement brings in. -/
def imported (n : Nat) : Nat :=
  (((comesUp text n).getD []).map fun line =>
    match importName line with
    | none => 0
    | some name => placeholders (linesAt (placed text) (some name))).sum

/-- Caddy reads the text as the judge does. -/
structure ReadAsJudged : Prop where
  imports : ∀ n lines, comesUp text n = some lines → ∀ line ∈ lines, ∀ name,
    importName line = some name → Defined (placed text) name
  words : ∀ n lines, comesUp text n = some lines → ∀ line ∈ lines,
    (∀ word, readerWord line = some word → wordIn table word text = true) ∧ shorthand line = false
  own : ∀ n lines, comesUp text n = some lines → ∀ line ∈ lines, importName line = none →
    ∀ token ∈ line, holdsPlaceholder token = true → holdsOwn tokenFile token = true
  once : ∀ n, placeholders (linesAt (placed text) none) +
    ((List.range n).map (imported text)).sum ≤ 1

end Statements

section Environment

variable {text : Str}

theorem replaceEnvFrom_of_absent (env : Str → Str) (turns : Nat)
    (h : ¬ ['{', '$'] <:+: text) : replaceEnvFrom env turns text = text := by
  induction turns generalizing text with
  | zero => rfl
  | succ turns ih =>
    cases text with
    | nil => rfl
    | cons c rest =>
      have hno : ¬ (c = '{' ∧ rest.head? = some '$') := by
        rintro ⟨rfl, hrest⟩
        cases rest with
        | nil => cases hrest
        | cons d rest =>
          obtain rfl := Option.some.inj hrest
          exact h ⟨[], rest, rfl⟩
      rw [replaceEnvFrom, if_neg hno,
        ih fun hbad => h (hbad.trans (List.suffix_cons c rest).isInfix)]

theorem linesOf_of_absent (h : ¬ ['{', '$'] <:+: text) (env : Str → Str) :
    linesOf env text = linesOf id text := by
  rw [linesOf, linesOf, replaceEnv, replaceEnv, replaceEnvFrom_of_absent env _ h,
    replaceEnvFrom_of_absent id _ h]

end Environment

section Rounds

variable {env : Str → Str} {files : Str → List Str} {places : List (Option Str × Line)} {n : Nat}
  {line : Line} {lines : List Line} {text : Str}

def replaced (places : List (Option Str × Line)) (extra : List Line) (line : Line) : List Line :=
  match importName line with
  | none => [line]
  | some name => if Defined places name then linesAt places (some name) else extra

theorem replaceLine_eq {extra : List Line} (hextra : ∀ name, fileLines env files name = some extra)
    (line : Line) : replaceLine env files places line = some (replaced places extra line) := by
  rw [replaceLine, replaced]
  cases importName line with
  | none => rfl
  | some name =>
    by_cases hdefined : Defined places name
    · simp only [if_pos hdefined]
    · simp only [if_neg hdefined, hextra]

theorem rounds_succ {extra : List Line} (hextra : ∀ name, fileLines env files name = some extra) :
    rounds env files places (n + 1) =
      (rounds env files places n).map fun lines => lines.flatMap (replaced places extra) := by
  rw [rounds, Option.map_eq_bind]
  refine congrArg _ (funext fun lines => ?_)
  have hline : replaceLine env files places = fun line => some (replaced places extra line) :=
    funext (replaceLine_eq hextra)
  have hmap : lines.mapM (replaceLine env files places) =
      some (lines.map (replaced places extra)) := by
    rw [hline]
    exact List.mapM_pure
  rw [hmap]
  rfl

theorem mapM_congr {α β : Type} {f g : α → Option β} {xs : List α} (h : ∀ x ∈ xs, f x = g x) :
    xs.mapM f = xs.mapM g := by
  induction xs with
  | nil => rfl
  | cons x xs ih =>
    obtain ⟨hx, hxs⟩ := List.forall_mem_cons.mp h
    rw [List.mapM_cons, List.mapM_cons, hx, ih hxs]

theorem fileLines_none (name : Str) : fileLines id (fun _ => []) name = some [] := rfl

theorem rounds_of_defined
    (h : ∀ n lines, rounds id (fun _ => []) places n = some lines → ∀ line ∈ lines, ∀ name,
      importName line = some name → Defined places name) (n : Nat) :
    rounds env files places n = rounds id (fun _ => []) places n := by
  induction n with
  | zero => rfl
  | succ n ih =>
    rw [rounds, rounds, ih]
    cases hlines : rounds id (fun _ => []) places n with
    | none => rfl
    | some lines =>
      have hline : ∀ line ∈ lines, replaceLine env files places line =
          replaceLine id (fun _ => []) places line := by
        intro line hline
        rw [replaceLine, replaceLine]
        cases hname : importName line with
        | none => rfl
        | some name =>
          have hdefined := h n lines hlines line hline name hname
          dsimp only
          rw [if_pos hdefined, if_pos hdefined]
      rw [Option.bind_some, Option.bind_some, mapM_congr hline]

theorem length_replaced_le (extra : List Line) (line : Line) :
    (replaced places [] line).length ≤ (replaced places extra line).length := by
  rw [replaced, replaced]
  split
  · exact le_rfl
  · split_ifs
    · exact le_rfl
    · exact Nat.zero_le _

theorem rounds_differ {extra : List Line} (hne : extra ≠ []) (hline : line ∈ lines) {name : Str}
    (hname : importName line = some name) (hdefined : ¬ Defined places name) :
    lines.flatMap (replaced places []) ≠ lines.flatMap (replaced places extra) := by
  intro heq
  have hlength := congrArg List.length heq
  rw [List.length_flatMap, List.length_flatMap] at hlength
  have hlt : (lines.map fun line => (replaced places [] line).length).sum <
      (lines.map fun line => (replaced places extra line).length).sum := by
    refine List.sum_lt_sum _ _ (fun line _ => length_replaced_le extra line) ⟨line, hline, ?_⟩
    rw [replaced, replaced, hname]
    dsimp only
    rw [if_neg hdefined, if_neg hdefined]
    exact List.length_pos_iff.mpr hne
  exact absurd hlength (Nat.ne_of_lt hlt)

theorem reading_eq (h : ¬ ['{', '$'] <:+: text) {found : List Line}
    (hfound : linesOf id text = some found) :
    reading env files text n = rounds env files (placed text) n := by
  rw [reading, linesOf_of_absent h, hfound, placed, hfound]
  rfl

end Rounds

section Judged

variable {table : WordTable} {tokenFile text : Str} {n : Nat} {lines found : List Line}

theorem judgeText_none (h : judgeText table text tokenFile = none) :
    ¬ ['{', '$'] <:+: text ∧ (∀ word ∈ readerWords, wordIn table word text = false) ∧
      count text placeholderStart ≤ 1 ∧
        count text placeholderStart = count text (placeholder tokenFile) := by
  rw [judgeText] at h
  cases hreaders : fileReaders.find? fun reader => wordIn table reader.1 text with
  | some reader =>
    rw [hreaders] at h
    split_ifs at h
  | none =>
    rw [hreaders] at h
    split_ifs at h with henv hplaceholder hexpression hcount himports
    have hreaders := List.find?_eq_none.mp hreaders
    simp only [Bool.or_eq_true, not_or, Bool.not_eq_true] at hexpression
    refine ⟨fun hbad => henv (occursIn_iff.mpr hbad), ?_, ?_, ?_⟩
    · have hserver := hreaders _ (List.mem_cons_self)
      have htemplates := hreaders _ (List.mem_cons_of_mem _ List.mem_cons_self)
      have hroot :=
        hreaders _ (List.mem_cons_of_mem _ (List.mem_cons_of_mem _ List.mem_cons_self))
      rw [Bool.not_eq_true] at hserver htemplates hroot
      intro word hword
      simp only [readerWords, List.mem_cons, List.not_mem_nil, or_false] at hword
      rcases hword with rfl | rfl | rfl | rfl
      · exact hserver
      · exact htemplates
      · exact hroot
      · exact hexpression.1
    · omega
    · omega

theorem readerWord_mem {line : Line} {word : Str} (h : readerWord line = some word) :
    word ∈ readerWords ∧ ∃ token ∈ line, token.text = word := by
  cases line with
  | nil => cases h
  | cons first rest =>
    rw [readerWord] at h
    split_ifs at h with hword hmatcher
    · cases h
      exact ⟨hword, first, List.mem_cons_self, rfl⟩
    · cases h
      obtain ⟨token, htoken, htext⟩ := Option.map_eq_some_iff.mp hmatcher.2
      exact ⟨by simp [readerWords], token, List.mem_cons_of_mem _ (List.mem_of_mem_head? htoken),
        htext⟩

theorem comesUp_eq (habsent : ¬ ['{', '$'] <:+: text) (hfound : linesOf id text = some found) :
    comesUp text n = rounds id (fun _ => []) (placed text) n :=
  reading_eq habsent hfound

theorem exists_found (h : comesUp text n = some lines) : ∃ found, linesOf id text = some found := by
  rw [comesUp, reading] at h
  obtain ⟨found, hfound, -⟩ := Option.bind_eq_some_iff.mp h
  exact ⟨found, hfound⟩

theorem imports_of_same (habsent : ¬ ['{', '$'] <:+: text)
    (h : ∀ n env files env' files', reading env files text n = reading env' files' text n)
    (hlines : comesUp text n = some lines) : ∀ line ∈ lines, ∀ name,
      importName line = some name → Defined (placed text) name := by
  intro line hline name hname
  by_contra hdefined
  obtain ⟨found, hfound⟩ := exists_found hlines
  have hextra : ∀ name, fileLines id (fun _ => ["x".toList]) name =
      some [[⟨"x".toList, false, true⟩]] := fun name => by rfl
  have hnone := comesUp_eq (n := n) habsent hfound
  have hsame : rounds id (fun _ => ["x".toList]) (placed text) n = some lines := by
    rw [← reading_eq habsent hfound, ← hlines]
    exact h n _ _ _ _
  have hnext := h (n + 1) id (fun _ => []) id fun _ => ["x".toList]
  rw [reading_eq habsent hfound, reading_eq habsent hfound, rounds_succ fileLines_none,
    rounds_succ hextra, ← hnone, hlines, hsame] at hnext
  exact rounds_differ (List.cons_ne_nil _ _) hline hname hdefined (Option.some.inj hnext)

theorem reading_eq_comesUp (habsent : ¬ ['{', '$'] <:+: text)
    (himports : ∀ n lines, comesUp text n = some lines → ∀ line ∈ lines, ∀ name,
      importName line = some name → Defined (placed text) name)
    (env : Str → Str) (files : Str → List Str) (n : Nat) :
    reading env files text n = comesUp text n := by
  cases hfound : linesOf id text with
  | none =>
    rw [comesUp, reading, reading, linesOf_of_absent habsent, hfound]
    rfl
  | some found =>
    rw [reading_eq habsent hfound, comesUp_eq habsent hfound]
    refine rounds_of_defined (fun n lines hlines => himports n lines ?_) n
    rw [comesUp_eq habsent hfound, hlines]

theorem placeholders_append (xs ys : List Line) :
    placeholders (xs ++ ys) = placeholders xs + placeholders ys := by
  rw [placeholders, List.map_append, List.sum_append]
  rfl

theorem placeholders_flatMap (f : Line → List Line) (lines : List Line) :
    placeholders (lines.flatMap f) = (lines.map fun line => placeholders (f line)).sum := by
  induction lines with
  | nil => rfl
  | cons line lines ih =>
    rw [List.flatMap_cons, placeholders_append, ih, List.map_cons, List.sum_cons]

theorem placeholders_comesUp (habsent : ¬ ['{', '$'] <:+: text)
    (himports : ∀ n lines, comesUp text n = some lines → ∀ line ∈ lines, ∀ name,
      importName line = some name → Defined (placed text) name)
    (hlines : comesUp text n = some lines) : placeholders lines =
      placeholders (linesAt (placed text) none) + ((List.range n).map (imported text)).sum := by
  obtain ⟨found, hfound⟩ := exists_found hlines
  induction n generalizing lines with
  | zero =>
    rw [comesUp_eq habsent hfound, rounds] at hlines
    cases hlines
    rfl
  | succ n ih =>
    rw [comesUp_eq habsent hfound, rounds_succ fileLines_none,
      ← comesUp_eq habsent hfound] at hlines
    obtain ⟨before, hbefore, rfl⟩ := Option.map_eq_some_iff.mp hlines
    have hround : imported text n = (before.map fun line =>
        match importName line with
        | none => 0
        | some name => placeholders (linesAt (placed text) (some name))).sum := by
      rw [imported, hbefore]
      rfl
    have hline : ∀ line ∈ before, placeholders (replaced (placed text) [] line) =
        (if importName line = none then line.countP holdsPlaceholder else 0) +
          (match importName line with
            | none => 0
            | some name => placeholders (linesAt (placed text) (some name))) := by
      intro line hline
      rw [replaced]
      cases hname : importName line with
      | none => simp [placeholders, hname]
      | some name => simp [himports n before hbefore line hline name hname]
    rw [List.range_succ, List.map_append, List.sum_append, ← Nat.add_assoc, ← ih hbefore,
      placeholders_flatMap, List.map_congr_left hline, List.sum_map_add, List.map_singleton,
      List.sum_singleton, hround]
    rfl

theorem once_of_unreadable (h : linesOf id text = none) (n : Nat) :
    placeholders (linesAt (placed text) none) + ((List.range n).map (imported text)).sum ≤ 1 := by
  have hplaced : placed text = [] := by
    rw [placed, h]
    rfl
  have himported : ∀ k ∈ List.range n, imported text k = 0 := by
    intro k _
    have hnone : comesUp text k = none := by
      rw [comesUp, reading, h]
      rfl
    rw [imported, hnone]
    rfl
  rw [hplaced, List.map_congr_left himported]
  simp [linesAt, placeholders]

theorem readAsJudged_of_means (hjudged : judgeText table text tokenFile = none)
    (h : MeansTheSame tokenFile text) : ReadAsJudged table tokenFile text := by
  obtain ⟨habsent, -⟩ := judgeText_none hjudged
  have himports : ∀ n lines, comesUp text n = some lines → ∀ line ∈ lines, ∀ name,
      importName line = some name → Defined (placed text) name :=
    fun n lines hlines => imports_of_same habsent h.same hlines
  refine ⟨himports, ?_, fun n lines hlines => h.own n _ _ lines hlines, fun n => ?_⟩
  · intro n lines hlines line hline
    obtain ⟨hword, hshort⟩ := h.directives n _ _ lines hlines line hline
    refine ⟨fun word hfound => ?_, hshort⟩
    rw [hword] at hfound
    cases hfound
  · cases hlines : comesUp text n with
    | none =>
      refine once_of_unreadable ?_ n
      cases hfound : linesOf id text with
      | none => rfl
      | some found =>
        have hsome : ∀ n, ∃ lines, rounds id (fun _ => []) (placed text) n = some lines := by
          intro n
          induction n with
          | zero => exact ⟨_, rfl⟩
          | succ n ih =>
            obtain ⟨lines, hlines⟩ := ih
            exact ⟨_, by rw [rounds_succ fileLines_none, hlines]; rfl⟩
        obtain ⟨lines, hsome⟩ := hsome n
        rw [comesUp_eq habsent hfound, hsome] at hlines
        cases hlines
    | some lines =>
      rw [← placeholders_comesUp habsent himports hlines]
      exact h.one n _ _ lines hlines

theorem means_of_readAsJudged (hjudged : judgeText table text tokenFile = none)
    (h : ReadAsJudged table tokenFile text) : MeansTheSame tokenFile text := by
  obtain ⟨habsent, hwords, -⟩ := judgeText_none hjudged
  have hsame := reading_eq_comesUp habsent h.imports
  refine ⟨fun n env files env' files' => ?_, ?_, ?_, ?_⟩
  · rw [hsame, hsame]
  · intro n env files lines hlines line hline
    rw [hsame] at hlines
    obtain ⟨hwritten, hshort⟩ := h.words n lines hlines line hline
    refine ⟨?_, hshort⟩
    cases hword : readerWord line with
    | none => rfl
    | some word =>
      have hin := hwritten word hword
      rw [hwords word (readerWord_mem hword).1] at hin
      cases hin
  · intro n env files lines hlines
    rw [hsame] at hlines
    rw [placeholders_comesUp habsent h.imports hlines]
    exact h.once n
  · intro n env files lines hlines
    rw [hsame] at hlines
    exact h.own n lines hlines

end Judged

section Written

variable {table : WordTable} {tokenFile text : Str} {n depth : Nat} {inside : Option Str}
  {line : Line} {lines : List Line} {tokens : List Token} {token : Token}

theorem mem_of_mem_groupLines (hline : line ∈ groupLines tokens) (htoken : token ∈ line) :
    token ∈ tokens := by
  induction tokens generalizing line with
  | nil => cases hline
  | cons first rest ih =>
    rw [groupLines] at hline
    cases hgroup : groupLines rest with
    | nil =>
      rw [hgroup] at hline
      obtain rfl := List.mem_singleton.mp hline
      exact List.mem_cons.mpr (Or.inl (List.mem_singleton.mp htoken))
    | cons next more =>
      rw [hgroup] at ih hline
      have hapart : line ∈ [first] :: next :: more → token ∈ first :: rest := by
        intro hmem
        rcases List.mem_cons.mp hmem with rfl | hmem
        · exact List.mem_cons.mpr (Or.inl (List.mem_singleton.mp htoken))
        · exact List.mem_cons_of_mem _ (ih hmem htoken)
      have hjoined : line ∈ (first :: next) :: more → token ∈ first :: rest := by
        intro hmem
        rcases List.mem_cons.mp hmem with rfl | hmem
        · rcases List.mem_cons.mp htoken with rfl | htoken
          · exact List.mem_cons_self
          · exact List.mem_cons_of_mem _ (ih List.mem_cons_self htoken)
        · exact List.mem_cons_of_mem _ (ih (List.mem_cons_of_mem _ hmem) htoken)
      dsimp only at hline
      cases hhead : next.head? with
      | none =>
        rw [hhead] at hline
        exact hapart hline
      | some opening =>
        rw [hhead] at hline
        dsimp only at hline
        split_ifs at hline
        · exact hapart hline
        · exact hjoined hline

theorem mem_of_mem_placeLines (h : line ∈ (placeLines depth inside lines).map Prod.snd) :
    line = [] ∨ line ∈ lines := by
  induction lines generalizing depth inside with
  | nil => cases h
  | cons first rest ih =>
    have hlater : ∀ {depth inside}, line ∈ (placeLines depth inside rest).map Prod.snd →
        line = [] ∨ line ∈ first :: rest :=
      fun hmem => (ih hmem).imp_right (List.mem_cons_of_mem first)
    have hhere : ∀ {place depth inside},
        line ∈ ((place, first) :: placeLines depth inside rest).map Prod.snd →
          line = [] ∨ line ∈ first :: rest := by
      intro place depth inside hmem
      rcases List.mem_cons.mp hmem with rfl | hmem
      · exact Or.inr List.mem_cons_self
      · exact hlater hmem
    rw [placeLines.eq_def] at h
    dsimp only at h
    split at h
    · rcases List.mem_cons.mp h with rfl | h
      · exact Or.inl rfl
      · exact hlater h
    · split_ifs at h
      · cases inside with
        | some _ => exact hlater h
        | none => exact hhere h
      · exact hhere h

theorem mem_of_mem_linesAt {places : List (Option Str × Line)} {place : Option Str}
    (h : line ∈ linesAt places place) : line ∈ places.map Prod.snd := by
  obtain ⟨entry, hentry, rfl⟩ := List.mem_map.mp h
  exact List.mem_map_of_mem (List.mem_filter.mp hentry).1

theorem mem_of_comesUp (habsent : ¬ ['{', '$'] <:+: text) (hlines : comesUp text n = some lines)
    (hline : line ∈ lines) : line ∈ (placed text).map Prod.snd := by
  obtain ⟨found, hfound⟩ := exists_found hlines
  induction n generalizing lines line with
  | zero =>
    rw [comesUp_eq habsent hfound, rounds] at hlines
    cases hlines
    exact mem_of_mem_linesAt hline
  | succ n ih =>
    rw [comesUp_eq habsent hfound, rounds_succ fileLines_none,
      ← comesUp_eq habsent hfound] at hlines
    obtain ⟨before, hbefore, rfl⟩ := Option.map_eq_some_iff.mp hlines
    obtain ⟨origin, horigin, hline⟩ := List.mem_flatMap.mp hline
    rw [replaced] at hline
    split at hline
    · obtain rfl := List.mem_singleton.mp hline
      exact ih hbefore horigin
    · split_ifs at hline
      · exact mem_of_mem_linesAt hline
      · cases hline

theorem exists_tokens (habsent : ¬ ['{', '$'] <:+: text) (hlines : comesUp text n = some lines) :
    ∃ tokens, lex text = some tokens ∧ ∀ line ∈ lines, ∀ token ∈ line, token ∈ tokens := by
  obtain ⟨found, hfound⟩ := exists_found hlines
  rw [linesOf, replaceEnv, replaceEnvFrom_of_absent id _ habsent] at hfound
  obtain ⟨tokens, hlex, hgroup⟩ := Option.map_eq_some_iff.mp hfound
  refine ⟨tokens, hlex, fun line hline token htoken => ?_⟩
  have hplaced := mem_of_comesUp habsent hlines hline
  rw [placed, linesOf, replaceEnv, replaceEnvFrom_of_absent id _ habsent, hlex] at hplaced
  rcases mem_of_mem_placeLines hplaced with rfl | hgrouped
  · cases htoken
  · exact mem_of_mem_groupLines hgrouped htoken

theorem plain_readerWords {word : Str} (hword : word ∈ readerWords) : Plain word ∧ word ≠ [] := by
  have hall : (readerWords.all fun word =>
      !word.isEmpty && word.all fun c => !isEdge c && c != '<') = true := rfl
  have hthis := List.all_eq_true.mp hall word hword
  rw [Bool.and_eq_true, List.all_eq_true] at hthis
  refine ⟨fun c hc => by simpa using hthis.2 c hc, ?_⟩
  rintro rfl
  cases hthis.1

/-- What the judge cannot tell of a text without heredocs and carriage returns. -/
structure Resolves (text : Str) : Prop where
  imports : ∀ n lines, comesUp text n = some lines → ∀ line ∈ lines, ∀ name,
    importName line = some name → Defined (placed text) name
  matchers : ∀ n lines, comesUp text n = some lines → ∀ line ∈ lines, shorthand line = false
  once : ∀ n, placeholders (linesAt (placed text) none) +
    ((List.range n).map (imported text)).sum ≤ 1

theorem readAsJudged_of_resolves (hjudged : judgeText table text tokenFile = none)
    (hreturn : '\r' ∉ text) (hangles : ¬ ['<', '<'] <:+: text) (hplain : Plain tokenFile)
    (h : Resolves text) : ReadAsJudged table tokenFile text := by
  obtain ⟨habsent, -, hone, hsame⟩ := judgeText_none hjudged
  refine ⟨h.imports, ?_, ?_, h.once⟩
  · intro n lines hlines line hline
    obtain ⟨tokens, hlex, hmem⟩ := exists_tokens habsent hlines
    have hcuts := lex_cuts hreturn hangles hlex
    refine ⟨fun word hword => ?_, h.matchers n lines hlines line hline⟩
    obtain ⟨hreader, token, htoken, rfl⟩ := readerWord_mem hword
    obtain ⟨hletters, hne⟩ := plain_readerWords hreader
    exact wordIn_of_cuts hcuts (hmem line hline token htoken) hletters hne
  · intro n lines hlines line hline _ token htoken hholds
    obtain ⟨tokens, hlex, hmem⟩ := exists_tokens habsent hlines
    have hcuts := lex_cuts hreturn hangles hlex
    have hin := hmem line hline token htoken
    have hcounted : 0 < tokens.countP holdsPlaceholder :=
      List.countP_pos_iff.mpr ⟨token, hin, hholds⟩
    have hle := countP_le_of_cuts hcuts
    have hline : count ('\n' :: text) placeholderStart = count text placeholderStart := by
      rw [placeholderStart_eq, count_cons placeholderTail]
      rfl
    rw [hline] at hle
    have hown : 0 < count text (placeholder tokenFile) := by omega
    exact holdsOwn_of_cuts hcuts hin (by omega)
      ((infix_of_countAfter hown).trans (List.suffix_cons '\n' text).isInfix) hplain hholds

end Written

section Main

variable (table : WordTable) (tokenFile text : Str)

/-- An accepted text means the same everywhere when Caddy reads it as the judge does; without
heredocs and carriage returns that is a matter of imports and quoted matchers. -/
theorem judged_means_iff :
    ((judgeText table text tokenFile = none → MeansTheSame tokenFile text) ↔
      (judgeText table text tokenFile = none → ReadAsJudged table tokenFile text)) ∧
    (judgeText table text tokenFile = none → '\r' ∉ text → ¬ ['<', '<'] <:+: text →
      Plain tokenFile → (ReadAsJudged table tokenFile text ↔ Resolves text)) := by
  refine ⟨⟨fun h hjudged => readAsJudged_of_means hjudged (h hjudged),
    fun h hjudged => means_of_readAsJudged hjudged (h hjudged)⟩, ?_⟩
  intro hjudged hreturn hangles hplain
  refine ⟨fun h => ⟨h.imports, fun n lines hlines line hline =>
    (h.words n lines hlines line hline).2, h.once⟩, fun h => ?_⟩
  exact readAsJudged_of_resolves hjudged hreturn hangles hplain h

end Main

/-- The word characters of ASCII alone. -/
def asciiTable : WordTable where
  isWord c := c.isAlphanum || c == '_'
  ascii _ _ := rfl
  blank c hc := by
    by_contra hword
    rw [Bool.not_eq_false, Bool.or_eq_true, beq_iff_eq] at hword
    rcases hword with hword | rfl
    · simp only [isSpace, Char.isAlphanum, Char.isAlpha, Char.isUpper, Char.isLower,
        Char.isDigit, Bool.or_eq_true, Bool.and_eq_true, decide_eq_true_eq, beq_iff_eq,
        UInt32.le_iff_toNat_le] at hc hword
      have hletters : 'A'.val.toNat = 65 ∧ 'Z'.val.toNat = 90 ∧ 'a'.val.toNat = 97 ∧
          'z'.val.toNat = 122 ∧ '0'.val.toNat = 48 ∧ '9'.val.toNat = 57 := by decide
      simp only [Char.toNat] at hc hword
      omega
    · cases hc
  mark := by decide

/-- A site whose response spells the head of the snippet that the site imports. -/
def quotedSnippet : Str := "a \x7b\n\trespond \x60\n(s) \x7b\n\x60\n\timport s\n\x7d\n".toList

def tokenPath : Str := "/etc/branchleft/secrets/dns-token".toList

theorem quotedSnippet_reads_file :
    judgeText asciiTable quotedSnippet tokenPath = none ∧
      ¬ MeansTheSame tokenPath quotedSnippet := by
  refine ⟨by decide +kernel, fun h => ?_⟩
  have hsame := h.same 1 id (fun _ => []) id fun _ => ["file_server".toList]
  revert hsame
  decide +kernel

/-- A carriage return in a word is nothing to Caddy. -/
example : judgeText asciiTable "file_\rserver\n".toList tokenPath = none ∧
    comesUp "file_\rserver\n".toList 0 = some [[⟨"file_server".toList, false, true⟩]] := by
  decide +kernel

end SharedInfra.DemoBuild
