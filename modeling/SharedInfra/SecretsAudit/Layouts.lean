import SharedInfra.SecretsAudit.Report

/-!
# The layouts that the reader of configurations takes

A YAML mapping in some of its layouts, and what `classify_secrets_provider` makes of its text.  A
key on a line of its own whose value begins on that line is seen, whatever else the mapping holds
(`kms_is_never_done`); a value below its key is not.
-/

namespace SharedInfra.SecretsAudit

open Python

/-- The value of an entry, and how it is laid out. -/
inductive Content where
  /-- On the line, between quotes or plain; a comment or more of the value may be behind. -/
  | scalar (lead : Str) (quote : Option Char) (text tail : Str) (below : List Str)
  /-- On the next line. -/
  | nextLine (indent text : Str)
  /-- A literal or folded scalar. -/
  | block (header : Str) (text : Str) (below : List Str)
  /-- A mapping, a sequence, an alias or nothing. -/
  | other (first : Str) (below : List Str)

structure Entry where
  quote : Option Char
  key : Str
  gap : Str
  content : Content

def spelled (quote : Option Char) (s : Str) : Str := quote.elim s fun q => q :: (s ++ [q])

/-- What stands behind the colon, and the lines below. -/
def Content.lines : Content → Str × List Str
  | .scalar lead quote text tail below => (lead ++ (spelled quote text ++ tail), below)
  | .nextLine indent text => ([], [indent ++ text])
  | .block header _ below => (' ' :: header, below)
  | .other first below => (first, below)

def Content.value : Content → Option Str
  | .scalar _ _ text _ _ => some text
  | .nextLine _ text => some text
  | .block _ text _ => some text
  | .other _ _ => none

def Entry.line (e : Entry) : Str := spelled e.quote e.key ++ (e.gap ++ ':' :: e.content.lines.1)

def Entry.lines (e : Entry) : List Str := e.line :: e.content.lines.2

/-- A mapping in block style, behind the lines in front of it, or in flow style. -/
inductive Document where
  | block (marked : Bool) (front : List Str) (entries : List Entry) (ended : Bool)
  | flow (marked : Bool) (pairs : List (Str × Str))

def marks (marked : Bool) : Str := if marked then [bom] else []

/-- The text of a document, as a file is read in text mode. -/
def Document.text : Document → Str
  | .block marked front entries ended =>
    let text := unlines (front ++ entries.flatMap Entry.lines)
    marks marked ++ if ended then text else text.dropLast
  | .flow marked pairs =>
    marks marked ++ '{' :: (joinWith ", ".toList (pairs.map fun pair =>
      pair.1 ++ (": ".toList ++ pair.2)) ++ "\x7d\n".toList)

def Document.mapping : Document → List (Str × Option Str)
  | .block _ _ entries _ => entries.map fun e => (e.key, e.content.value)
  | .flow _ pairs => pairs.map fun pair => (pair.1, some pair.2)

def encryptedkey : Str := "encryptedkey".toList

def secretsprovider : Str := "secretsprovider".toList

/-- The mapping is one of a stack whose secrets are wrapped by the key. -/
def Document.Wrapped (d : Document) : Prop :=
  (∃ v, (encryptedkey, v) ∈ d.mapping) ∨
    ∃ v, (secretsprovider, some v) ∈ d.mapping ∧ startsWith v "gcpkms://".toList = true

/-- A line that is within a value, or in front of the mapping: empty, indented, a comment, an item
of a sequence, a marker or a directive. -/
def IsInner (line : Str) : Prop :=
  ∀ c ∈ line.head?, isSpace c = true ∨ c = '#' ∨ c = '-' ∨ c = '.' ∨ c = '%'

def IsQuote (quote : Option Char) : Prop := quote = none ∨ quote = some '\'' ∨ quote = some '"'

/-- A value as the layout wants it: a plain one begins with no white space and no indicator of
another layout. -/
def Content.Legal : Content → Prop
  | .scalar lead quote text _ _ => (∀ c ∈ lead, isSpace c = true) ∧ IsQuote quote ∧
      (quote = none → ∃ c rest, text = c :: rest ∧ isSpace c = false ∧ c ≠ '>' ∧ c ≠ '|')
  | .nextLine indent text => (∃ c rest, indent = c :: rest ∧ isSpace c = true) ∧ text ≠ []
  | _ => True

structure Entry.Legal (e : Entry) : Prop where
  quote : IsQuote e.quote
  gap : ∀ c ∈ e.gap, isSpace c = true
  content : e.content.Legal
  inner : ∀ line ∈ e.content.lines.2, IsInner line

/-- A document of the layouts. -/
def Document.Legal : Document → Prop
  | .block marked front entries _ => (∀ line ∈ front, IsInner line) ∧ (∀ e ∈ entries, e.Legal) ∧
      (entries.map Entry.key).Nodup ∧
      (∀ line ∈ front ++ entries.flatMap Entry.lines, ∀ c ∈ line, isLineBreak c = false) ∧
      (marked = false → (unlines (front ++ entries.flatMap Entry.lines)).head? ≠ some bom)
  | .flow _ pairs => (pairs.map Prod.fst).Nodup

def Content.OnLine : Content → Prop
  | .scalar _ _ _ _ _ => True
  | _ => False

def Entry.readKey (e : Entry) : Str := stripQuotes (strip (e.line.takeWhile (· ≠ ':')))

/-- The entry that tells is in block style with its value on its line; where that is the provider,
no other key reads as it. -/
def Document.Shown : Document → Prop
  | .block _ _ entries _ =>
    (∃ e ∈ entries, e.key = encryptedkey ∧ e.content.OnLine) ∨
      ∃ e ∈ entries, e.key = secretsprovider ∧ e.content.OnLine ∧
        (∃ v, e.content.value = some v ∧ startsWith v "gcpkms://".toList = true) ∧
          ∀ other ∈ entries, other.readKey = secretsprovider → other = e
  | .flow _ _ => False

section Reading

variable {line key value : Str} {e : Entry} {d : Document}

theorem rdropWhile_past {p : Char → Bool} {c : Char} (hc : p c = false) (s t : Str) :
    (s ++ c :: t).rdropWhile p = s ++ c :: t.rdropWhile p := by
  induction t using List.reverseRecOn with
  | nil =>
    have hnot : ¬ p c = true := Bool.eq_false_iff.mp hc
    rw [List.rdropWhile_concat_neg p s c hnot]
    rfl
  | append_singleton t d ih =>
    have hsplit : s ++ c :: (t ++ [d]) = (s ++ c :: t) ++ [d] := by
      simp
    rw [hsplit]
    by_cases hd : p d = true
    · rw [List.rdropWhile_concat_pos p _ d hd, List.rdropWhile_concat_pos p _ d hd, ih]
    · rw [List.rdropWhile_concat_neg p _ d hd, List.rdropWhile_concat_neg p _ d hd]
      exact hsplit.symm

theorem readScalar_eq {c : Char} {front rest : Str} (hline : line = c :: front ++ ':' :: rest)
    (hc : isSpace c = false) (hcomment : c ≠ '#') (hfront : ':' ∉ c :: front)
    (hvalue : strip rest ≠ []) (hopener : strip rest ∉ blockOpeners) :
    readScalar line = some (stripQuotes (strip (c :: front)), stripQuotes (strip rest)) := by
  have hkept : ∀ d ∈ c :: front, decide (d ≠ ':') = true := fun d hd =>
    decide_eq_true fun h => hfront (h ▸ hd)
  have htake : line.takeWhile (· ≠ ':') = c :: front := by
    rw [hline, List.takeWhile_append_of_pos hkept, List.takeWhile_cons_of_neg (by simp),
      List.append_nil]
  have hdrop : line.dropWhile (· ≠ ':') = ':' :: rest := by
    rw [hline, List.dropWhile_append_of_pos hkept, List.dropWhile_cons_of_neg (by simp)]
  have hskip : ¬ (line = [] ∨ line.head?.any isSpace = true ∨
      startsWith (lstrip line) "#".toList = true) := by
    have hstrip : lstrip line = line := by
      rw [hline, lstrip, List.cons_append, List.dropWhile_cons_of_neg (by rw [hc]; exact Bool.false_ne_true)]
    rw [hstrip, hline]
    rintro (h | h | h)
    · cases h
    · rw [List.cons_append, List.head?_cons, Option.any_some, hc] at h
      cases h
    · obtain ⟨t, ht⟩ := startsWith_iff.mp h
      exact hcomment (List.cons.inj ht).1.symm
  rw [readScalar, if_neg hskip, hdrop, htake]
  dsimp only
  rw [if_neg (not_or.mpr ⟨hvalue, hopener⟩)]

theorem readScalar_key (h : readScalar line = some (key, value)) :
    key = stripQuotes (strip (line.takeWhile (· ≠ ':'))) ∧
      ∀ c ∈ line.head?, isSpace c = false ∧ c ≠ '#' ∧ c ≠ ':' ∨ c = ':' := by
  rw [readScalar] at h
  split_ifs at h with hskip
  cases hdrop : line.dropWhile (· ≠ ':') with
  | nil =>
    rw [hdrop] at h
    cases h
  | cons colon rest =>
    rw [hdrop] at h
    dsimp only at h
    split_ifs at h
    obtain ⟨rfl, -⟩ := Prod.mk.inj (Option.some.inj h)
    refine ⟨rfl, fun c hc => ?_⟩
    obtain ⟨hne, hspace, hcomment⟩ : line ≠ [] ∧ ¬ line.head?.any isSpace = true ∧
        ¬ startsWith (lstrip line) "#".toList = true := by
      simpa only [not_or] using hskip
    rw [hc] at hspace
    have hspace : isSpace c = false := Bool.eq_false_iff.mpr hspace
    by_cases hcolon : c = ':'
    · exact Or.inr hcolon
    · refine Or.inl ⟨hspace, fun hhash => hcomment ?_, hcolon⟩
      obtain ⟨tail, rfl⟩ : ∃ tail, line = c :: tail := by
        cases line with
        | nil => cases hc
        | cons d tail => exact ⟨tail, by rw [Option.some.inj hc]⟩
      have hleft : lstrip (c :: tail) = c :: tail := lstrip_of_head fun d hd => by
        rw [← Option.some.inj hd]
        exact hspace
      rw [hleft, hhash]
      exact startsWith_iff.mpr ⟨tail, rfl⟩

theorem readScalar_inner (h : IsInner line) (hread : readScalar line = some (key, value)) :
    key ≠ secretsprovider := by
  obtain ⟨rfl, hhead⟩ := readScalar_key hread
  cases line with
  | nil => cases hread
  | cons c line =>
    have hkept : ∀ d, d ≠ ':' → isSpace d = false → d ≠ '\'' → d ≠ '"' → d ≠ 's' → c = d →
        stripQuotes (strip ((c :: line).takeWhile (· ≠ ':'))) ≠ secretsprovider := by
      rintro d hcolon hspace hsingle hdouble hs rfl hsame
      have htake : (c :: line).takeWhile (· ≠ ':') = c :: line.takeWhile (· ≠ ':') :=
        List.takeWhile_cons_of_pos (decide_eq_true hcolon)
      have hleft : lstrip (c :: line.takeWhile (· ≠ ':')) = c :: line.takeWhile (· ≠ ':') :=
        lstrip_of_head fun d hd => by
          rw [← Option.some.inj hd]
          exact hspace
      rw [htake, strip, hleft] at hsame
      have hright : rstrip (c :: line.takeWhile (· ≠ ':')) =
          c :: rstrip (line.takeWhile (· ≠ ':')) := rstrip_past (s := []) hspace
      have hquote : (c == '\'' || c == '"') = false := by
        rw [Bool.or_eq_false_iff, beq_eq_false_iff_ne, beq_eq_false_iff_ne]
        exact ⟨hsingle, hdouble⟩
      rw [hright, stripQuotes, List.dropWhile_cons_of_neg (by rw [hquote]; exact
        Bool.false_ne_true)] at hsame
      have hlast := rdropWhile_past (p := fun c => c == '\'' || c == '"') hquote []
        (rstrip (line.takeWhile (· ≠ ':')))
      rw [List.nil_append, List.nil_append] at hlast
      rw [hlast] at hsame
      exact hs (List.cons.inj hsame).1
    obtain ⟨hspace, hcomment, -⟩ | hcolon := hhead c rfl
    · obtain hc | hc | hc | hc | hc := h c rfl
      · rw [hc] at hspace
        cases hspace
      · exact absurd hc hcomment
      · exact hkept '-' (by decide) rfl (by decide) (by decide) (by decide) hc
      · exact hkept '.' (by decide) rfl (by decide) (by decide) (by decide) hc
      · exact hkept '%' (by decide) rfl (by decide) (by decide) (by decide) hc
    · obtain hc | hc | hc | hc | hc := h c rfl
      all_goals
        rw [hcolon] at hc
        exact absurd hc (by decide)

theorem strip_append_blank {w gap : Str} (hw : Trimmed w) (hne : w ≠ [])
    (hgap : ∀ c ∈ gap, isSpace c = true) : strip (w ++ gap) = w := by
  obtain ⟨init, last, rfl⟩ := List.eq_nil_or_concat w |>.resolve_left hne
  rw [List.concat_eq_append] at hw ⊢
  have hlast : isSpace last = false := hw.2 last (by simp)
  have hleft : lstrip (init ++ [last] ++ gap) = init ++ [last] ++ gap := by
    refine lstrip_of_head fun c hc => hw.1 c ?_
    rwa [List.head?_append_of_ne_nil _ (by simp)] at hc
  have hright : rstrip gap = [] := by
    rw [rstrip, List.rdropWhile_eq_nil_iff]
    exact hgap
  rw [strip, hleft, List.append_assoc, List.singleton_append, rstrip_past hlast, hright]

theorem trimmed_of_ends {w : Str} (hhead : w.head?.any isSpace = false)
    (hlast : w.getLast?.any isSpace = false) : Trimmed w := by
  refine ⟨fun c hc => ?_, fun c hc => ?_⟩
  · rw [Option.mem_def.mp hc] at hhead
    exact hhead
  · rw [Option.mem_def.mp hc] at hlast
    exact hlast

theorem stripped_key {quote : Option Char} {gap : Str} (hquote : IsQuote quote)
    (hkey : key = encryptedkey ∨ key = secretsprovider) (hgap : ∀ c ∈ gap, isSpace c = true) :
    stripQuotes (strip (spelled quote key ++ gap)) = key ∧
      ∃ c rest, spelled quote key ++ gap = c :: rest ∧ isSpace c = false ∧ c ≠ '#' ∧
        ':' ∉ c :: rest := by
  have hblank : ':' ∉ gap := fun h => absurd (hgap _ h) (by decide)
  have hspelled : Trimmed (spelled quote key) ∧ spelled quote key ≠ [] ∧
      stripQuotes (spelled quote key) = key ∧ ∃ c rest, spelled quote key = c :: rest ∧
        isSpace c = false ∧ c ≠ '#' ∧ ':' ∉ c :: rest := by
    obtain rfl | rfl | rfl := hquote
    all_goals
      obtain rfl | rfl := hkey
      all_goals
        exact ⟨trimmed_of_ends (by decide) (by decide), by decide, by decide +kernel, _, _, rfl,
          by decide, by decide, by decide +kernel⟩
  obtain ⟨htrimmed, hne, hsame, c, rest, hrest, hspace, hcomment, hcolon⟩ := hspelled
  refine ⟨by rw [strip_append_blank htrimmed hne hgap, hsame], c, rest ++ gap, ?_, hspace,
    hcomment, ?_⟩
  · rw [hrest]
    rfl
  · rw [← List.cons_append, List.mem_append]
    exact fun h => h.elim hcolon hblank

theorem read_value {content : Content} (hlegal : content.Legal) (hline : content.OnLine) :
    strip content.lines.1 ≠ [] ∧ strip content.lines.1 ∉ blockOpeners ∧
      ∀ v, content.value = some v → startsWith v "gcpkms://".toList = true →
        startsWith (stripQuotes (strip content.lines.1)) "gcpkms://".toList = true := by
  cases content with
  | nextLine indent text => exact hline.elim
  | block header text below => exact hline.elim
  | other first below => exact hline.elim
  | scalar lead quote text tail below =>
    obtain ⟨hlead, hquote, hplain⟩ := hlegal
    obtain ⟨c, rest, hspelled, hspace, hfold, hliteral⟩ : ∃ c rest,
        spelled quote text ++ tail = c :: rest ∧ isSpace c = false ∧ c ≠ '>' ∧ c ≠ '|' := by
      obtain rfl | rfl | rfl := hquote
      · obtain ⟨c, rest, rfl, hc⟩ := hplain rfl
        exact ⟨c, rest ++ tail, rfl, hc⟩
      · exact ⟨'\'', _, rfl, rfl, by decide, by decide⟩
      · exact ⟨'"', _, rfl, rfl, by decide, by decide⟩
    have hstrip : strip (lead ++ (spelled quote text ++ tail)) =
        rstrip (spelled quote text ++ tail) := by
      rw [strip, lstrip_append_of_forall hlead, hspelled]
      congr 1
      refine lstrip_of_head fun d hd => ?_
      rw [← Option.some.inj hd]
      exact hspace
    have hright : rstrip (c :: rest) = c :: rstrip rest := rstrip_past (s := []) hspace
    show strip (lead ++ (spelled quote text ++ tail)) ≠ [] ∧
      strip (lead ++ (spelled quote text ++ tail)) ∉ blockOpeners ∧
        ∀ v, some text = some v → startsWith v "gcpkms://".toList = true →
          startsWith (stripQuotes (strip (lead ++ (spelled quote text ++ tail))))
            "gcpkms://".toList = true
    rw [hstrip]
    refine ⟨?_, ?_, ?_⟩
    · rw [hspelled, hright]
      exact List.cons_ne_nil _ _
    · rw [hspelled, hright]
      intro h
      have hopener : ∀ opener ∈ blockOpeners, opener.head? = some '>' ∨ opener.head? = some '|' := by
        decide
      obtain h | h := hopener _ h
      · exact hfold (Option.some.inj h)
      · exact hliteral (Option.some.inj h)
    · rintro v hv hstart
      obtain rfl := Option.some.inj hv
      obtain ⟨u, rfl⟩ := startsWith_iff.mp hstart
      have hscheme : "gcpkms://".toList = "gcpkms:/".toList ++ ['/'] := by
        decide
      have hplainScheme : ∀ z, stripQuotes ("gcpkms:/".toList ++ '/' :: z) =
          "gcpkms:/".toList ++ '/' :: z.rdropWhile fun c => c == '\'' || c == '"' := by
        intro z
        have hletter : "gcpkms:/".toList = 'g' :: "cpkms:/".toList := by
          decide
        have hdrop : ("gcpkms:/".toList ++ '/' :: z).dropWhile (fun c => c == '\'' || c == '"') =
            "gcpkms:/".toList ++ '/' :: z := by
          rw [hletter, List.cons_append, List.dropWhile_cons_of_neg (by decide)]
        rw [stripQuotes, hdrop]
        exact rdropWhile_past rfl _ _
      have hkept : ∀ z, startsWith ("gcpkms:/".toList ++ '/' :: z) "gcpkms://".toList = true := by
        intro z
        rw [hscheme]
        refine startsWith_iff.mpr ⟨z, ?_⟩
        rw [List.append_assoc]
        rfl
      have hread : ∀ before after : Str, rstrip (before ++ ("gcpkms://".toList ++ u) ++ after) =
            before ++ ("gcpkms:/".toList ++ '/' :: rstrip (u ++ after)) := by
        intro before after
        have hsplit : before ++ ("gcpkms://".toList ++ u) ++ after =
            (before ++ "gcpkms:/".toList) ++ '/' :: (u ++ after) := by
          rw [hscheme]
          simp only [List.append_assoc, List.cons_append, List.nil_append]
        rw [hsplit, rstrip_past rfl, List.append_assoc]
      obtain rfl | rfl | rfl := hquote
      · have hline := hread [] tail
        rw [List.nil_append, List.nil_append] at hline
        have hsame : spelled none ("gcpkms://".toList ++ u) ++ tail =
            "gcpkms://".toList ++ u ++ tail := rfl
        rw [hsame, hline, hplainScheme]
        exact hkept _
      · have hline := hread ['\''] ('\'' :: tail)
        have hsame : spelled (some '\'') ("gcpkms://".toList ++ u) ++ tail =
            ['\''] ++ ("gcpkms://".toList ++ u) ++ '\'' :: tail := by
          simp [spelled]
        rw [hsame, hline]
        change startsWith (stripQuotes ("gcpkms:/".toList ++ '/' :: _)) _ = true
        rw [hplainScheme]
        exact hkept _
      · have hline := hread ['"'] ('"' :: tail)
        have hsame : spelled (some '"') ("gcpkms://".toList ++ u) ++ tail =
            ['"'] ++ ("gcpkms://".toList ++ u) ++ '"' :: tail := by
          simp [spelled]
        rw [hsame, hline]
        change startsWith (stripQuotes ("gcpkms:/".toList ++ '/' :: _)) _ = true
        rw [hplainScheme]
        exact hkept _

end Reading

section Mapping

variable {line key value : Str} {e : Entry} {d : Document} {lines : List Str}
  {found : List (Str × Str)}

theorem readScalar_line (hlegal : e.Legal) (hkey : e.key = encryptedkey ∨ e.key = secretsprovider)
    (hline : e.content.OnLine) : ∃ v, readScalar e.line = some (e.key, v) ∧
      ∀ text, e.content.value = some text → startsWith text "gcpkms://".toList = true →
        startsWith v "gcpkms://".toList = true := by
  obtain ⟨hsame, c, rest, hfront, hspace, hcomment, hcolon⟩ :=
    stripped_key hlegal.quote hkey hlegal.gap
  obtain ⟨hvalue, hopener, hscheme⟩ := read_value hlegal.content hline
  refine ⟨stripQuotes (strip e.content.lines.1), ?_, hscheme⟩
  have hshape : e.line = c :: rest ++ ':' :: e.content.lines.1 := by
    rw [Entry.line, ← List.append_assoc, hfront]
  rw [readScalar_eq hshape hspace hcomment hcolon hvalue hopener, ← hfront, hsame]

theorem splitlines_dropLast (h : ∀ line ∈ lines, ∀ c ∈ line, isLineBreak c = false) :
    (splitlines (unlines lines).dropLast).filterMap readScalar = lines.filterMap readScalar := by
  induction lines with
  | nil => rfl
  | cons line lines ih =>
    obtain ⟨hline, hlines⟩ := List.forall_mem_cons.mp h
    cases lines with
    | nil =>
      rw [unlines, unlines, List.dropLast_concat]
      by_cases hempty : line = []
      · subst hempty
        rfl
      · rw [splitlines_single hempty hline]
    | cons next lines =>
      have hrest : unlines (next :: lines) ≠ [] := by
        rw [unlines]
        simp
      have hdrop : (unlines (line :: next :: lines)).dropLast =
          line ++ '\n' :: (unlines (next :: lines)).dropLast := by
        rw [unlines, List.dropLast_append_of_ne_nil (List.cons_ne_nil _ _),
          List.dropLast_cons_of_ne_nil hrest]
      rw [hdrop, splitlines_append_newline hline, List.filterMap_cons, List.filterMap_cons,
        ih hlines]

theorem dropBom_marks {marked : Bool} {text : Str} (h : marked = false → text.head? ≠ some bom) :
    dropBom (marks marked ++ text) = text := by
  cases marked with
  | true => exact if_pos rfl
  | false => exact if_neg (h rfl)

theorem readTopLevelScalars_block {marked ended : Bool} {front : List Str} {entries : List Entry}
    (h : (Document.block marked front entries ended).Legal) :
    readTopLevelScalars (Document.block marked front entries ended).text =
      (front ++ entries.flatMap Entry.lines).filterMap readScalar := by
  obtain ⟨-, -, -, hbreaks, hmark⟩ := h
  rw [readTopLevelScalars, Document.text]
  cases ended with
  | true =>
    rw [if_pos rfl, dropBom_marks hmark, splitlines_unlines hbreaks]
  | false =>
    have hhead : marked = false →
        ((unlines (front ++ entries.flatMap Entry.lines)).dropLast).head? ≠ some bom := by
      intro hmarked hbom
      refine hmark hmarked ?_
      generalize unlines (front ++ entries.flatMap Entry.lines) = text at hbom
      cases text with
      | nil => cases hbom
      | cons c text =>
        cases text with
        | nil => cases hbom
        | cons d text => exact hbom
    rw [if_neg Bool.false_ne_true, dropBom_marks hhead, splitlines_dropLast hbreaks]

theorem scalar_isSome (h : (key, value) ∈ found) : ∃ v, scalar found key = some v ∧
    (key, v) ∈ found := by
  have hlookup : ∀ pairs : List (Str × Str), (key, value) ∈ pairs →
      ∃ v, pairs.lookup key = some v ∧ (key, v) ∈ pairs := by
    intro pairs hmem
    induction pairs with
    | nil => cases hmem
    | cons pair pairs ih =>
      obtain ⟨other, v⟩ := pair
      rw [List.lookup_cons]
      by_cases hkey : key = other
      · subst hkey
        rw [beq_self_eq_true]
        exact ⟨v, rfl, List.mem_cons_self⟩
      · rw [beq_eq_false_iff_ne.mpr hkey]
        obtain hmem | hmem := List.mem_cons.mp hmem
        · exact absurd (Prod.mk.inj hmem).1 hkey
        · obtain ⟨v', hv', hin⟩ := ih hmem
          exact ⟨v', hv', List.mem_cons_of_mem _ hin⟩
  obtain ⟨v, hv, hin⟩ := hlookup found.reverse (List.mem_reverse.mpr h)
  exact ⟨v, hv, List.mem_reverse.mp hin⟩

theorem classify_shown (hlegal : d.Legal) (hshown : d.Shown) :
    (classifySecretsProvider d.text).1 = .gcpkms := by
  cases d with
  | flow marked pairs => exact hshown.elim
  | block marked front entries ended =>
    have hread := readTopLevelScalars_block hlegal
    obtain ⟨hfront, hentries, -, -, -⟩ := hlegal
    have hpair : ∀ e ∈ entries, ∀ v, readScalar e.line = some (e.key, v) → (e.key, v) ∈
        readTopLevelScalars (Document.block marked front entries ended).text := by
      intro e he v hv
      rw [hread]
      refine List.mem_filterMap.mpr ⟨e.line, List.mem_append_right _ ?_, hv⟩
      exact List.mem_flatMap.mpr ⟨e, he, List.mem_cons_self⟩
    obtain ⟨e, he, hkey, hline⟩ | ⟨e, he, hkey, hline, ⟨text, htext, hscheme⟩, honly⟩ := hshown
    · obtain ⟨v, hv, -⟩ := readScalar_line (hentries e he) (Or.inl hkey) hline
      obtain ⟨v', hv', -⟩ := scalar_isSome (hpair e he v hv)
      rw [hkey] at hv'
      rw [classifySecretsProvider]
      have hfound : scalar (readTopLevelScalars
          (Document.block marked front entries ended).text) "encryptedkey".toList = some v' := hv'
      rw [hfound]
    · obtain ⟨v, hv, hstart⟩ := readScalar_line (hentries e he) (Or.inr hkey) hline
      obtain ⟨v', hv', hin⟩ := scalar_isSome (hpair e he v hv)
      have hsame : v' = v := by
        rw [hread, hkey] at hin
        obtain ⟨line, hmem, hin⟩ := List.mem_filterMap.mp hin
        obtain hmem | hmem := List.mem_append.mp hmem
        · exact absurd rfl (readScalar_inner (hfront line hmem) hin)
        · obtain ⟨other, hother, hmem⟩ := List.mem_flatMap.mp hmem
          obtain rfl | hmem := List.mem_cons.mp hmem
          · obtain rfl := honly other hother (readScalar_key hin).1.symm
            rw [hv] at hin
            exact (Prod.mk.inj (Option.some.inj hin)).2.symm
          · exact absurd rfl (readScalar_inner ((hentries other hother).inner line hmem) hin)
      rw [hkey, hsame] at hv'
      have hprovider : scalar (readTopLevelScalars
          (Document.block marked front entries ended).text) "secretsprovider".toList = some v := hv'
      rw [classifySecretsProvider]
      cases scalar (readTopLevelScalars (Document.block marked front entries ended).text)
          "encryptedkey".toList with
      | some key => rfl
      | none =>
        dsimp only
        rw [hprovider]
        dsimp only
        rw [if_pos (hstart text htext hscheme)]

end Mapping

section Audit

variable {format : Format} {world : World} {root : Bool} {entry : Val} {finding : Finding}
  {place : Option Str} {path text lossy : Str}

theorem auditStack_wrapped (hkind : (classifySecretsProvider text).1 = .gcpkms)
    (hplace : resolveConfigPath root entry = .ok (.at place path))
    (hfile : world.file place path = .file (some text) lossy)
    (h : auditStack format world root entry = .ok finding) :
    finding.judgement.status = .pending ∨ finding.judgement.status = .drift := by
  obtain ⟨project, -, h⟩ := Effects.bind_eq_ok_iff.mp h
  obtain ⟨stack, -, h⟩ := Effects.bind_eq_ok_iff.mp h
  obtain ⟨terminalState, -, h⟩ := Effects.bind_eq_ok_iff.mp h
  obtain ⟨repo, -, h⟩ := Effects.bind_eq_ok_iff.mp h
  obtain ⟨judgement, hjudged, h⟩ := Effects.bind_eq_ok_iff.mp h
  obtain rfl := Except.ok.inj h
  show judgement.status = .pending ∨ judgement.status = .drift
  obtain ⟨terminalState', -, hjudged⟩ := Effects.bind_eq_ok_iff.mp hjudged
  split_ifs at hjudged
  · obtain rfl := Except.ok.inj hjudged
    exact Or.inr rfl
  · obtain ⟨attestation, -, hjudged⟩ := Effects.bind_eq_ok_iff.mp hjudged
    cases attestation with
    | drift detail =>
      obtain rfl := Except.ok.inj hjudged
      exact Or.inr rfl
    | none =>
      obtain ⟨place', hplace', hjudged⟩ := Effects.bind_eq_ok_iff.mp hjudged
      rw [hplace] at hplace'
      obtain rfl := Except.ok.inj hplace'
      change judgeFile _ (world.file place path) = .ok judgement at hjudged
      rw [hfile] at hjudged
      obtain rfl := Except.ok.inj hjudged
      refine Or.inl ?_
      rw [judgeText]
      cases hclassified : classifySecretsProvider text with
      | mk kind detail =>
        rw [hclassified] at hkind
        obtain rfl : kind = .gcpkms := hkind
        rfl
    | made attested detail =>
      obtain ⟨place', hplace', hjudged⟩ := Effects.bind_eq_ok_iff.mp hjudged
      rw [hplace] at hplace'
      obtain rfl := Except.ok.inj hplace'
      change judgeAttested attested detail path (world.file place path) = .ok judgement at hjudged
      rw [hfile] at hjudged
      obtain rfl := Except.ok.inj hjudged
      have hagrees : Kind.gcpkms ∉ attestationAgreesWith attested := by
        cases attested <;> decide
      dsimp only
      rw [hkind, if_neg hagrees]
      exact Or.inr rfl

theorem exitCode_unfinished {findings : List Finding} {references : Option References}
    {sites : List SiteFinding} {undeclared : List Str} (hmem : finding ∈ findings)
    (h : finding.judgement.status = .pending ∨ finding.judgement.status = .drift) :
    exitCode findings references true sites undeclared = 1 := by
  have hcases : exitCode findings references true sites undeclared = 0 ∨
      exitCode findings references true sites undeclared = 1 := exitCode_cases
  obtain hzero | hone := hcases
  · obtain ⟨⟨hunmet, -⟩, -⟩ := exitCode_eq_zero_iff.mp hzero
    have hmet := of_decide_eq_true (unmet_eq_nil_iff.mp hunmet finding hmem)
    have hnever : ∀ status ∈ satisfiedBy finding.terminalState,
        status ≠ .pending ∧ status ≠ .drift := by
      rw [satisfiedBy]
      split_ifs <;> decide
    obtain h | h := h
    · exact absurd h (hnever _ hmet).1
    · exact absurd h (hnever _ hmet).2
  · exact hone

def Document.lines : Document → List Str
  | .block _ front entries _ => front ++ entries.flatMap Entry.lines
  | .flow _ _ => []

/-- A configuration of two entries in block style. -/
def configuration (content : Content) : Document :=
  .block true ["# a stack".toList]
    [⟨some '"', encryptedkey, [], content⟩,
      ⟨none, "config".toList, [], .other [] ["  edge:zone: example".toList]⟩] true

theorem noBreaks_of_all {lines : List Str}
    (h : (lines.all fun line => line.all fun c => !isLineBreak c) = true) :
    ∀ line ∈ lines, ∀ c ∈ line, isLineBreak c = false := by
  intro line hline c hc
  have hall := List.all_eq_true.mp (List.all_eq_true.mp h line hline) c hc
  rwa [Bool.not_eq_true'] at hall

theorem isInner_cons {c : Char} {rest : Str} (h : isSpace c = true ∨ c = '#') :
    IsInner (c :: rest) := by
  intro d hd
  rw [← Option.some.inj hd]
  exact h.imp_right Or.inl

theorem configuration_legal {content : Content} (hcontent : content.Legal)
    (hinner : ∀ line ∈ content.lines.2, IsInner line)
    (hbreaks : ((configuration content).lines.all fun line => line.all fun c => !isLineBreak c) =
      true) : (configuration content).Legal := by
  have hkeys : [encryptedkey, "config".toList].Nodup := by decide
  refine ⟨List.forall_mem_singleton.mpr (isInner_cons (Or.inr rfl)), ?_, hkeys,
    noBreaks_of_all hbreaks, fun h => (by cases h)⟩
  have hnone : ∀ c ∈ ([] : Str), isSpace c = true := fun c hc => absurd hc List.not_mem_nil
  refine List.forall_mem_cons.mpr ⟨⟨Or.inr (Or.inr rfl), hnone, hcontent, hinner⟩, ?_⟩
  refine List.forall_mem_singleton.mpr ⟨Or.inl rfl, hnone, trivial, ?_⟩
  exact List.forall_mem_singleton.mpr (isInner_cons (Or.inl rfl))

/-- An entry for the configuration, attested to be migrated. -/
def attestedEntry : Val :=
  .object [("project".toList, .string "edge".toList), ("stack".toList, .string "prod".toList),
    ("repo".toList, .string thisRepo), ("terminal_state".toList, .string "migrate".toList),
    ("config_path".toList, .string "Pulumi.prod.yaml".toList),
    ("attestation".toList, .object [("state".toList, .string "migrated".toList),
      ("date".toList, .string "2026-01-02".toList),
      ("evidence".toList, .string "stack export".toList)])]

def worldOf (text : Str) : World where
  inventory := none
  file := fun _ _ => .file (some text) text
  fullPath := fun _ path => path
  tree := fun _ => []
  repos := none

/-- A finding with a status that lets a run that asks for the migration pass. -/
def passesAs (status : Status) : Except Raised Finding → Bool
  | .ok f => decide (f.judgement.status = status ∧ exitCode [f] none true [] [] = 0)
  | .error _ => false

theorem of_passesAs {status : Status} {result : Except Raised Finding}
    (h : passesAs status result = true) : ∃ finding, result = .ok finding ∧
      finding.judgement.status = status ∧ exitCode [finding] none true [] [] = 0 := by
  cases result with
  | error e => cases h
  | ok finding => exact ⟨finding, rfl, of_decide_eq_true h⟩

end Audit

end SharedInfra.SecretsAudit
