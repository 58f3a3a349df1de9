import SharedInfra.DemoBuild.LexerCuts

/-!
# The judge of the raw candidate

`judge_text` of `judge_caddy_config.py` and its patterns, as searches from each place of the text.
The word characters beyond ASCII depend on the Unicode version: a `WordTable` says what every
version does.
-/

namespace SharedInfra.DemoBuild

open Python

/-- `\w`: the letters, digits and the underscore of ASCII, none of its other characters, and no
blank or byte order mark beyond it. -/
structure WordTable where
  isWord : Char → Bool
  ascii : ∀ c, c.toNat < 128 → isWord c = (c.isAlphanum || c == '_')
  blank : ∀ c, isSpace c = true → isWord c = false
  mark : isWord '\uFEFF' = false

section Patterns

variable (table : WordTable)

/-- `[\w.-]`. -/
def joins (c : Char) : Bool := table.isWord c || c == '.' || c == '-'

/-- `(?<![\w.-])word(?![\w.-])` from some place of the text on; `before` is what stands there. -/
def wordFrom (word : Str) (before : Option Char) : Str → Bool
  | [] => false
  | c :: rest =>
    (startsWith (c :: rest) word && !before.any (joins table) &&
        !((c :: rest).drop word.length).head?.any (joins table)) ||
      wordFrom word (some c) rest

def wordIn (word text : Str) : Bool := wordFrom table word none text

/-- `ph\s*\(`. -/
def phCall : Str → Bool
  | [] => false
  | c :: rest =>
    (startsWith (c :: rest) "ph".toList && ((rest.tail.dropWhile isSpace).head? == some '(')) ||
      phCall rest

/-- The work of `str.count`, after the characters of an occurrence that are still to be passed. -/
def countAfter (old : Str) : Nat → Str → Nat
  | _, [] => 0
  | skip + 1, _ :: rest => countAfter old skip rest
  | 0, c :: rest =>
    if startsWith (c :: rest) old then countAfter old (old.length - 1) rest + 1
    else countAfter old 0 rest

/-- `text.count(old)`, of a text that is not empty. -/
def count (text old : Str) : Nat := countAfter old 0 text

def isLineBlank (c : Char) : Bool := c == ' ' || c == '\t'

/-- `[A-Za-z0-9_-]`. -/
def isNameChar (c : Char) : Bool := c.isAlphanum || c == '_' || c == '-'

/-- What `IMPORT_LINE` captures behind the word `import`. -/
def importLine (behind : Str) : Option Str :=
  let named := behind.dropWhile isLineBlank
  let name := named.takeWhile isNameChar
  let ended := (named.dropWhile isNameChar).dropWhile isLineBlank
  if (behind.head?.any isLineBlank) && !name.isEmpty &&
      (ended.isEmpty || startsWith ended ['\n'] || startsWith ended ['\r', '\n']) then some name
  else none

/-- A line of the text, as `^` and `$` see it, begins with the name in brackets and a brace. -/
def defines (text name : Str) : Bool :=
  (splitOnChar '\n' text).any fun line =>
    let entry := line.dropWhile isLineBlank
    let header := '(' :: (name ++ [')'])
    startsWith entry header &&
      (((entry.drop header.length).dropWhile isLineBlank).head? == some '{')

/-- Every word `import` from some place of the text on is one of a snippet that it defines. -/
def importsFrom (text : Str) (before : Option Char) : Str → Bool
  | [] => true
  | c :: rest =>
    (if startsWith (c :: rest) "import".toList && !before.any table.isWord &&
          !((c :: rest).drop 6).head?.any table.isWord then
        match importLine ((c :: rest).drop 6) with
        | some name => defines text name
        | none => false
      else true) && importsFrom text (some c) rest

/-- The words of `FILE_READERS` and their codes. -/
def fileReaders : List (Str × Str) :=
  [("file_server", "text-file-server"), ("templates", "text-templates"), ("root", "text-root")]

def placeholderStart : Str := "\x7bfile."

/-- The reference to a file. -/
def placeholder (file : Str) : Str := placeholderStart ++ (file ++ ['}'])

def judgeText (text tokenFile : Str) : Option Str :=
  if occursIn "\x7b$".toList text then some "text-env-var".toList
  else if occursIn "\x7benv.".toList text then some "text-env-placeholder".toList
  else if wordIn table "expression".toList text || phCall text then some "text-expression".toList
  else
    match fileReaders.find? fun reader => wordIn table reader.1 text with
    | some reader => some reader.2
    | none =>
      if 1 < count text placeholderStart ∨
          count text placeholderStart ≠ count text (placeholder tokenFile) then
        some "text-file-placeholder".toList
      else if importsFrom table text none text then none
      else some "text-import".toList

end Patterns

/-!
# What the judge sees of the tokens

The judge counts the placeholders of the text and looks for words between edges.  In a text that
the lexer cuts into pieces (`Cuts`) a token that is such a word is found (`wordIn_of_cuts`), and no
more tokens hold a placeholder than the text does (`countP_le_of_cuts`).
-/

section Cuts

variable {text piece rest word : Str} {tokens : List Token} {token : Token}

theorem endsGap_append (front : Str) {gap : Str} (h : EndsGap gap) : EndsGap (front ++ gap) := by
  obtain ⟨before, c, rfl, hc⟩ := h
  exact ⟨front ++ before, c, (List.append_assoc front before [c]).symm, hc⟩

theorem Cuts.piece_of_mem (h : Cuts text tokens) (htoken : token ∈ tokens) :
    ∃ gap piece rest, text = gap ++ (piece ++ rest) ∧ EndsGap gap ∧ Spells piece token.text ∧
      StartsGap rest := by
  induction h with
  | nil gap => cases htoken
  | @cons gap piece rest first more hgap hpiece hrest _ ih =>
    rcases List.mem_cons.mp htoken with rfl | htoken
    · exact ⟨gap, piece, rest, rfl, hgap, hpiece, hrest⟩
    · obtain ⟨gap', piece', rest', rfl, hgap', hpiece', hrest'⟩ := ih htoken
      refine ⟨gap ++ (piece ++ gap'), piece', rest', by simp, ?_, hpiece', hrest'⟩
      rw [← List.append_assoc]
      exact endsGap_append _ hgap'

/-- Characters that nothing escapes and that no token begins or ends at. -/
def Plain (word : Str) : Prop := ∀ c ∈ word, isEdge c = false ∧ c ≠ '<'

theorem not_mem_of_plain (h : Plain word) {c : Char} (hc : isEdge c = true) : c ∉ word := by
  intro hmem
  rw [(h c hmem).1] at hc
  cases hc

theorem Spells.infix_piece (h : Spells piece text) (hplain : Plain word) (hne : word ≠ [])
    (hword : word <:+: text) : word <:+: piece := by
  obtain ⟨lead, body, rfl, hpiece, hlead⟩ := h.split
  have hbody : word <:+: body := by
    rcases hlead with rfl | rfl
    · exact hword
    · rcases List.infix_cons_iff.mp hword with hstart | hword
      · cases word with
        | nil => exact absurd rfl hne
        | cons c word =>
          obtain rfl := (List.cons_prefix_cons.mp hstart).1
          exact absurd List.mem_cons_self (not_mem_of_plain hplain rfl)
      · exact hword
  exact hpiece.infix_piece (not_mem_of_plain hplain rfl) (fun hmem => (hplain _ hmem).2 rfl) hbody

theorem Spells.infix_text (h : Spells piece text) (hplain : Plain word) (hword : word <:+: piece) :
    word <:+: text := by
  obtain ⟨lead, body, rfl, hpiece, -⟩ := h.split
  exact (hpiece.infix_text (not_mem_of_plain hplain rfl) hword).trans
    (List.suffix_append lead body).isInfix

theorem Spells.eq_of_plain (h : Spells piece word) (hplain : Plain word) : piece = word := by
  obtain ⟨lead, body, heq, hpiece, hlead⟩ := h.split
  have hlead : lead = [] := by
    rcases hlead with rfl | rfl
    · rfl
    · exact absurd (heq ▸ List.mem_cons_self) (not_mem_of_plain hplain (c := '\\') rfl)
  subst hlead
  obtain rfl : word = body := heq
  exact hpiece.eq_of_plain (not_mem_of_plain hplain rfl) fun hmem => (hplain _ hmem).2 rfl

end Cuts

section Words

variable {table : WordTable} {word text a b : Str} {tokens : List Token} {token : Token}

theorem isSpace_of_isGoSpace {c : Char} (h : isGoSpace c = true) : isSpace c = true := by
  simp only [isGoSpace, isSpace, Bool.or_eq_true, Bool.and_eq_true, decide_eq_true_eq,
    beq_iff_eq] at h ⊢
  omega

theorem joins_of_isEdge {c : Char} (h : isEdge c = true) : joins table c = false := by
  simp only [isEdge, Bool.or_eq_true, beq_iff_eq] at h
  rcases h with (((h | rfl) | rfl) | rfl) | rfl
  · have hspace := isSpace_of_isGoSpace h
    have hdot : c ≠ '.' := by
      rintro rfl
      cases h
    have hdash : c ≠ '-' := by
      rintro rfl
      cases h
    simp [joins, table.blank c hspace, hdot, hdash]
  · rw [joins, table.ascii _ (by decide)]
    rfl
  · rw [joins, table.ascii _ (by decide)]
    rfl
  · rw [joins, table.ascii _ (by decide)]
    rfl
  · rw [joins, table.mark]
    rfl

theorem wordFrom_of_apart (hword : word ≠ []) (hb : b.head?.any (joins table) = false)
    (before : Option Char) (ha : (before.toList ++ a).getLast?.any (joins table) = false) :
    wordFrom table word before (a ++ (word ++ b)) = true := by
  induction a generalizing before with
  | nil =>
    obtain ⟨c, rest, rfl⟩ := List.exists_cons_of_ne_nil hword
    have hstart : startsWith (c :: (rest ++ b)) (c :: rest) = true :=
      startsWith_iff.mpr (List.prefix_append (c :: rest) b)
    have hdrop : (c :: (rest ++ b)).drop (c :: rest).length = b := by simp
    have hbefore : before.any (joins table) = false := by
      cases before with
      | none => rfl
      | some d => exact ha
    rw [List.nil_append, List.cons_append, wordFrom, hstart, hdrop, hb, hbefore]
    rfl
  | cons c a ih =>
    rw [List.cons_append, wordFrom, ih (some c), Bool.or_true]
    cases before with
    | none => exact ha
    | some d => exact ha

theorem wordIn_of_cuts (h : Cuts ('\n' :: text) tokens) (htoken : token ∈ tokens)
    (hplain : Plain token.text) (hne : token.text ≠ []) : wordIn table token.text text = true := by
  obtain ⟨gap, piece, rest, htext, hgap, hpiece, hrest⟩ := h.piece_of_mem htoken
  obtain rfl := hpiece.eq_of_plain hplain
  have hhead : rest.head?.any (joins table) = false := by
    rcases hrest with rfl | ⟨c, more, rfl, hc⟩
    · rfl
    · exact joins_of_isEdge hc
  obtain ⟨front, c, rfl, hc⟩ := hgap
  cases front with
  | nil =>
    obtain ⟨-, rfl⟩ := List.cons.inj htext
    exact wordFrom_of_apart (a := []) hne hhead none rfl
  | cons d front =>
    obtain ⟨-, rfl⟩ := List.cons.inj htext
    refine wordFrom_of_apart (a := front ++ [c]) hne hhead none ?_
    simp [joins_of_isEdge hc]

end Words

section Counting

variable {c : Char} {old s t : Str}

theorem infix_of_countAfter {skip : Nat} (h : 0 < countAfter old skip s) : old <:+: s := by
  induction s generalizing skip with
  | nil => cases skip <;> cases h
  | cons c s ih =>
    cases skip with
    | succ skip => exact (ih h).trans (List.suffix_cons c s).isInfix
    | zero =>
      rw [countAfter] at h
      split_ifs at h with hstart
      · exact (startsWith_iff.mp hstart).isInfix
      · exact (ih h).trans (List.suffix_cons c s).isInfix

variable {first : Char} {tail : Str}

theorem countAfter_skip {skip : Nat} (h : ∀ c ∈ s.take skip, c ≠ first) :
    countAfter (first :: tail) skip s = countAfter (first :: tail) 0 s := by
  induction s generalizing skip with
  | nil => cases skip <;> rfl
  | cons c s ih =>
    cases skip with
    | zero => rfl
    | succ skip =>
      rw [List.take_succ_cons, List.forall_mem_cons] at h
      have hno : ¬ startsWith (c :: s) (first :: tail) = true := by
        intro hstart
        exact h.1 (List.cons_prefix_cons.mp (startsWith_iff.mp hstart)).1.symm
      rw [countAfter, countAfter, if_neg hno, ih h.2]

theorem count_cons (htail : first ∉ tail) : count (c :: s) (first :: tail) =
    count s (first :: tail) + if startsWith (c :: s) (first :: tail) then 1 else 0 := by
  rw [count, countAfter]
  split_ifs with hstart
  · obtain ⟨rest, hrest⟩ := (List.cons_prefix_cons.mp (startsWith_iff.mp hstart)).2
    rw [List.length_cons, Nat.add_sub_cancel, countAfter_skip, count]
    rw [← hrest, List.take_left']
    · intro c hc heq
      exact htail (heq ▸ hc)
    · rfl
  · rfl

theorem count_append (htail : first ∉ tail) :
    count s (first :: tail) + count t (first :: tail) ≤ count (s ++ t) (first :: tail) := by
  induction s with
  | nil => simp [count, countAfter]
  | cons c s ih =>
    rw [List.cons_append, count_cons htail, count_cons htail]
    by_cases hstart : startsWith (c :: s) (first :: tail) = true
    · have hmore : startsWith (c :: (s ++ t)) (first :: tail) = true :=
        startsWith_iff.mpr
          ((startsWith_iff.mp hstart).trans (List.prefix_append (c :: s) t))
      rw [if_pos hstart, if_pos hmore]
      omega
    · rw [if_neg hstart]
      split_ifs <;> omega

theorem count_pos (htail : first ∉ tail) (h : first :: tail <:+: s) :
    0 < count s (first :: tail) := by
  induction s with
  | nil => exact absurd (List.infix_nil.mp h) (by simp)
  | cons c s ih =>
    rw [count_cons htail]
    rcases List.infix_cons_iff.mp h with hstart | h
    · rw [if_pos (startsWith_iff.mpr hstart)]
      exact Nat.succ_pos _
    · exact Nat.lt_of_lt_of_le (ih h) (Nat.le_add_right _ _)

theorem eq_of_count_le_one (htail : first ∉ tail) {a b a' b' : Str}
    (hcount : count s (first :: tail) ≤ 1) (h : s = a ++ (first :: tail ++ b))
    (h' : s = a' ++ (first :: tail ++ b')) : a = a' := by
  have hmain : ∀ a b a' b' : Str, s = a ++ (first :: tail ++ b) →
      s = a' ++ (first :: tail ++ b') → a.length ≤ a'.length → a = a' := by
    intro a b a' b' h h' hle
    obtain ⟨more, rfl⟩ : a <+: a' :=
      List.prefix_of_prefix_length_le ⟨_, h.symm⟩ ⟨_, h'.symm⟩ hle
    cases more with
    | nil => rw [List.append_nil]
    | cons d more =>
      -- two places are counted twice
      have hsame := h.symm.trans h'
      rw [List.append_assoc] at hsame
      have hbehind := List.append_cancel_left hsame
      rw [List.cons_append, List.cons_append] at hbehind
      obtain ⟨rfl, hrest⟩ := List.cons.inj hbehind
      have hfirst : startsWith (first :: (tail ++ b)) (first :: tail) = true :=
        startsWith_iff.mpr (List.prefix_append (first :: tail) b)
      have hsecond : 0 < count (tail ++ b) (first :: tail) :=
        count_pos htail ⟨more, b', by rw [List.append_assoc]; exact hrest.symm⟩
      have htwo := count_append (s := a) (t := first :: (tail ++ b)) htail
      rw [count_cons htail (c := first), if_pos hfirst] at htwo
      rw [h, List.cons_append] at hcount
      omega
  rcases Nat.le_total a.length a'.length with hle | hle
  · exact hmain a b a' b' h h' hle
  · exact (hmain a' b' a b h' h hle).symm

end Counting

section Placeholders

variable {text tokenFile : Str} {tokens : List Token} {token : Token}

def holdsPlaceholder (token : Token) : Bool := occursIn placeholderStart token.text

def holdsOwn (tokenFile : Str) (token : Token) : Bool :=
  occursIn (placeholder tokenFile) token.text

theorem placeholderStart_eq : placeholderStart = '{' :: "file.".toList := rfl

theorem placeholderTail : '{' ∉ "file.".toList := by decide

theorem plain_placeholderStart : Plain placeholderStart := by
  have hall : (placeholderStart.all fun c => !isEdge c && c != '<') = true := rfl
  intro c hc
  simpa using List.all_eq_true.mp hall c hc

theorem countP_le_of_cuts (h : Cuts text tokens) :
    tokens.countP holdsPlaceholder ≤ count text placeholderStart := by
  induction h with
  | nil gap => exact Nat.zero_le _
  | @cons gap piece rest token tokens _ hpiece _ _ ih =>
    rw [placeholderStart_eq] at ih ⊢
    have hgap := count_append (s := gap) (t := piece ++ rest) placeholderTail
    have hrest := count_append (s := piece) (t := rest) placeholderTail
    rw [List.countP_cons]
    split_ifs with hholds
    · have hinfix := hpiece.infix_piece plain_placeholderStart (by decide)
        (occursIn_iff.mp hholds)
      have hpos := count_pos placeholderTail hinfix
      omega
    · omega

theorem holdsOwn_of_cuts (h : Cuts text tokens) (htoken : token ∈ tokens)
    (hone : count text placeholderStart ≤ 1) (hown : placeholder tokenFile <:+: text)
    (hplain : Plain tokenFile) (hholds : holdsPlaceholder token = true) :
    holdsOwn tokenFile token = true := by
  obtain ⟨gap, piece, rest, htext, -, hpiece, hrest⟩ := h.piece_of_mem htoken
  obtain ⟨a, b, hab⟩ :=
    hpiece.infix_piece plain_placeholderStart (by decide) (occursIn_iff.mp hholds)
  obtain ⟨a', b', hab'⟩ := hown
  have hfirst : text = (gap ++ a) ++ (placeholderStart ++ (b ++ rest)) := by
    rw [htext, ← hab]
    simp
  have hsecond : text = a' ++ (placeholderStart ++ ((tokenFile ++ ['}']) ++ b')) := by
    rw [← hab', placeholder]
    simp
  have hsame : gap ++ a = a' := eq_of_count_le_one placeholderTail hone hfirst hsecond
  rw [hsame] at hfirst
  have hbehind : b ++ rest = (tokenFile ++ ['}']) ++ b' :=
    List.append_cancel_left (List.append_cancel_left (hfirst.symm.trans hsecond))
  have hall : Plain (tokenFile ++ ['}']) := by
    refine List.forall_mem_append.mpr ⟨hplain, List.forall_mem_singleton.mpr ?_⟩
    decide
  -- the file name cannot end the token
  have hinside : tokenFile ++ ['}'] <+: b := by
    rcases List.append_eq_append_iff.mp hbehind with ⟨more, heq, hmore⟩ | ⟨more, rfl, -⟩
    · cases more with
      | nil => exact ⟨[], by rw [heq]; simp⟩
      | cons c more =>
        rcases hrest with rfl | ⟨d, others, rfl, hd⟩
        · cases hmore
        · obtain rfl := (List.cons.inj hmore).1
          exact absurd (heq ▸ List.mem_append_right b List.mem_cons_self)
            (not_mem_of_plain hall hd)
    · exact List.prefix_append _ more
  obtain ⟨more, rfl⟩ := hinside
  have hplaceholder : Plain (placeholder tokenFile) :=
    List.forall_mem_append.mpr ⟨plain_placeholderStart, hall⟩
  refine occursIn_iff.mpr (hpiece.infix_text hplaceholder ⟨a, more, ?_⟩)
  rw [← hab, placeholder]
  simp

end Placeholders

end SharedInfra.DemoBuild
