import SharedInfra.Python.Text

/-!
# `shlex.split`

Python's `shlex.split(s)` with its defaults: POSIX rules, no comments,
`whitespace_split`.  One recursion over the characters carries the lexer's
state; the result is `none` where Python raises `ValueError` (no closing
quotation, no escaped character).
-/

namespace SharedInfra.Python

/-- The states of the POSIX lexer: between words, in a word, in a quotation, after
a backslash (with the quotation it stands in, if any). -/
inductive LexState where
  | space
  | word
  | quote (mark : Char)
  | escape (inside : Option Char)
deriving DecidableEq

/-- `shlex.whitespace`. -/
def isShlexSpace (c : Char) : Bool :=
  c == ' ' || c == '\t' || c == '\r' || c == '\n'

/-- `shlex.quotes`. -/
def isShlexQuote (c : Char) : Bool :=
  c == '\'' || c == '"'

def emitWord (token : Str) (quoted : Bool) (rest : Option (List Str)) : Option (List Str) :=
  if token.isEmpty && !quoted then rest else rest.map (token :: ·)

/-- `shlex.read_token` to the end of the text.  `token` is the word collected so
far and `quoted` says whether a quotation was part of it. -/
def shlexFrom : LexState → Str → Bool → Str → Option (List Str)
  | .space, token, quoted, [] => emitWord token quoted (some [])
  | .word, token, quoted, [] => emitWord token quoted (some [])
  | .quote _, _, _, [] => none
  | .escape _, _, _, [] => none
  | .space, token, quoted, c :: cs =>
    if isShlexSpace c then shlexFrom .space token quoted cs
    else if c = '\\' then shlexFrom (.escape none) token quoted cs
    else if isShlexQuote c then shlexFrom (.quote c) token quoted cs
    else shlexFrom .word (token ++ [c]) quoted cs
  | .word, token, quoted, c :: cs =>
    if isShlexSpace c then emitWord token quoted (shlexFrom .space [] false cs)
    else if isShlexQuote c then shlexFrom (.quote c) token quoted cs
    else if c = '\\' then shlexFrom (.escape none) token quoted cs
    else shlexFrom .word (token ++ [c]) quoted cs
  | .quote mark, token, _, c :: cs =>
    if c = mark then shlexFrom .word token true cs
    else if c = '\\' ∧ mark = '"' then shlexFrom (.escape (some mark)) token true cs
    else shlexFrom (.quote mark) (token ++ [c]) true cs
  | .escape none, token, quoted, c :: cs => shlexFrom .word (token ++ [c]) quoted cs
  | .escape (some mark), token, quoted, c :: cs =>
    -- Inside double quotes a backslash is kept unless it escapes itself or the mark.
    if c ≠ '\\' ∧ c ≠ mark then shlexFrom (.quote mark) (token ++ ['\\', c]) quoted cs
    else shlexFrom (.quote mark) (token ++ [c]) quoted cs

/-- `shlex.split`, or `none` where it raises `ValueError`. -/
def shlexSplit (s : Str) : Option (List Str) := shlexFrom .space [] false s

/-- A character `shlex` gives no meaning to. -/
def isPlainChar (c : Char) : Bool := !isShlexSpace c && !isShlexQuote c && c != '\\'

theorem shlexFrom_word_plain {w : Str} (h : ∀ c ∈ w, isPlainChar c = true) (token : Str)
    (quoted : Bool) (rest : Str) :
    shlexFrom .word token quoted (w ++ rest) = shlexFrom .word (token ++ w) quoted rest := by
  induction w generalizing token with
  | nil => simp
  | cons c w ih =>
    have hc := h c (by simp)
    simp only [isPlainChar, Bool.and_eq_true, Bool.not_eq_true', bne_iff_ne, ne_eq] at hc
    obtain ⟨⟨hspace, hquote⟩, hback⟩ := hc
    rw [List.cons_append, shlexFrom, if_neg (by simp [hspace]), if_neg (by simp [hquote]),
      if_neg hback, ih (fun d hd => h d (List.mem_cons_of_mem _ hd)) (token ++ [c])]
    simp

theorem shlexFrom_space_plain {w : Str} (hne : w ≠ []) (h : ∀ c ∈ w, isPlainChar c = true)
    (rest : Str) :
    shlexFrom .space [] false (w ++ rest) = shlexFrom .word w false rest := by
  cases w with
  | nil => exact absurd rfl hne
  | cons c w =>
    have hc := h c (by simp)
    simp only [isPlainChar, Bool.and_eq_true, Bool.not_eq_true', bne_iff_ne, ne_eq] at hc
    obtain ⟨⟨hspace, hquote⟩, hback⟩ := hc
    rw [List.cons_append, shlexFrom, if_neg (by simp [hspace]), if_neg hback,
      if_neg (by simp [hquote]),
      shlexFrom_word_plain fun d hd => h d (List.mem_cons_of_mem _ hd)]
    rfl

theorem shlexSplit_joinWith {words : List Str}
    (h : ∀ w ∈ words, w ≠ [] ∧ ∀ c ∈ w, isPlainChar c = true) :
    shlexSplit (joinWith " " words) = some words := by
  induction words with
  | nil => rfl
  | cons w words ih =>
    obtain ⟨hne, hplain⟩ := h w (by simp)
    have hempty : w.isEmpty = false := by simpa using hne
    have hrest := ih fun v hv => h v (List.mem_cons_of_mem _ hv)
    cases words with
    | nil =>
      have hword := shlexFrom_space_plain hne hplain []
      rw [List.append_nil] at hword
      rw [joinWith, shlexSplit, hword, shlexFrom, emitWord, hempty]
      rfl
    | cons v words =>
      rw [joinWith_cons_cons, List.append_assoc, shlexSplit, shlexFrom_space_plain hne hplain]
      show shlexFrom .word w false (' ' :: joinWith " " (v :: words)) = _
      rw [shlexFrom, if_pos (by decide), ← shlexSplit, hrest, emitWord, hempty]
      rfl

example : shlexSplit "-A INPUT -m comment --comment \"a b\" ! -i 'x y'" =
    some (["-A", "INPUT", "-m", "comment", "--comment", "a b", "!", "-i", "x y"] : List Str) := by
  decide

example : shlexSplit "-A INPUT --comment \"open" = none := by decide

end SharedInfra.Python
