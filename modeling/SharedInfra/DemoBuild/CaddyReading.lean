import SharedInfra.Python.Replace
import SharedInfra.Python.Lines

/-!
# How Caddy reads a Caddyfile

The environment is put in for each `{$NAME}`, the text is cut into tokens (quotes, backquotes,
comments, heredocs), and each import directive is replaced by the snippet of that name or, if there
is none, by the lines of the files that its argument names.  `reading` is what stands there after
any number of rounds of replacement.
-/

namespace SharedInfra.DemoBuild

open Python

/-- A token, whether it was quoted and whether a line begins with it. -/
structure Token where
  text : Str
  quoted : Bool
  first : Bool
deriving DecidableEq

inductive LexMode where
  | bare
  | comment
  | quoted
  | backquoted
  | heredoc (marker : Str)
deriving DecidableEq

/-- The lexer within a token or before one. -/
structure LexState where
  val : Str
  mode : LexMode
  escaped : Bool
  heredocEscaped : Bool
  newLine : Bool

/-- The lexer behind a token. -/
def LexState.start (newLine : Bool) : LexState := ⟨[], .bare, false, false, newLine⟩

/-- `unicode.IsSpace`. -/
def isGoSpace (c : Char) : Bool :=
  let n := c.toNat
  (9 ≤ n && n ≤ 13) || n == 32 || n == 0x85 || n == 0xa0 || n == 0x1680 ||
    (0x2000 ≤ n && n ≤ 0x200a) || n == 0x2028 || n == 0x2029 || n == 0x202f || n == 0x205f ||
      n == 0x3000

/-- A letter of a heredoc marker. -/
def isMarkerChar (c : Char) : Bool := c.isAlphanum || c == '_' || c == '-'

/-- A character outside quotes: a blank ends a token, and the end of a line a comment. -/
def bareStep (st : LexState) (c : Char) : LexState × Option Token :=
  if isGoSpace c then
    if c = '\r' then (st, none)
    else
      let ended := c == '\n' && !st.escaped
      if st.val = [] then
        ({ st with
            escaped := c != '\n' && st.escaped
            mode := if c = '\n' then .bare else st.mode
            newLine := st.newLine || ended }, none)
      else (LexState.start ended, some ⟨st.val, false, st.newLine⟩)
  else if st.mode = .comment then (st, none)
  else if st.val = [] ∧ c = '#' then ({ st with mode := .comment }, none)
  else if st.val = [] ∧ c = '"' then ({ st with mode := .quoted }, none)
  else if st.val = [] ∧ c = '\x60' then ({ st with mode := .backquoted }, none)
  else if st.escaped then
    if c = '<' then
      ({ st with val := st.val ++ ['<'], escaped := false, heredocEscaped := true }, none)
    else ({ st with val := st.val ++ ['\\', c], escaped := false }, none)
  else ({ st with val := st.val ++ [c] }, none)

/-- A character behind `<<`, up to the end of the line that opens a heredoc. -/
def headStep (st : LexState) (c : Char) : Option (LexState × Option Token) :=
  if c = ' ' then some (LexState.start false, some ⟨st.val, false, st.newLine⟩)
  else if c = '\r' then some (st, none)
  else if c = '\n' then
    let marker := st.val.drop 2
    if marker ≠ [] ∧ marker.all isMarkerChar = true then
      some ({ st with val := [], mode := .heredoc marker }, none)
    else none
  else some ({ st with val := st.val ++ [c] }, none)

def withoutMargin (margin line : Str) : Option Str :=
  if line = [] ∨ line = ['\r'] then some []
  else if startsWith line margin then some ((line.drop margin.length).filter fun c => c != '\r')
  else none

def finalizeHeredoc (val marker : Str) : Option Str :=
  let lines := splitOnChar '\n' val
  let last := lines.getLastD []
  let margin := last.take (last.length - marker.length)
  (lines.dropLast.mapM (withoutMargin margin)).map (joinWith ['\n'])

def lexStep (st : LexState) (c : Char) : Option (LexState × Option Token) :=
  match st.mode with
  | .heredoc marker =>
    if endsWith (st.val ++ [c]) marker then
      (finalizeHeredoc (st.val ++ [c]) marker).map fun text =>
        (LexState.start false, some ⟨text, true, st.newLine⟩)
    else some ({ st with val := st.val ++ [c] }, none)
  | .backquoted =>
    if c = '\x60' then some (LexState.start false, some ⟨st.val, true, st.newLine⟩)
    else some ({ st with val := st.val ++ [c] }, none)
  | .quoted =>
    if st.escaped then
      let kept : Str := if c = '"' then [c] else ['\\', c]
      some ({ st with val := st.val ++ kept, escaped := false }, none)
    else if c = '\\' then some ({ st with escaped := true }, none)
    else if c = '"' then some (LexState.start false, some ⟨st.val, true, st.newLine⟩)
    else some ({ st with val := st.val ++ [c] }, none)
  | _ =>
    if !st.heredocEscaped && startsWith st.val ['<', '<'] then headStep st c
    else if !st.escaped && c == '\\' then some ({ st with escaped := true }, none)
    else some (bareStep st c)

/-- What is left at the end of the text. -/
def finish (st : LexState) : Option (List Token) :=
  if st.val = [] then some []
  else
    match st.mode with
    | .heredoc _ => none
    | _ => some [⟨st.val, false, st.newLine⟩]

def lexFrom (st : LexState) : Str → Option (List Token)
  | [] => finish st
  | c :: rest =>
    match lexStep st c with
    | none => none
    | some (st', token) => (lexFrom st' rest).map fun tokens => token.toList ++ tokens

/-- The tokens of a text, a byte order mark before it left out. -/
def lex (text : Str) : Option (List Token) :=
  if text.head? = some '\uFEFF' then lexFrom (LexState.start true) text.tail
  else lexFrom (LexState.start true) text

/-- Each `{$NAME}` replaced by what the environment has for the text between the braces. -/
def replaceEnvFrom (env : Str → Str) : Nat → Str → Str
  | 0, s => s
  | _ + 1, [] => []
  | turns + 1, c :: rest =>
    if c = '{' ∧ rest.head? = some '$' then
      match rest.tail.dropWhile (· != '}') with
      | [] => c :: rest
      | _ :: after =>
        let name := rest.tail.takeWhile (· != '}')
        (if name = [] then ['{', '$', '}'] else env name) ++ replaceEnvFrom env turns after
    else c :: replaceEnvFrom env turns rest

def replaceEnv (env : Str → Str) (text : Str) : Str := replaceEnvFrom env text.length text

section Lines

abbrev Line := List Token

/-- The tokens, a line at a time. -/
def groupLines : List Token → List Line
  | [] => []
  | token :: rest =>
    match groupLines rest with
    | [] => [[token]]
    | line :: lines =>
      match line.head? with
      | some next => if next.first then [token] :: line :: lines else (token :: line) :: lines
      | none => [token] :: line :: lines

variable (env : Str → Str) (files : Str → List Str)

def linesOf (text : Str) : Option (List Line) := (lex (replaceEnv env text)).map groupLines

def isOpen (token : Token) : Bool := token.text == ['{'] && !token.quoted

def isClose (token : Token) : Bool := token.text == ['}'] && !token.quoted

def snippetName (line : Line) : Option Str :=
  match line with
  | [name, brace] =>
    if startsWith name.text ['('] && endsWith name.text [')'] && isOpen brace then
      some (name.text.tail.dropLast)
    else none
  | _ => none

/-- Each line with the snippet it belongs to; the line that opens a snippet leaves an empty one. -/
def placeLines : Nat → Option Str → List Line → List (Option Str × Line)
  | _, _, [] => []
  | depth, inside, line :: rest =>
    match depth, snippetName line with
    | 0, some name => (some name, []) :: placeLines 1 (some name) rest
    | _, _ =>
      let depth' := depth + line.countP isOpen - line.countP isClose
      if depth' = 0 then
        match inside with
        | some _ => placeLines 0 none rest
        | none => (none, line) :: placeLines 0 none rest
      else (inside, line) :: placeLines depth' inside rest

/-- The lines outside snippets, or those of a snippet. -/
def linesAt (placed : List (Option Str × Line)) (place : Option Str) : List Line :=
  (placed.filter fun line => line.1 = place).map Prod.snd

end Lines

section Imports

variable (env : Str → Str) (files : Str → List Str) (placed : List (Option Str × Line))

def importName : Line → Option Str
  | directive :: name :: _ => if directive.text = "import".toList then some name.text else none
  | _ => none

def Defined (name : Str) : Prop := some name ∈ placed.map Prod.fst

instance (name : Str) : Decidable (Defined placed name) := by
  unfold Defined
  infer_instance

def fileLines (name : Str) : Option (List Line) :=
  ((files name).mapM (linesOf env)).map List.flatten

def replaceLine (line : Line) : Option (List Line) :=
  match importName line with
  | none => some [line]
  | some name =>
    if Defined placed name then some (linesAt placed (some name)) else fileLines env files name

/-- The lines after so many rounds of replacement. -/
def rounds : Nat → Option (List Line)
  | 0 => some (linesAt placed none)
  | n + 1 =>
    (rounds n).bind fun lines => (lines.mapM (replaceLine env files placed)).map List.flatten

def reading (text : Str) (n : Nat) : Option (List Line) :=
  (linesOf env text).bind fun lines => rounds env files (placeLines 0 none lines) n

end Imports

end SharedInfra.DemoBuild
