import SharedInfra.AnsibleRuntime.LockCheck

/-!
# How pip reads a requirements file

pip's `req_file.py` as `check_lock_is_hashed` describes it: the choice of the
encoding, `join_lines`, comments, environment variables and the split of a line
into a requirement and options.  `named` is Python's `bytes.decode` under an
encoding's name, `fallback` the decoding by the locale and `getenv` the
environment.
-/

namespace SharedInfra.AnsibleRuntime

open Python Sequences

/-- The byte-order marks pip obeys, in its order, with the encodings they choose. -/
def pipMarks : List (Bytes × Str) :=
  [([0xef, 0xbb, 0xbf], "utf-8"), ([0xff, 0xfe, 0, 0], "utf-32"),
    ([0, 0, 0xfe, 0xff], "utf-32-be"), ([0xff, 0xfe, 0, 0], "utf-32-le"),
    ([0xff, 0xfe], "utf-16"), ([0xfe, 0xff], "utf-16-be"), ([0xff, 0xfe], "utf-16-le")]

def decodeReqFile (named : Str → Bytes → Option Str) (fallback : Bytes → Option Str)
    (data : Bytes) : Option Str :=
  match pipMarks.find? fun mark => mark.1.isPrefixOf data with
  | some (mark, encoding) => named encoding (data.drop mark.length)
  | none =>
    match declaredEncoding data with
    | some encoding => named (encoding.map fun b => Char.ofNat b.toNat) data
    | none => (utf8Decode data).or (fallback data)

/-- The loop of `join_lines`, with the number of the first joined line and the pieces. -/
def joinLinesFrom : Nat → Nat → List Str → List Str → List (Nat × Str)
  | _, primary, newLine, [] => if newLine.isEmpty then [] else [(primary, newLine.flatten)]
  | number, primary, newLine, line :: rest =>
    if !endsWith line ['\\'] || isCommentLine line then
      let line := if isCommentLine line then ' ' :: line else line
      let more := joinLinesFrom (number + 1) primary [] rest
      if newLine.isEmpty then (number, line) :: more
      else (primary, (newLine ++ [line]).flatten) :: more
    else
      joinLinesFrom (number + 1) (if newLine.isEmpty then number else primary)
        (newLine ++ [stripBackslashes line]) rest

/-- `join_lines(enumerate(lines, start=1))`. -/
def joinLines (lines : List Str) : List (Nat × Str) := joinLinesFrom 1 0 [] lines

/-- `COMMENT_RE.sub("", line)` from some place of the line on. -/
def stripCommentFrom : Bool → Str → Str
  | _, [] => []
  | start, c :: rest =>
    if (start && c == '#') || (isSpace c && isCommentLine (c :: rest)) then []
    else c :: stripCommentFrom false rest

def stripComment (line : Str) : Str := stripCommentFrom true line

def ignoreComments (lines : List (Nat × Str)) : List (Nat × Str) :=
  lines.filterMap fun line =>
    let kept := strip (stripComment line.2)
    if kept.isEmpty then none else some (line.1, kept)

def isVarChar (c : Char) : Bool := c.isUpper || c.isDigit || c == '_'

/-- What `ENV_VAR_RE` names at the start of a text. -/
def varHere : Str → Option Str
  | '$' :: '{' :: rest =>
    let name := rest.takeWhile isVarChar
    if !name.isEmpty && (rest.dropWhile isVarChar).head? == some '}' then some name else none
  | _ => none

/-- `ENV_VAR_RE.findall(line)`: no match holds a second `$`, so no two of them overlap. -/
def findVars (line : Str) : List Str := line.tails.filterMap varHere

/-- The loop of `str.replace`. -/
def replaceFrom (old new : Str) : Nat → Str → Str
  | 0, s => s
  | _, [] => []
  | turns + 1, c :: rest =>
    if startsWith (c :: rest) old then
      new ++ replaceFrom old new turns ((c :: rest).drop old.length)
    else c :: replaceFrom old new turns rest

/-- `expand_env_variables` on one line. -/
def expandEnv (getenv : Str → Option Str) (line : Str) : Str :=
  (findVars line).foldl (fun line name =>
    match getenv name with
    | none | some [] => line
    | some value => replaceFrom (['$', '{'] ++ name ++ ['}']) value line.length line) line

def preprocess (getenv : Str → Option Str) (content : Str) : List (Nat × Str) :=
  (ignoreComments (joinLines (splitlines content))).map fun line =>
    (line.1, expandEnv getenv line.2)

def isArg (token : Str) : Bool := !startsWith token ['-']

def breakArgsOptions (line : Str) : Str × Str :=
  let tokens := splitOnChar ' ' line
  (joinWith [' '] (tokens.takeWhile isArg), joinWith [' '] (tokens.dropWhile isArg))

end SharedInfra.AnsibleRuntime
