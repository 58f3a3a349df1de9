import SharedInfra.Python.Utf8
import SharedInfra.Sequences.Pattern

/-!
# The check of a lock

`check_lock_is_hashed` of `install_runtime.py` with the functions it calls: the
encoding, the options on each physical line, and the logical lines, each of which
must be one pinned requirement with hashes.
-/

namespace SharedInfra.AnsibleRuntime

open Python Sequences

/-- The reasons of a refusal that the install gives. -/
inductive Reason where
  | lockNotRegular | lockTooBig | lockNotText | lockEncoding | lockHash | lockEmpty | lockUnhashed
  | fingerprint | root | link | venv | pip | noEngine
deriving DecidableEq

structure Refusal where
  reason : Reason
  detail : Str
deriving DecidableEq

section Patterns

def isAsciiWord (c : Char) : Bool := c.isAlphanum || c == '_'

def isNameChar (c : Char) : Bool := c.isAlphanum || c == '.' || c == '_' || c == '-'

def isExtraChar (c : Char) : Bool := isNameChar c || c == ','

def isVersionChar (c : Char) : Bool :=
  c.isAlphanum || c == '.' || c == '!' || c == '+' || c == '_' || c == '-'

/-- `MARKER_CHARS`. -/
def isMarkerChar (c : Char) : Bool :=
  c.isAlphanum || c == '_' || c == '.' || c == '\'' || c == '"' || c == ' ' || c == '=' ||
    c == '!' || c == '<' || c == '>' || c == '(' || c == ')'

def isHexDigit (c : Char) : Bool := c.isDigit || (decide ('a' ≤ c) && decide (c ≤ 'f'))

def isBlank (c : Char) : Bool := c == ' '

open Pattern

def spaces : Pattern Char := star (one isBlank)

/-- `[A-Za-z0-9][A-Za-z0-9._-]*(?:\[[A-Za-z0-9._,-]+\])?`. -/
def namePattern : Pattern Char :=
  seq (one Char.isAlphanum) (seq (star (one isNameChar))
    (opt (seq (literal ['[']) (seq (plus (one isExtraChar)) (literal [']'])))))

/-- `==[A-Za-z0-9.!+_-]+`. -/
def versionPattern : Pattern Char := seq (literal ['=', '=']) (plus (one isVersionChar))

/-- `(?: *; *MARKER_CHARS+)?`. -/
def markerPattern : Pattern Char :=
  opt (seq spaces (seq (literal [';']) (seq spaces (plus (one isMarkerChar)))))

def hashOption : Pattern Char :=
  seq (literal "--hash=sha256:".toList) ((one isHexDigit).times 64)

def requirement : Pattern Char :=
  seq namePattern (seq versionPattern (seq markerPattern
    (plus (seq (plus (one isBlank)) hashOption))))

end Patterns

/-- `COMMENT_LINE.match(line) is not None`, for a line without a newline. -/
def isCommentLine (line : Str) : Bool := (lstrip line).head? == some '#'

/-- `line.strip("\\")`. -/
def stripBackslashes (line : Str) : Str :=
  (line.dropWhile (· == '\\')).rdropWhile (· == '\\')

/-- The loop of `logical_lines`, with the start and the text of the pending line. -/
def logicalLinesFrom : Nat → Option (Nat × Str) → List Str → List (Nat × Str)
  | _, none, [] => []
  | _, some (start, pending), [] =>
    if (strip pending).isEmpty then [] else [(start, strip pending)]
  | number, state, raw :: rest =>
    let comment := isCommentLine raw
    if state.isNone && (comment || (strip raw).isEmpty) then
      logicalLinesFrom (number + 1) none rest
    else
      let (start, pending) := state.getD (number, [])
      if endsWith raw ['\\'] && !comment then
        logicalLinesFrom (number + 1) (some (start, pending ++ stripBackslashes raw)) rest
      else
        let joined := pending ++ (if comment then ' ' :: raw else raw)
        let more := logicalLinesFrom (number + 1) none rest
        if (strip joined).isEmpty then more else (start, strip joined) :: more

def logicalLines (text : Str) : List (Nat × Str) := logicalLinesFrom 1 none (splitlines text)

def byteOrderMarks : List Bytes :=
  [[0xef, 0xbb, 0xbf], [0xff, 0xfe], [0xfe, 0xff], [0xff, 0xfe, 0, 0], [0, 0, 0xfe, 0xff]]

def isByteSpace (b : UInt8) : Bool := (9 ≤ b.toNat && b.toNat ≤ 13) || b.toNat == 32

def isCodingByte (b : UInt8) : Bool :=
  let c := Char.ofNat b.toNat
  isAsciiWord c || c == '-' || c == '.'

/-- What `CODING_DECLARATION.match` captures at the start of some bytes. -/
def codingHere : Bytes → Option Bytes
  | 99 :: 111 :: 100 :: 105 :: 110 :: 103 :: mark :: rest =>
    if mark = 58 ∨ mark = 61 then
      let name := (rest.dropWhile isByteSpace).takeWhile isCodingByte
      if name.isEmpty then none else some name
    else none
  | _ => none

/-- What `CODING_DECLARATION.search` captures. -/
def codingDeclaration (line : Bytes) : Option Bytes := line.tails.findSome? codingHere

/-- The declaration on one of the first two lines, where that line is a comment. -/
def declaredEncoding (data : Bytes) : Option Bytes :=
  ((data.splitOn 10).take 2).findSome? fun line =>
    if line.head? = some 35 then codingDeclaration line else none

def checkLockEncoding (lock : Bytes) : Except Refusal Unit :=
  if byteOrderMarks.any fun mark => mark.isPrefixOf lock then
    .error ⟨.lockEncoding, "byte-order mark"⟩
  else if (declaredEncoding lock).isSome then .error ⟨.lockEncoding, "coding declaration"⟩
  else .ok ()

def badOption (raw : Str) : Option Str :=
  if isCommentLine raw then none
  else (splitWords raw).find? fun token => startsWith token ['-'] && !hashOption.fullMatch token

def checkLockOptions (text : Str) : Except Refusal Unit :=
  match (splitlines text).findSome? badOption with
  | some token => .error ⟨.lockUnhashed, token⟩
  | none => .ok ()

/-- Whether the last loop of `check_lock_is_hashed` passes a line. -/
def isHashed (line : Str) : Bool := requirement.fullMatch line && hashOption.search line

def checkLockIsHashed (lock : Bytes) : Except Refusal Unit := do
  checkLockEncoding lock
  match utf8Decode lock with
  | none => .error ⟨.lockNotText, []⟩
  | some text =>
    checkLockOptions text
    let lines := logicalLines text
    if lines.isEmpty then .error ⟨.lockEmpty, []⟩
    else match lines.find? fun line => !isHashed line.2 with
      | some line => .error ⟨.lockUnhashed, (splitWords line.2).headD []⟩
      | none => .ok ()

end SharedInfra.AnsibleRuntime
