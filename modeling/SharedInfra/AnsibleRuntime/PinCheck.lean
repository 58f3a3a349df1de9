import SharedInfra.AnsibleRuntime.LockReading

/-!
# The lock gate

`locked_packages` of `check_pins.py`, which judges a lock before it is merged.  It shares the
encoding check and the line joiner with the program and has a pattern of its own for a line.
-/

namespace SharedInfra.AnsibleRuntime

open Python Sequences

section Gate

open Pattern

def digits : Pattern Char := plus (one Char.isDigit)

/-- `VERSION`. -/
def exactVersion : Pattern Char :=
  seq digits (seq (star (seq (literal ['.']) digits))
    (seq (opt (seq (alt (literal ['a']) (alt (literal ['b']) (literal ['r', 'c']))) digits))
      (opt (seq (literal ".post".toList) digits))))

/-- `(?P<marker>(?: ?; ?MARKER_CHARS+?)?)`. -/
def narrowMarker : Pattern Char :=
  opt (seq (opt (one isBlank)) (seq (literal [';'])
    (seq (opt (one isBlank)) (plus (one isMarkerChar)))))

/-- `(?P<hashes>(?: +--hash=sha256:[0-9a-f]{64})*)`. -/
def hashList : Pattern Char := star (seq (plus (one isBlank)) hashOption)

/-- `REQUIREMENT` of `check_pins.py`. -/
def pinLine : Pattern Char :=
  seq namePattern (seq (seq (literal ['=', '=']) exactVersion) (seq narrowMarker hashList))

/-- The groups of a match: two texts, and whether the marker and the hashes have any. -/
structure Pin where
  name : Str
  version : Str
  marked : Bool
  hashed : Bool

/-- Whether a character of a line is still one of the version. -/
def beforeTail (c : Char) : Bool := c != ' ' && c != ';'

/-- `REQUIREMENT.fullmatch(line)`.  A `;` is a marker's, and no marker holds a `-`. -/
def readPin (line : Str) : Option Pin :=
  if pinLine.fullMatch line then
    let rest := (line.dropWhile (· != '=')).drop 2
    let tail := rest.dropWhile beforeTail
    some ⟨line.takeWhile isNameChar, rest.takeWhile beforeTail, tail.contains ';',
      hashOption.search tail⟩
  else none

def isSeparator (c : Char) : Bool := c == '-' || c == '_' || c == '.'

/-- `re.sub(r"[-_.]+", "-", name)`, after a separator or not. -/
def joinSeparators : Bool → Str → Str
  | _, [] => []
  | inRun, c :: rest =>
    if isSeparator c then
      if inRun then joinSeparators true rest else '-' :: joinSeparators true rest
    else c :: joinSeparators false rest

def normalise (name : Str) : Str := (joinSeparators false name).map Char.toLower

/-- `REQUIRED_TOOLS`, sorted. -/
def requiredTools : List Str :=
  ["ansible".toList, "ansible-core".toList, "ansible-lint".toList, "molecule".toList,
    "molecule-plugins".toList, "mypy".toList, "ruamel-yaml".toList, "ruff".toList,
    "yamllint".toList]

/-- What `locked_packages` finds wrong. -/
inductive PinFinding where
  | encoding (refusal : Refusal)
  | notText
  | notPinned (number : Nat) (line : Str)
  | noHash (number : Nat) (name : Str)
  | marked (number : Nat) (name : Str)
  | twice (number : Nat) (name : Str)
  | missing (name : Str)
deriving DecidableEq

abbrev Pins := List (Str × Str)

/-- `pins[name] = version`. -/
def setPin (pins : Pins) (name version : Str) : Pins :=
  match pins with
  | [] => [(name, version)]
  | (other, v) :: rest =>
    if other = name then (name, version) :: rest else (other, v) :: setPin rest name version

/-- The findings about a line that is a pin, beside the pins before it. -/
def pinProblems (pins : Pins) (number : Nat) (name : Str) (pin : Pin) : List PinFinding :=
  (if pin.hashed then [] else [.noHash number name]) ++
    (if name ∈ requiredTools ∧ pin.marked = true then [.marked number name] else []) ++
    (if name ∈ pins.map Prod.fst then [.twice number name] else [])

/-- The loop of `locked_packages` and what is said after it. -/
def lockedFrom : Pins → List (Nat × Str) → Pins × List PinFinding
  | pins, [] =>
    (pins, (requiredTools.filter fun tool => tool ∉ pins.map Prod.fst).map .missing)
  | pins, (number, line) :: rest =>
    match readPin line with
    | none =>
      let (pins, findings) := lockedFrom pins rest
      (pins, .notPinned number line :: findings)
    | some pin =>
      let name := normalise pin.name
      let found := lockedFrom (setPin pins name pin.version) rest
      (found.1, pinProblems pins number name pin ++ found.2)

/-- `locked_packages`, of a file that can be read. -/
def lockedPackages (data : Bytes) : Pins × List PinFinding :=
  match checkLockEncoding data with
  | .error refusal => ([], [.encoding refusal])
  | .ok _ =>
    match utf8Decode data with
    | none => ([], [.notText])
    | some text => lockedFrom [] (logicalLines text)

end Gate

end SharedInfra.AnsibleRuntime
