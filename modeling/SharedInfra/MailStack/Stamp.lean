import SharedInfra.Python.Splitting
import SharedInfra.Python.Utf8
import SharedInfra.Sequences.FirstMatch

/-!
# The stamp of a class

`mx1_stack_stamp.py`: the lines of a class's inputs, the text of a stamp and what is read from it,
the decision whether the class is due, and the two writes, `mark` and `record`.
-/

namespace SharedInfra.MailStack

open Python Sequences

/-- A line for each input: its name and the hash. -/
abbrev Lines := List (Str × Str)

inductive StampState where
  | absent
  | pending
  | recorded
deriving DecidableEq

/-- What the stamp file holds. -/
structure Stamp where
  state : StampState
  lines : Lines

inductive StampError where
  | inputNotRegular (path : Str)
  | inputUnreadable (path strerror : Str)
  | badName
  | nameTwice
  | noLineBreak
  | badLine (number : Nat)
  | empty
  | notSorted
  | notRegular
  | notOwnerOnly
  | unreadable

def StampError.message : StampError → Str
  | .inputNotRegular path => "input file ".toList ++ path ++ " is not a regular file".toList
  | .inputUnreadable path strerror =>
    "input file ".toList ++ path ++ " cannot be read (".toList ++ strerror ++ ")".toList
  | .badName => "an input name is not lower-case letters, digits and underscores"
  | .nameTwice => "an input name is given twice"
  | .noLineBreak => "the stamp does not end in a line break"
  | .badLine number =>
    "line ".toList ++ decimal number ++ " of the stamp is malformed or repeats an input".toList
  | .empty => "the stamp is empty"
  | .notSorted => "the stamp's lines are not sorted"
  | .notRegular => "the stamp is not a regular file"
  | .notOwnerOnly => "the stamp is readable by someone other than its owner"
  | .unreadable => "the stamp cannot be read"

def absentHash : Str := "absent"

def pendingText : Str := "pending\n"

def isLowerLetter (c : Char) : Bool := 97 ≤ c.toNat && c.toNat ≤ 122

def isAsciiDigit (c : Char) : Bool := 48 ≤ c.toNat && c.toNat ≤ 57

/-- `NAME_PATTERN.fullmatch`. -/
def isInputName : Str → Bool
  | [] => false
  | c :: rest => isLowerLetter c && rest.all fun d => isLowerLetter d || isAsciiDigit d || d == '_'

def isHexChar (c : Char) : Bool := isAsciiDigit c || (97 ≤ c.toNat && c.toNat ≤ 102)

/-- The second group of `LINE_PATTERN`. -/
def isLineHash (s : Str) : Bool := (s.length == 64 && s.all isHexChar) || s == absentHash

/-- SHA-256, as `hexdigest` prints it. -/
structure Sha256 where
  hexdigest : Bytes → Str
  isLineHash_hexdigest : ∀ data, isLineHash (hexdigest data) = true

/-- What is at the path of an input. -/
inductive InputFile where
  | absent
  | notRegular
  | unreadable (strerror : Str)
  | content (bytes : Bytes)

abbrev FileSystem := Str → InputFile

/-- The parameters `files`, `values` and `expected`. -/
structure Inputs where
  files : List (Str × Str)
  values : List (Str × Str)
  expected : Lines

def hashFile (sha256 : Sha256) (fs : FileSystem) (path : Str) : Except StampError Str :=
  match fs path with
  | .absent => .ok absentHash
  | .notRegular => .error (.inputNotRegular path)
  | .unreadable strerror => .error (.inputUnreadable path strerror)
  | .content bytes => .ok (sha256.hexdigest bytes)

def hashValue (sha256 : Sha256) (value : Str) : Str := sha256.hexdigest (utf8Encode value)

def fileLine (sha256 : Sha256) (fs : FileSystem) (file : Str × Str) :
    Except StampError (Str × Str) := do
  let digest ← hashFile sha256 fs file.2
  return (file.1, digest)

def currentLines (sha256 : Sha256) (fs : FileSystem) (inputs : Inputs) :
    Except StampError Lines :=
  let names := inputs.files.map Prod.fst ++ inputs.values.map Prod.fst
  if names.any fun name => !isInputName name then .error .badName
  else if ¬ names.Nodup then .error .nameTwice
  else do
    let lines ← inputs.files.mapM (fileLine sha256 fs)
    return sortByKey (lines ++ inputs.values.map fun value => (value.1, hashValue sha256 value.2))

def renderLine (line : Str × Str) : Str := line.1 ++ ' ' :: line.2

def render (lines : Lines) : Str := unlines ((sortByKey lines).map renderLine)

/-- `LINE_PATTERN.fullmatch`: neither a name nor a hash has a space. -/
def matchLine (raw : Str) : Option (Str × Str) :=
  let parts := partition ' ' raw
  if parts.2.1 && isInputName parts.1 && isLineHash parts.2.2 then some (parts.1, parts.2.2)
  else none

/-- The loop of `parse` over the lines, which are numbered. -/
def readLines : Nat → Lines → List Str → Except StampError Lines
  | _, lines, [] => .ok lines
  | number, lines, raw :: rest =>
    match matchLine raw with
    | none => .error (.badLine number)
    | some line =>
      if line.1 ∈ lines.map Prod.fst then .error (.badLine number)
      else readLines (number + 1) (lines ++ [line]) rest

def parse (text : Str) : Except StampError Stamp :=
  if text = pendingText then .ok ⟨.pending, []⟩
  else if text.getLast? ≠ some '\n' then .error .noLineBreak
  else do
    let lines ← readLines 1 [] (splitlines text)
    if lines = [] then .error .empty
    else if lines.map Prod.fst ≠ sorted (lines.map Prod.fst) then .error .notSorted
    else return ⟨.recorded, lines⟩

inductive StampFile where
  | absent
  | notRegular
  | file (mode : Nat) (bytes : Option Bytes)

def fileText (bytes : Option Bytes) : Option Str :=
  (bytes.bind utf8Decode).map universalNewlines

def readStamp : StampFile → Except StampError Stamp
  | .absent => .ok ⟨.absent, []⟩
  | .notRegular => .error .notRegular
  | .file mode bytes =>
    if mode % 0o100 ≠ 0 then .error .notOwnerOnly
    else match fileText bytes with
      | none => .error .unreadable
      | some text => parse text

def stampFileMode : Nat := 0o600

/-- `write_atomic`, where it does not raise. -/
def writeAtomic (text : Str) : StampFile := .file stampFileMode (some (utf8Encode text))

def wouldChange (stamp : StampFile) (text : Str) : Bool :=
  match stamp with
  | .file mode bytes => mode % 0o1000 != stampFileMode || fileText bytes != some text
  | _ => true

def placeStamp (stamp : StampFile) (text : Str) : StampFile :=
  if wouldChange stamp text then writeAtomic text else stamp

def mark (stamp : StampFile) : StampFile := placeStamp stamp pendingText

def record (stamp : StampFile) (lines : Lines) : StampFile := placeStamp stamp (render lines)

inductive Reason where
  | noStamp
  | pending
  | inputDiffers (name : Str)
  | repositoryDiffers (name : Str)
  | inputAbsent (name : Str)
  | stale
  | notOk
deriving DecidableEq

def Reason.sentence : Reason → Str
  | .noStamp => "there is no stamp and the host is not in the state the repository describes"
  | .pending => "the stamp is pending: an earlier run did not finish"
  | .inputDiffers name => "input ".toList ++ name ++ " differs from the stamp".toList
  | .repositoryDiffers name => "input ".toList ++ name ++ " differs from the repository".toList
  | .inputAbsent name => "input ".toList ++ name ++ " is absent".toList
  | .stale => "an input is newer than the container that reads it"
  | .notOk => "the running state is not ok"

def differing (stamp : Stamp) (lines : Lines) : List Str :=
  if stamp.state ≠ .recorded then sorted (lines.map Prod.fst)
  else sorted ((lines.map Prod.fst ++ stamp.lines.map Prod.fst).dedup.filter fun name =>
    stamp.lines.lookup name != lines.lookup name)

structure Decision where
  state : StampState
  differing : List Str
  due : Bool
  adopt : Bool
  reasons : List Reason
  repositoryDiffers : List Str

/-- What `decide` is told of the running state. -/
structure Live where
  ok : Bool
  stale : Bool

def repositoryDiffers (lines expected : Lines) : List Str :=
  sorted ((expected.filter fun entry => lines.lookup entry.1 != some entry.2).map Prod.fst)

def missing (lines expected : Lines) : List Str :=
  sorted ((lines.filter fun line =>
    line.2 == absentHash && !decide (line.1 ∈ expected.map Prod.fst)).map Prod.fst)

def reasonsOf (stamp : Stamp) (lines expected : Lines) (live : Live) : List Reason :=
  (if stamp.state = .pending then [.pending] else []) ++
    (if stamp.state = .recorded then (differing stamp lines).map .inputDiffers else []) ++
    (repositoryDiffers lines expected).map .repositoryDiffers ++
    (missing lines expected).map .inputAbsent ++
    (if live.stale then [.stale] else []) ++
    (if live.ok then [] else [.notOk])

/-- `decide`. -/
def decideClass (stamp : Stamp) (lines expected : Lines) (live : Live) : Decision :=
  let found := reasonsOf stamp lines expected live
  let reasons := if stamp.state = .absent ∧ found ≠ [] then .noStamp :: found else found
  ⟨stamp.state, differing stamp lines, !reasons.isEmpty,
    decide (stamp.state = .absent) && found.isEmpty, reasons, repositoryDiffers lines expected⟩

end SharedInfra.MailStack
