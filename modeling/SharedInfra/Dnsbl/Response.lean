import SharedInfra.Dns.Message

/-!
# Reading a DNS response

`_encode_name`, `_read_name`, `build_query` and `parse_response` of
`check_dnsbl_blocklist.py`.  An exception that `parse_response` does not catch stays an
error of the model (`Raised`).
-/

namespace SharedInfra.Dnsbl

open Python Dns

/-- The texts of `_MalformedResponse`. -/
inductive Malformed where
  | shortHeader
  | wrongId (response query : Nat)
  | notResponse
  | nameRunsPast
  | truncatedPointer
  | pointerLoop
  | reservedLabel
  | labelRunsPast
  | differentQuestion (name : Str)
  | recordHeaderRunsPast
  | recordDataRunsPast

inductive Raised where
  | malformed (what : Malformed)
  | indexError
  | structError

/-- `hostname.strip(".")`. -/
def stripDots (hostname : Str) : Str := (hostname.dropWhile (· == '.')).rdropWhile (· == '.')

def queryLabels (hostname : Str) : List Str :=
  (splitOnChar '.' (stripDots hostname)).filter (· ≠ [])

def asciiByte (c : Char) : UInt8 := UInt8.ofNat c.toNat

/-- One label on the wire; `none` is a `ValueError`. -/
def encodeLabel (label : Str) : Option Bytes :=
  if label.all (fun c => c.toNat < 128) ∧ 1 ≤ label.length ∧ label.length ≤ 63 then
    some (UInt8.ofNat label.length :: label.map asciiByte)
  else none

def encodeName (hostname : Str) : Option Bytes :=
  if queryLabels hostname = [] then none
  else ((queryLabels hostname).mapM encodeLabel).map fun labels => labels.flatten ++ [0]

structure HostName where
  name : Str
  encodable : (encodeName name).isSome

def wordBytes (n : Nat) : Bytes := [UInt8.ofNat (n / 256), UInt8.ofNat n]

def buildQuery (hostname : Str) (queryId : Nat) : Option Bytes :=
  (encodeName hostname).map fun name =>
    [queryId, 0x0100, 1, 0, 0, 0].flatMap wordBytes ++ name ++ [1, 1].flatMap wordBytes

/-- `payload[offset]`. -/
def byteAt (payload : Bytes) (offset : Nat) : Except Raised Nat :=
  match payload[offset]? with
  | none => .error .indexError
  | some b => .ok b.toNat

def decodeByte (b : UInt8) : Char := if b.toNat < 128 then Char.ofNat b.toNat else Char.ofNat 0xfffd

/-- `label.decode("ascii", "replace")`. -/
def decodeLabel (label : Bytes) : Str := label.map decodeByte

def maxCompressionJumps : Nat := 32

/-- The loop of `_read_name`; `after` is the offset behind the first pointer. -/
def readNameFrom (payload : Bytes) (labels : List Str) (after : Option Nat) (jumps offset : Nat) :
    Except Raised (Str × Nat) :=
  if _ : payload.length ≤ offset then .error (.malformed .nameRunsPast)
  else
    match byteAt payload offset with
    | .error e => .error e
    | .ok length =>
      if length &&& 0xc0 = 0xc0 then
        if payload.length ≤ offset + 1 then .error (.malformed .truncatedPointer)
        else if _ : maxCompressionJumps < jumps + 1 then .error (.malformed .pointerLoop)
        else
          match byteAt payload (offset + 1) with
          | .error e => .error e
          | .ok low =>
            readNameFrom payload labels (some (after.getD (offset + 2))) (jumps + 1)
              ((length &&& 0x3f) <<< 8 ||| low)
      else if length &&& 0xc0 ≠ 0 then .error (.malformed .reservedLabel)
      else if length = 0 then .ok (joinWith "." labels, after.getD (offset + 1))
      else if payload.length < offset + 1 + length then .error (.malformed .labelRunsPast)
      else
        readNameFrom payload
          (labels ++ [decodeLabel ((payload.drop (offset + 1)).take length)]) after jumps
          (offset + 1 + length)
termination_by (maxCompressionJumps - jumps, payload.length - offset)
decreasing_by
  · exact Prod.Lex.left _ _ (by omega)
  · exact Prod.Lex.right _ (by omega)

def readName (payload : Bytes) (offset : Nat) : Except Raised (Str × Nat) :=
  readNameFrom payload [] none 0 offset

structure Header where
  id : Nat
  flags : Nat
  questions : Nat
  answers : Nat
  authority : Nat
  additional : Nat

def headerOf (m : Bytes) : Header :=
  ⟨wordOf m 0, wordOf m 2, wordOf m 4, wordOf m 6, wordOf m 8, wordOf m 10⟩

/-- `struct.unpack(">HHHHHH", …)`. -/
def unpackHeader (bytes : Bytes) : Except Raised Header :=
  if bytes.length = 12 then .ok (headerOf bytes) else .error .structError

/-- `struct.unpack(">HHIH", …)` without the time to live. -/
def unpackRecord (bytes : Bytes) : Except Raised (Nat × Nat × Nat) :=
  if bytes.length = 10 then .ok (wordOf bytes 0, wordOf bytes 2, wordOf bytes 8)
  else .error .structError

/-- The questions; the name of the first one is kept. -/
def readQuestions (payload : Bytes) :
    Nat → Nat → Nat → Str → Except Raised (Str × Nat)
  | 0, _, offset, questionName => .ok (questionName, offset)
  | count + 1, index, offset, questionName => do
    let (name, offset) ← readName payload offset
    readQuestions payload count (index + 1) (offset + 4)
      (if index = 0 then name else questionName)

def addressText (rdata : Bytes) : Str := joinWith "." (rdata.map fun b => decimal b.toNat)

def readAnswers (payload : Bytes) : Nat → Nat → List Str → Except Raised (List Str)
  | 0, _, addresses => .ok addresses
  | count + 1, offset, addresses => do
    let (_, offset) ← readName payload offset
    if payload.length < offset + 10 then .error (.malformed .recordHeaderRunsPast)
    else do
      let (rtype, rclass, rdlength) ← unpackRecord ((payload.drop offset).take 10)
      if payload.length < offset + 10 + rdlength then .error (.malformed .recordDataRunsPast)
      else
        let rdata := (payload.drop (offset + 10)).take rdlength
        readAnswers payload count (offset + 10 + rdlength)
          (if rtype = 1 ∧ rclass = 1 ∧ rdlength = 4 then addresses ++ [addressText rdata]
            else addresses)

inductive LookupError where
  | malformed (hostname : Str) (what : Malformed)
  | returned (hostname : Str) (rcode : Nat)
  | truncated (hostname : Str)
  | other (text : Str)

structure ResolutionOutcome where
  ok : Bool
  addresses : List Str
  error : Option LookupError

/-- `sorted(set(addresses))`. -/
def sortedSet (addresses : List Str) : List Str :=
  addresses.dedup.mergeSort fun a b => decide (a ≤ b)

/-- `str.lower` of a text of letters from ASCII. -/
def lower (s : Str) : Str := s.map Char.toLower

/-- `parse_response` behind the checks of the header. -/
def parseSections (payload : Bytes) (header : Header) (hostname : Str) :
    Except Raised ResolutionOutcome := do
  let (questionName, offset) ← readQuestions payload header.questions 0 12 []
  if header.questions ≠ 0 ∧ lower questionName ≠ lower (stripDots hostname) then
    .error (.malformed (.differentQuestion questionName))
  else if header.flags &&& 0xf = 3 then .ok ⟨true, [], none⟩
  else if header.flags &&& 0xf ≠ 0 then
    .ok ⟨false, [], some (.returned hostname (header.flags &&& 0xf))⟩
  else do
    let addresses ← readAnswers payload header.answers offset []
    if addresses = [] ∧ header.flags &&& 0x200 ≠ 0 then
      .ok ⟨false, [], some (.truncated hostname)⟩
    else .ok ⟨true, sortedSet addresses, none⟩

/-- The body of the `try` of `parse_response`. -/
def parseMessage (payload : Bytes) (queryId : Nat) (hostname : Str) :
    Except Raised ResolutionOutcome :=
  if payload.length < 12 then .error (.malformed .shortHeader)
  else do
    let header ← unpackHeader (payload.take 12)
    if header.id ≠ queryId then .error (.malformed (.wrongId header.id queryId))
    else if header.flags &&& 0x8000 = 0 then .error (.malformed .notResponse)
    else parseSections payload header hostname

def parseResponse (payload : Bytes) (queryId : Nat) (hostname : Str) :
    Except Raised ResolutionOutcome :=
  match parseMessage payload queryId hostname with
  | .error (.malformed what) => .ok ⟨false, [], some (.malformed hostname what)⟩
  | result => result

end SharedInfra.Dnsbl
