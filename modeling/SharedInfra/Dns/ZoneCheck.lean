import SharedInfra.Python.Integers
import SharedInfra.Python.IpText
import SharedInfra.Python.Splitting

/-!
# Zone transcripts

`zonecheck.py`: what a transcript of dig's answers shows of a zone, how a record's value is
spelled for a comparison, and the minimal form of a transcript.  The tables of characters are
those of the interpreter's Unicode version, which `lower` follows.
-/

namespace SharedInfra.Dns
namespace ZoneCheck

open Python

/-- `re.search`, for a pattern that takes at least one character: the first place where it
matches. -/
def search {α : Type} (matchAt : Str → Option α) : Str → Option α
  | [] => none
  | c :: rest => (matchAt (c :: rest)).or (search matchAt rest)

/-- `_STATUS`, at the start of a text. -/
def statusAt (s : Str) : Option Str :=
  let word := (s.drop 8).takeWhile Char.isUpper
  if startsWith s "status: ".toList && !word.isEmpty then some word else none

/-- `_STATUS.search(line)`. -/
def findStatus (line : Str) : Option Str := search statusAt line

/-- `[a-z ]`. -/
def isFlagChar (c : Char) : Bool := c.isLower || c == ' '

/-- `_FLAGS`, at the start of a text. -/
def flagsAt (s : Str) : Option Str :=
  if startsWith s ";; flags: ".toList && ((s.drop 10).dropWhile isFlagChar).head? == some ';' then
    some ((s.drop 10).takeWhile isFlagChar)
  else none

/-- `_FLAGS.search(line)`. -/
def findFlags (line : Str) : Option Str := search flagsAt line

/-- `\S+`. -/
def isWord (s : Str) : Bool := !s.isEmpty && s.all fun c => !isSpace c

/-- `_QUERY_HEADER.match(line)`: the name and the type of a query. -/
def queryHeader (line : Str) : Option (Str × Str) :=
  if startsWith line ";;; QUERY ".toList then
    match splitOnChar ' ' (line.drop 10) with
    | [qname, token, '@' :: host] =>
      if isWord qname && isWord token && isWord host then some (qname, token) else none
    | _ => none
  else none

/-- `_MINIMAL_KEEP.match(line)`. -/
def isMinimalKeep (line : Str) : Bool :=
  startsWith line ";;; QUERY ".toList || startsWith line ";; ->>HEADER<<- ".toList ||
    startsWith line ";; flags: ".toList

/-- `\sIN\s` somewhere in a line. -/
def holdsClass : Str → Bool
  | [] => false
  | c :: rest =>
    (isSpace c && startsWith rest ['I', 'N'] && (rest.drop 2).head?.any isSpace) || holdsClass rest

/-- `_RECORD_LINE.match(line)`. -/
def isRecordLine (line : Str) : Bool :=
  match line with
  | [] => false
  | c :: rest => c != ';' && !isSpace c && holdsClass rest

section Values

variable (tables : CharTables)

def probeTypes : List Str :=
  ["A".toList, "AAAA".toList, "CAA".toList, "CNAME".toList, "HTTPS".toList, "MX".toList,
    "NS".toList, "PTR".toList, "SRV".toList, "SVCB".toList, "TLSA".toList, "TXT".toList]

def providerOwned : List (Str × Str) :=
  [(['@'], "NS".toList), (['@'], "SOA".toList)]

/-- `_NAME_FIELDS`: which fields of a value are domain names. -/
def nameFields (rtype : Str) : List Nat :=
  if rtype = "CNAME".toList ∨ rtype = "NS".toList ∨ rtype = "PTR".toList then [0]
  else if rtype = "MX".toList then [1]
  else if rtype = "SRV".toList then [3]
  else []

def queryToken (rtype : Str) : Option Str :=
  if rtype = "HTTPS".toList then some "TYPE65".toList
  else if rtype = "SVCB".toList then some "TYPE64".toList
  else none

/-- `_TOKEN_TYPE.get(token, token)`. -/
def tokenType (token : Str) : Str :=
  if token = "TYPE65".toList then "HTTPS".toList
  else if token = "TYPE64".toList then "SVCB".toList
  else token

/-- `str(ipaddress.IPv6Address(s))`; `none` is the `AddressValueError`. -/
def ipv6AddressText (s : Str) : Option Str :=
  if s.contains '/' then none
  else match splitOnChar '%' s with
    | [address] => (ipv6Value address).map ipv6Text
    | [address, scope] =>
      if scope = [] then none
      else (ipv6Value address).map fun value => ipv6Text value ++ '%' :: scope
    | _ => none

/-- `str(ipaddress.IPv4Address(s))`. -/
def ipv4AddressText (s : Str) : Option Str :=
  if s.contains '/' then none else (ipv4Value s).map ipv4Text

/-- A domain name, lowered and with its final dot. -/
def canonicalName (name : Str) : Str :=
  if endsWith (tables.lower name) ['.'] then tables.lower name else tables.lower name ++ ['.']

def normaliseRdata (rtype rdata : Str) : Option Str :=
  let rdata := strip rdata
  if rtype = "TXT".toList then some rdata
  else if rtype = "AAAA".toList then ipv6AddressText rdata
  else if rtype = "A".toList then ipv4AddressText rdata
  else
    let parts := (nameFields rtype).foldl (fun parts index => parts.modify index
      (canonicalName tables)) (splitWords rdata)
    let parts := if rtype = "CAA".toList ∧ 2 ≤ parts.length then parts.modify 1 tables.lower
      else parts
    some (joinWith [' '] parts)

inductive ZoneError where
  | queryError (text : Str)
  | valueError
deriving DecidableEq

/-- `int(word)` of a word; `none` is a `ValueError`. -/
def intOfWord (word : Str) : Option Int :=
  let sign := word.head?
  let body := if sign = some '-' ∨ sign = some '+' then word.drop 1 else word
  let groups := splitOnChar '_' body
  if groups.any List.isEmpty then none
  else (intOfDigits groups.flatten).map fun n => if sign = some '-' then -(n : Int) else n

/-- What `parse_dig` has read so far. -/
structure DigState where
  rcode : Option Str
  flags : List Str
  records : Finset (Int × Str)
deriving DecidableEq

def readComment (s : DigState) (line : Str) : DigState where
  rcode := (findStatus line).or s.rcode
  flags := ((findFlags line).map splitWords).getD s.flags
  records := s.records

def readLine (qname qtype : Str) (s : DigState) (line : Str) : Except ZoneError DigState :=
  if startsWith line [';'] then .ok (readComment s line)
  else match splitMax 4 line with
    | [owner, ttl, cls, rtype, rdata] =>
      if cls ≠ ['I', 'N'] then .ok s
      else if tables.lower owner ≠ tables.lower qname ∨
          (rtype ≠ qtype ∧ some rtype ≠ queryToken qtype) then .ok s
      else match intOfWord ttl, normaliseRdata tables qtype rdata with
        | some ttl, some value => .ok { s with records := insert (ttl, value) s.records }
        | _, _ => .error .valueError
    | _ => .ok s

def parseDig (output qname qtype : Str) :
    Except ZoneError (Str × List Str × Finset (Int × Str)) := do
  let s ← (splitlines output).foldlM (readLine tables qname qtype) ⟨none, [], ∅⟩
  match s.rcode with
  | none => .error (.queryError
      (((splitlines (strip output)).getLast?).getD "no output from dig".toList))
  | some rcode => .ok (rcode, s.flags, s.records)

/-- A query of a transcript, with the lines of dig's output. -/
structure Block where
  qname : Str
  token : Str
  lines : List Str

def addToLast (line : Str) : List Block → List Block
  | [] => []
  | [b] => [{ b with lines := b.lines ++ [line] }]
  | b :: rest => b :: addToLast line rest

def addLine (blocks : List Block) (line : Str) : Except ZoneError (List Block) :=
  match queryHeader line with
  | some (qname, token) => .ok (blocks ++ [⟨qname, token, []⟩])
  | none =>
    if blocks ≠ [] then .ok (addToLast line blocks)
    else if strip line ≠ [] then
      .error (.queryError "transcript has text before its first query header".toList)
    else .ok blocks

/-- `parse_transcript`, with the lines of each output still apart. -/
def parseTranscript (text : Str) : Except ZoneError (List Block) :=
  (splitlines text).foldlM addLine []

def transcriptApexExtra : List Str := ["SOA".toList]

abbrev Rrsets := List ((Str × Str) × Int × Finset Str)

/-- `d[key] = value`. -/
def putEntry {α β : Type} [DecidableEq α] (key : α) (value : β) : List (α × β) → List (α × β)
  | [] => [(key, value)]
  | (other, v) :: rest =>
    if other = key then (other, value) :: rest else (other, v) :: putEntry key value rest

/-- What a transcript shows: the records, the queries and the status of each name. -/
structure Shown where
  rrsets : Rrsets
  queried : Finset (Str × Str)
  rcodes : List (Str × Str)
deriving DecidableEq

/-- `zone_name.rstrip(".").lower()`. -/
def zoneStem (zoneName : Str) : Str := tables.lower (zoneName.rdropWhile (· == '.'))

def nameInZone (zoneName qname : Str) : Option Str :=
  let lowered := tables.lower qname
  let suffix := '.' :: zoneStem tables zoneName ++ ['.']
  if lowered = zoneStem tables zoneName ++ ['.'] then some ['@']
  else if endsWith lowered suffix then some (lowered.take (lowered.length - suffix.length))
  else none

/-- `f"{sorted(ttls)}"`. -/
def ttlsText (ttls : Finset Int) : Str :=
  '[' :: joinWith ", ".toList ((ttls.sort (· ≤ ·)).map intText) ++ [']']

/-- `ttls.pop()` of a set of one. -/
def onlyTtl (ttls : Finset Int) : Option Int :=
  if ttls.card = 1 then ttls.max.recBotCoe none some else none

/-- Pairs of texts are told apart as the texts are. -/
local instance lawfulPairs : LawfulBEq (Str × Str) := inferInstance

/-- One query of a transcript. -/
def readBlock (zoneName : Str) (shown : Shown) (b : Block) : Except ZoneError Shown :=
  let qtype := tokenType b.token
  match nameInZone tables zoneName b.qname with
  | none => .error (.queryError
      (b.qname ++ ' ' :: qtype ++ ": not inside ".toList ++ zoneName))
  | some name =>
    match parseDig tables (joinWith ['\n'] b.lines) b.qname qtype with
    | .error e => .error e
    | .ok (rcode, flags, records) =>
      if "aa".toList ∉ flags then .error (.queryError
        (b.qname ++ ' ' :: qtype ++ ": transcript answer is not authoritative".toList))
      else
        let queried := insert (name, qtype) shown.queried
        let rcodes := if qtype = "A".toList then putEntry name rcode shown.rcodes
          else shown.rcodes
        if records = ∅ ∨ qtype ∈ transcriptApexExtra ∨ (name, qtype) ∈ providerOwned then
          .ok ⟨shown.rrsets, queried, rcodes⟩
        else match onlyTtl (records.image Prod.fst) with
          | some ttl => .ok ⟨putEntry (name, qtype) (ttl, records.image Prod.snd) shown.rrsets,
              queried, rcodes⟩
          | none => .error (.queryError (name ++ ' ' :: qtype ++
              " is served with mixed TTLs ".toList ++ ttlsText (records.image Prod.fst)))

def zoneFromTranscript (text zoneName : Str) : Except ZoneError Shown := do
  let blocks ← parseTranscript text
  blocks.foldlM (readBlock tables zoneName) ⟨[], ∅, []⟩

def stripTranscript (text : Str) : Str :=
  unlines ((splitlines text).filter fun line => isMinimalKeep line || isRecordLine line)

end Values

section Checking

variable (tables : CharTables)

/-- A zone file. -/
structure Zone where
  name : Str
  rrsets : Rrsets
  probeNames : List Str

def nameLe (a b : Str) : Bool :=
  if a = ['@'] then true else if b = ['@'] then false else decide (a ≤ b)

/-- Keys are sorted with those of the apex first. -/
def keyLe (a b : Str × Str) : Bool :=
  if a.1 = b.1 then decide (a.2 ≤ b.2) else nameLe a.1 b.1

def Zone.names (z : Zone) : List Str :=
  ((z.rrsets.map fun entry => entry.1.1) ++ z.probeNames).dedup.mergeSort nameLe

def Zone.expectedRcode (z : Zone) (name : Str) : Str :=
  if z.rrsets.any fun entry => decide (entry.1.1 = name) ||
      (decide (name ≠ ['@']) && endsWith entry.1.1 ('.' :: name)) then "NOERROR".toList
  else if name ≠ ['@'] then "NXDOMAIN".toList else "NOERROR".toList

def describe (values : Finset Str) : Str :=
  if values = ∅ then "(none)".toList else joinWith " | ".toList (sortedSet values)

def describeSet (entry : Int × Finset Str) : Str :=
  describe entry.2 ++ " (ttl ".toList ++ intText entry.1 ++ [')']

/-- What is wrong with one record set. -/
def rrsetProblem (key : Str × Str) (got want : Option (Int × Finset Str)) : Option Str :=
  let label := key.1 ++ ' ' :: key.2
  match want, got with
  | none, some got => some (label ++ ": in the transcript, not declared in the zone file: ".toList ++
      describeSet got)
  | some want, none => some (label ++ ": declared in the zone file, not in the transcript: ".toList ++
      describeSet want)
  | some want, some got =>
    if got ≠ want then some (label ++ ": declared ".toList ++ describeSet want ++
      ", transcript shows ".toList ++ describeSet got)
    else none
  | none, none => none

/-- The problems of what a transcript shows. -/
def shownProblems (shown : Shown) (declared : Zone) : List Str :=
  let keys := ((shown.rrsets.map Prod.fst) ++ declared.rrsets.map Prod.fst).dedup.mergeSort keyLe
  let required := (declared.names.flatMap fun name => probeTypes.map fun rtype => (name, rtype)) ++
    transcriptApexExtra.map fun rtype => (['@'], rtype)
  (keys.filterMap fun key =>
    rrsetProblem key (shown.rrsets.lookup key) (declared.rrsets.lookup key)) ++
  (((required.filter fun key => key ∉ shown.queried).dedup.mergeSort fun a b =>
      if a.1 = b.1 then decide (a.2 ≤ b.2) else decide (a.1 ≤ b.1)).map fun key =>
    key.1 ++ ' ' :: key.2 ++ ": probed by the zone file, absent from the transcript".toList) ++
  declared.names.filterMap fun name =>
    match shown.rcodes.lookup name with
    | some rcode =>
      if rcode ≠ declared.expectedRcode name then some (name ++ ": rcode ".toList ++ rcode ++
        " in the transcript, ".toList ++ declared.expectedRcode name ++ " expected".toList)
      else none
    | none => none

def checkCapture (transcript : Str) (declared : Zone) : Except ZoneError (List Str) := do
  let shown ← zoneFromTranscript tables transcript declared.name
  pure (shownProblems shown declared)

end Checking

end ZoneCheck
end SharedInfra.Dns
