import SharedInfra.Exposition.TextFormat
import SharedInfra.Python.IpText

/-!
# The SNDS feed

`parse_snds_feed` and `render_prometheus_text` of `collect_snds_metrics.py`: the feed
line by line, and the text published from its records.  Floats are a parameter
(`Floats`) of which only the form of a printed one is assumed.
-/

namespace SharedInfra.Snds

open Python Sequences Exposition

/-- `int(x)` of a float. -/
inductive Truncated where
  | value (n : Int)
  | invalid
  | overflow

/-- Python's floats. -/
structure Floats (F : Type) where
  /-- `float(text)`; `none` is a `ValueError`. -/
  parse : Str → Option F
  /-- `x / 100.0`. -/
  percent : F → F
  truncate : F → Truncated
  repr : F → Str
  repr_number : ∀ x, repr x ∈ number.lang

variable {F : Type}

structure IpReputation (F : Type) where
  ip : Str
  status : Option Str
  complaintRate : Option F
  volume : Option Int

/-- `str.lower`, for comparisons with words that no letter outside ASCII is lowered into. -/
def lower (s : Str) : Str := s.map Char.toLower

def validStatuses : List Str := ["green", "yellow", "red"]

def noRateTokens : List Str := ["", "none", "n/a", "-"]

def parseComplaintRate (floats : Floats F) (raw : Str) : Option F :=
  let token := strip raw
  if lower token ∈ noRateTokens then none
  else
    let token :=
      if token.head? = some '<' ∨ token.head? = some '>' then strip token.tail else token
    if endsWith token ['%'] then (floats.parse token.dropLast).map floats.percent
    else floats.parse token

/-- `_parse_volume`; the infinities raise an `OverflowError`, which is not caught. -/
def parseVolume (floats : Floats F) (raw : Str) : Except Unit (Option Int) :=
  let token := strip raw
  if token = [] then .ok none
  else
    match floats.parse token with
    | none => .ok none
    | some x =>
      match floats.truncate x with
      | .value n => .ok (some n)
      | .invalid => .ok none
      | .overflow => .error ()

def isHeaderChar (c : Char) : Bool := c.isAlpha || c.isDigit || c == ' ' || c == '_' || c == '-'

def looksLikeAHeader (firstField : Str) : Bool :=
  match ipText (strip firstField), strip firstField with
  | some _, _ => false
  | none, [] => false
  | none, c :: token => c.isAlpha && token.all isHeaderChar

def parseStatus (fields : List Str) : Option Str :=
  match fields[1]? with
  | none => none
  | some field =>
    if strip field = [] then none
    else if lower (strip field) ∈ validStatuses then some (lower (strip field)) else none

structure ParsedFeed (F : Type) where
  records : List (IpReputation F)
  dataLines : Nat
  skippedLines : Nat

def ParsedFeed.everyLineWasSkipped (feed : ParsedFeed F) : Bool :=
  decide (0 < feed.dataLines) && feed.skippedLines == feed.dataLines

def ParsedFeed.yieldedNothingTheAlertsCanRead (feed : ParsedFeed F) : Bool :=
  !feed.records.isEmpty && !feed.records.any fun r => r.status.isSome || r.complaintRate.isSome

def fieldsOf (line : Str) : List Str := (splitOnChar ',' line).map strip

def readVolume (floats : Floats F) (fields : List Str) : Except Unit (Option Int) :=
  match fields[3]? with
  | none => .ok none
  | some field => parseVolume floats field

/-- What a line whose first field is an address adds to the records. -/
def readRecord (floats : Floats F) (ip : Str) (fields : List Str) :
    Except Unit (IpReputation F) := do
  let volume ← readVolume floats fields
  return ⟨ip, parseStatus fields, fields[2]?.bind (parseComplaintRate floats), volume⟩

/-- One turn of the loop over the lines. -/
def readLine (floats : Floats F) (feed : ParsedFeed F) (rawLine : Str) :
    Except Unit (ParsedFeed F) :=
  let line := strip rawLine
  if line = [] then .ok feed
  else
    let fields := fieldsOf line
    let ipField := fields.headD []
    if feed.records = [] ∧ feed.dataLines = 0 ∧ looksLikeAHeader ipField then .ok feed
    else
      match ipText ipField with
      | none => .ok ⟨feed.records, feed.dataLines + 1, feed.skippedLines + 1⟩
      | some ip => do
        let record ← readRecord floats ip fields
        return ⟨feed.records ++ [record], feed.dataLines + 1, feed.skippedLines⟩

def parseSndsFeed (floats : Floats F) (text : Str) : Except Unit (ParsedFeed F) :=
  (splitlines text).foldlM (readLine floats) ⟨[], 0, 0⟩

/-- The text of a volume. -/
def intText : Int → Str
  | .ofNat n => decimal n
  | .negSucc n => '-' :: decimal (n + 1)

def rateMetric : Str := "snds_complaint_rate"

def volumeMetric : Str := "snds_message_volume"

def statusMetric : Str := "snds_reputation_status"

def rateLine (floats : Floats F) (r : IpReputation F) : Option Str :=
  r.complaintRate.map fun rate =>
    rateMetric ++ "\x7bip=\"".toList ++ r.ip ++ "\"\x7d ".toList ++ floats.repr rate

def volumeLine (r : IpReputation F) : Option Str :=
  r.volume.map fun volume =>
    volumeMetric ++ "\x7bip=\"".toList ++ r.ip ++ "\"\x7d ".toList ++ intText volume

def statusLine (r : IpReputation F) : Option Str :=
  r.status.map fun status =>
    statusMetric ++ "\x7bip=\"".toList ++ r.ip ++ "\",status=\"".toList ++ status ++
      "\"\x7d 1".toList

def rateHeader : List Str :=
  ["# HELP snds_complaint_rate Microsoft SNDS complaint rate for the sending IP, from its last daily snapshot (fraction 0-1). Absent when SNDS reported no computed rate.",
    "# TYPE snds_complaint_rate gauge"]

def volumeHeader : List Str :=
  ["# HELP snds_message_volume Message volume Microsoft SNDS reported for the sending IP in its last daily snapshot.",
    "# TYPE snds_message_volume gauge"]

def statusHeader : List Str :=
  ["# HELP snds_reputation_status Microsoft SNDS filter-result status for the sending IP (1 on the row matching its last reported status; green/yellow/red).",
    "# TYPE snds_reputation_status gauge"]

def renderLines (floats : Floats F) (records : List (IpReputation F)) : List Str :=
  rateHeader ++ records.filterMap (rateLine floats) ++ volumeHeader ++
    records.filterMap volumeLine ++ statusHeader ++ records.filterMap statusLine

def renderPrometheusText (floats : Floats F) (records : List (IpReputation F)) : Str :=
  joinWith "\n" (renderLines floats records) ++ ['\n']

end SharedInfra.Snds
