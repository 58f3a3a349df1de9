import SharedInfra.Python.Json
import SharedInfra.Snds.Feed

/-!
# Runs of the SNDS collector

`read_link_state`, `record_successful_run`, `render_health_text`, `_collect` and `main`
of `collect_snds_metrics.py`, over the three files of the output directory.  What a run
cannot know beforehand is part of the run (`Run`): the time, the environment, what
SNDS answers, whether the directory can be written, and where an exception that
`_collect` does not expect is raised.
-/

namespace SharedInfra.Snds

open Python Sequences Exposition

variable {F : Type}

/-- The library functions a run rests on. -/
structure Library (F : Type) where
  floats : Floats F
  /-- `json.dumps` of a float. -/
  dump : F → Str
  /-- `float` of what `json.loads` makes of a number; an error is an `OverflowError`. -/
  load : Str → Except Unit F
  load_dump : ∀ x, load (dump x) = .ok x
  /-- `hashlib.sha256(url.encode("utf-8")).hexdigest()`. -/
  sha256 : Str → Str

/-- What `fetch_snds_data` returns, or which of the exceptions `_collect` names it raises. -/
inductive Answer where
  | text (raw : Str)
  | noData
  | failed

/-- What comes next where an exception is raised that `_collect` does not catch. -/
inductive Point where
  | reading
  | fetching
  | parsing
  | writing
  | recording
  | reporting
deriving DecidableEq

structure Run (F : Type) where
  now : F
  url : Option Str
  answer : Answer
  writable : Bool
  raises : Point → Bool

/-- The output directory; `state` is what `json.loads` makes of the state file, if it can. -/
structure Directory where
  reputation : Option Str
  health : Option Str
  state : Option Json

/-- `float(value)` where `isinstance(value, (int, float))`. -/
def floatOf (library : Library F) : Option Json → Except Unit (Option F)
  | some (.number literal) => (library.load literal).map some
  | some (.bool value) => (library.load (if value then ['1'] else ['0'])).map some
  | _ => .ok none

def recordedLink (library : Library F) (digest : Str) (members : List (Str × Json)) :
    Except Unit (Option F) :=
  match Json.member members "url_sha256" with
  | some (.string recorded) =>
    if recorded = digest then floatOf library (Json.member members "first_seen") else .ok none
  | _ => .ok none

/-- The first-seen time of a digest and the last success, as the state file has them. -/
def readState (library : Library F) (digest : Str) :
    Option Json → Except Unit (Option F × Option F)
  | some (.object members) => do
    let lastSuccess ← floatOf library (Json.member members "last_success")
    let firstSeen ← recordedLink library digest members
    return (firstSeen, lastSuccess)
  | _ => .ok (none, none)

def numberOrNull (library : Library F) : Option F → Json
  | none => .null
  | some x => .number (library.dump x)

/-- The state file `read_link_state` writes. -/
def linkState (library : Library F) (digest : Str) (firstSeen : F) (lastSuccess : Option F) : Json :=
  .object [("url_sha256".toList, .string digest),
    ("first_seen".toList, .number (library.dump firstSeen)),
    ("last_success".toList, numberOrNull library lastSuccess)]

def readLinkState (library : Library F) (run : Run F) (url : Str) (directory : Directory) :
    Except Unit ((Option F × Option F) × Directory) := do
  let digest := library.sha256 url
  match ← readState library digest directory.state with
  | (some firstSeen, lastSuccess) => return ((some firstSeen, lastSuccess), directory)
  | (none, lastSuccess) =>
    if run.writable then
      return ((some run.now, lastSuccess),
        { directory with state := some (linkState library digest run.now lastSuccess) })
    else return ((none, lastSuccess), directory)

/-- `blob[name] = value`. -/
def setMember (members : List (Str × Json)) (name : Str) (value : Json) : List (Str × Json) :=
  if members.any (·.1 == name) then
    members.map fun m => if m.1 = name then (name, value) else m
  else members ++ [(name, value)]

/-- The blob of `record_successful_run` before it is stamped. -/
def blobOf : Option Json → List (Str × Json)
  | some (.object members) => members
  | _ => []

def recordSuccessfulRun (library : Library F) (run : Run F) (directory : Directory) : Directory :=
  if run.writable then
    { directory with state := some (.object (setMember (blobOf directory.state) "last_success"
        (.number (library.dump run.now)))) }
  else directory

structure Gauge where
  metric : Str
  help : Str
  value : Str

def Gauge.lines (gauge : Gauge) : List Str :=
  ["# HELP ".toList ++ gauge.metric ++ ' ' :: gauge.help,
    "# TYPE ".toList ++ gauge.metric ++ " gauge".toList, gauge.metric ++ ' ' :: gauge.value]

def flag (b : Bool) : Str := if b then ['1'] else ['0']

def lastAttempt : Str := "snds_collector_last_attempt_timestamp_seconds"

def lastRunSuccess : Str := "snds_collector_last_run_success"

def lastSuccessTime : Str := "snds_collector_last_success_timestamp_seconds"

def dataAvailable : Str := "snds_data_available"

def linkStateReadable : Str := "snds_link_state_readable"

def linkFirstSeen : Str := "snds_access_link_first_seen_timestamp_seconds"

def lastAttemptHelp : Str :=
  "Unix time this collector last ran, whether or not the run succeeded."

def lastRunSuccessHelp : Str :=
  "Whether this collector's most recent run fetched and parsed SNDS data (1) or failed (0)."

def lastSuccessTimeHelp : Str :=
  "Unix time this collector last completed a run successfully, including a run on which SNDS reported no data."

def dataAvailableHelp : Str :=
  "Whether SNDS returned reputation rows on the last successful run (1) or reported that it has none (0). Zero is the normal steady state for a sender below its reporting threshold, not a fault."

def linkStateReadableHelp : Str :=
  "Whether this collector could persist the access link's first-seen time (1) or not (0). At 0 the link-age gauge below is absent and the expiry alert cannot fire."

def linkFirstSeenHelp : Str :=
  "Unix time the SNDS automated-access URL currently in use was first seen by this collector. Microsoft expires each link 30 days after it is generated."

structure RunOutcome (F : Type) where
  exitCode : Nat
  linkFirstSeen : Option F
  lastSuccess : Option F
  dataAvailable : Option Bool

/-- The gauges of `render_health_text`. -/
def healthGauges (floats : Floats F) (now : F) (succeeded : Bool) (firstSeen lastSuccess : Option F)
    (available : Option Bool) : List Gauge :=
  [⟨lastAttempt, lastAttemptHelp, floats.repr now⟩,
    ⟨lastRunSuccess, lastRunSuccessHelp, flag succeeded⟩] ++
  (lastSuccess.map fun time => ⟨lastSuccessTime, lastSuccessTimeHelp, floats.repr time⟩).toList ++
  (available.map fun data => ⟨dataAvailable, dataAvailableHelp, flag data⟩).toList ++
  [⟨linkStateReadable, linkStateReadableHelp, flag firstSeen.isSome⟩] ++
  (firstSeen.map fun time => ⟨linkFirstSeen, linkFirstSeenHelp, floats.repr time⟩).toList

def renderHealthText (floats : Floats F) (now : F) (succeeded : Bool)
    (firstSeen lastSuccess : Option F) (available : Option Bool) : Str :=
  joinWith "\n" ((healthGauges floats now succeeded firstSeen lastSuccess available).flatMap
    Gauge.lines) ++ ['\n']

def publishHealth (library : Library F) (run : Run F) (outcome : RunOutcome F)
    (directory : Directory) : Directory :=
  if run.writable then
    { directory with health := some (renderHealthText library.floats run.now
        (outcome.exitCode == 0) outcome.linkFirstSeen outcome.lastSuccess outcome.dataAvailable) }
  else directory

/-- The rest of a run, unless an exception comes before it. -/
def Run.upTo (run : Run F) (point : Point) (directory : Directory)
    (rest : Directory × Except Unit (RunOutcome F)) : Directory × Except Unit (RunOutcome F) :=
  if run.raises point then (directory, .error ()) else rest

def ParsedFeed.usable (feed : ParsedFeed F) : Bool :=
  !feed.everyLineWasSkipped && !feed.yieldedNothingTheAlertsCanRead

def writeSnapshot (library : Library F) (feed : ParsedFeed F) (directory : Directory) :
    Directory :=
  { directory with reputation := some (renderPrometheusText library.floats feed.records) }

/-- `_collect` from the answer of SNDS on. -/
def useAnswer (library : Library F) (run : Run F) (firstSeen lastSuccess : Option F)
    (directory : Directory) : Directory × Except Unit (RunOutcome F) :=
  match run.answer with
  | .noData =>
    run.upTo .recording directory
      (recordSuccessfulRun library run directory, .ok ⟨0, firstSeen, some run.now, some false⟩)
  | .failed => (directory, .ok ⟨1, firstSeen, lastSuccess, none⟩)
  | .text raw =>
    run.upTo .parsing directory <|
      match parseSndsFeed library.floats raw with
      | .error () => (directory, .error ())
      | .ok feed =>
        if !feed.usable then (directory, .ok ⟨1, firstSeen, lastSuccess, none⟩)
        else if !run.writable then (directory, .error ())
        else
          run.upTo .writing directory <|
            run.upTo .recording (writeSnapshot library feed directory) <| run.upTo .reporting
                (recordSuccessfulRun library run (writeSnapshot library feed directory))
                (recordSuccessfulRun library run (writeSnapshot library feed directory),
                  .ok ⟨0, firstSeen, some run.now, some (!feed.records.isEmpty)⟩)

def collect (library : Library F) (run : Run F) (directory : Directory) :
    Directory × Except Unit (RunOutcome F) :=
  match run.url with
  | none | some [] => (directory, .ok ⟨1, none, none, none⟩)
  | some url =>
    run.upTo .reading directory <|
      match readLinkState library run url directory with
      | .error () => (directory, .error ())
      | .ok ((firstSeen, lastSuccess), directory) =>
        run.upTo .fetching directory (useAnswer library run firstSeen lastSuccess directory)

/-- `main`: the directory a run leaves and its exit code. -/
def main (library : Library F) (run : Run F) (directory : Directory) : Directory × Nat :=
  match collect library run directory with
  | (directory, .error ()) => (publishHealth library run ⟨1, none, none, none⟩ directory, 1)
  | (directory, .ok outcome) => (publishHealth library run outcome directory, outcome.exitCode)

end SharedInfra.Snds
