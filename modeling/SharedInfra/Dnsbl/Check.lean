import SharedInfra.Dnsbl.Response

/-!
# The blocklist check

`classify_outcome`, `evaluate_dnsbl`, `build_alert`, `run_checks`, `resolve_a_records` and
`main` of `check_dnsbl_blocklist.py`.  What the resolver replies to a query, and what else
the run meets, is part of the run (`CheckRun`).
-/

namespace SharedInfra.Dnsbl

open Python

inductive Verdict where
  | listed
  | notListed
  | queryError
  | lookupFailed
  | zoneUnresponsive
deriving DecidableEq

def Verdict.value : Verdict → Str
  | .listed => "listed"
  | .notListed => "not_listed"
  | .queryError => "query_error"
  | .lookupFailed => "lookup_failed"
  | .zoneUnresponsive => "zone_unresponsive"

def actionableVerdicts : List Verdict :=
  [.listed, .queryError, .lookupFailed, .zoneUnresponsive]

structure DnsblSpec where
  key : Str
  name : Str
  zone : Str
  delistingUrl : Str

def dnsbls : List DnsblSpec :=
  [⟨"spamhaus_zen", "Spamhaus ZEN", "zen.spamhaus.org", "https://check.spamhaus.org/"⟩,
    ⟨"barracuda", "Barracuda Reputation Block List", "b.barracudacentral.org",
      "https://www.barracudacentral.org/rbl/removal-request"⟩,
    ⟨"spamcop", "SpamCop Blocking List", "bl.spamcop.net", "https://www.spamcop.net/bl.shtml"⟩,
    ⟨"sorbs", "SORBS", "dnsbl.sorbs.net", "http://www.sorbs.net/lookup.shtml"⟩,
    ⟨"uceprotect_l1", "UCEPROTECT Level 1", "dnsbl-1.uceprotect.net",
      "http://www.uceprotect.net/en/rblcheck.php"⟩]

def sentinelListedIp : Str := "127.0.0.2"

def queryErrorPrefix : Str := "127.255.255."

inductive Detail where
  | none
  | selfTest (sentinel : Verdict)
  | queryErrorCode
  | lookup (error : LookupError)
  | lookupFailed

structure CheckResult where
  spec : DnsblSpec
  verdict : Verdict
  addresses : List Str
  detail : Detail

def classifyOutcome (outcome : ResolutionOutcome) : Verdict :=
  if !outcome.ok then .lookupFailed
  else if outcome.addresses = [] then .notListed
  else if outcome.addresses.all fun address => startsWith address queryErrorPrefix then .queryError
  else .listed

def evaluateDnsbl (spec : DnsblSpec) (sentinelOutcome targetOutcome : ResolutionOutcome) :
    CheckResult :=
  let sentinelVerdict := classifyOutcome sentinelOutcome
  if sentinelVerdict ≠ .listed then ⟨spec, .zoneUnresponsive, [], .selfTest sentinelVerdict⟩
  else
    let targetVerdict := classifyOutcome targetOutcome
    if targetVerdict = .queryError then
      ⟨spec, .queryError, targetOutcome.addresses, .queryErrorCode⟩
    else if targetVerdict = .lookupFailed then
      ⟨spec, .lookupFailed, [], (targetOutcome.error.map Detail.lookup).getD .lookupFailed⟩
    else ⟨spec, targetVerdict, targetOutcome.addresses, .none⟩

inductive Alert where
  | newListing (spec : DnsblSpec) (codes : List Str)
  | stillListed (spec : DnsblSpec) (codes : List Str)
  | inconclusive (spec : DnsblSpec) (detail : Detail)

def alertOf (previousState : List (Str × Str)) (result : CheckResult) : Option Alert :=
  if result.verdict = .listed then
    some (if previousState.lookup result.spec.key = some Verdict.listed.value then
      .stillListed result.spec result.addresses else .newListing result.spec result.addresses)
  else if result.verdict ∈ actionableVerdicts then some (.inconclusive result.spec result.detail)
  else none

def buildAlert (previousState : List (Str × Str)) (results : List CheckResult) :
    List (Str × Str) × List Alert :=
  (results.map fun result => (result.spec.key, result.verdict.value),
    results.filterMap (alertOf previousState))

/-- `reverse_ipv4`; `none` is a `ValueError`. -/
def reverseIpv4 (ip : Str) : Option Str :=
  (ipv4Value ip).map fun value => joinWith "." (splitOnChar '.' (ipv4Text value)).reverse

def buildQueryName (ip zone : Str) : Option Str :=
  (reverseIpv4 ip).map fun reversed => reversed ++ '.' :: zone

structure Lookup where
  id : Nat
  reply : Except Str Bytes

def resolveARecords (hostname : Str) (lookup : Lookup) : Except Raised ResolutionOutcome :=
  match buildQuery hostname lookup.id with
  | none => .ok ⟨false, [], some (.other "invalid query")⟩
  | some _ =>
    match lookup.reply with
    | .error text => .ok ⟨false, [], some (.other text)⟩
    | .ok payload => parseResponse payload lookup.id hostname

/-- The address that is looked up: the sentinel's or the target's. -/
inductive Asked where
  | sentinel
  | target

structure CheckRun where
  status : Bool
  /-- `TARGET_IP` or the address of `TARGET_HOST`; `none` where that raises. -/
  target : Option Str
  /-- What `_load_state` returns; `none` where it raises or is no `dict`. -/
  previousState : Option (List (Str × Str))
  lookups : DnsblSpec → Asked → Lookup
  saves : Bool

/-- An exception in `main`. -/
inductive Crash where
  | valueError
  | escaped (what : Raised)

def lookUp (ip zone : Str) (lookup : Lookup) : Except Crash ResolutionOutcome :=
  match buildQueryName ip zone with
  | none => .error .valueError
  | some name => (resolveARecords name lookup).mapError .escaped

/-- One turn of the loop of `run_checks`. -/
def checkZone (run : CheckRun) (ip : Str) (spec : DnsblSpec) : Except Crash CheckResult := do
  let sentinelOutcome ← lookUp sentinelListedIp spec.zone (run.lookups spec .sentinel)
  let targetOutcome ← lookUp ip spec.zone (run.lookups spec .target)
  return evaluateDnsbl spec sentinelOutcome targetOutcome

/-- `run_checks`: the state to save and the alerts. -/
def runChecks (run : CheckRun) (ip : Str) (zones : List DnsblSpec)
    (previousState : List (Str × Str)) : Except Crash (List (Str × Str) × List Alert) := do
  let results ← zones.mapM (checkZone run ip)
  return buildAlert previousState results

/-- The exit code of `main`. -/
def main (run : CheckRun) : Nat :=
  if run.status then 0
  else
    match run.target, run.previousState with
    | some ip, some previousState =>
      match runChecks run ip dnsbls previousState with
      | .error _ => 1
      | .ok (_, alerts) => if !run.saves then 1 else if alerts.isEmpty then 0 else 1
    | _, _ => 1

end SharedInfra.Dnsbl
