import SharedInfra.Firewall.PolicyLiterals
import SharedInfra.Sequences.Greedy

/-!
# The firewall read-back

`deploy_tooling_chain.py` in mode check: what each chain must carry
(`policies`), the check of one chain (`checkChain`), of `FORWARD`
(`checkForward`) and of everything (`checkAll`).

The policy's rules must stand in the chain in the policy's order
(`matchOwned`, a greedy subsequence scan), and no other rule above the policy's
last drop may be able to let a packet past it (`bypasses`).
-/

namespace SharedInfra.Firewall

open Python Sequences

/-- One rule the policy adds, with the name a message gives it. -/
structure Owned where
  label : Str
  rule : Rule
deriving DecidableEq

/-- What one chain must carry, top to bottom, and what it must not. -/
structure ChainPolicy where
  family : Family
  chain : Str
  owned : List Owned
  forbidden : List Owned
  onlyIfPresent : Bool
deriving DecidableEq

/-- What a passing check found. -/
structure Result where
  ownedRules : Nat
  foreignRules : Nat
deriving DecidableEq

def dockerUserChain : Str := "DOCKER-USER"
def forwardChain : Str := "FORWARD"
def inputChain : Str := "INPUT"
def acceptTarget : Str := "ACCEPT"
def dropTarget : Str := "DROP"
def rejectTarget : Str := "REJECT"

def droppingTargets : List Str := [dropTarget, rejectTarget]

def conntrackStates : Finset Str := stateSet "ESTABLISHED,RELATED"

def establishedAccept (bridge : Str) : Rule where
  target := acceptTarget
  inIface := bridge
  ctstate := conntrackStates

def spoolForwardDrop (l : Literals) : Owned where
  label := "spool bridge forward drop"
  rule := {
    target := dropTarget
    inIface := l.mailSpoolBridge
    outIface := l.mailSpoolBridge
    outNegated := true }

def spoolInput (l : Literals) : List Owned :=
  [⟨"spool bridge established accept", establishedAccept l.mailSpoolBridge⟩,
    ⟨"spool bridge input drop", { target := dropTarget, inIface := l.mailSpoolBridge }⟩]

def dbAccept (l : Literals) : Owned where
  label := "database accept"
  rule := { target := acceptTarget, dst := l.dbHost, protocol := "tcp", dport := l.dbPort }

def protectedDrop (l : Literals) (port : Str) : Owned where
  label := ("protected-port drop " : Str) ++ port
  rule := {
    target := dropTarget
    src := l.gatewayIp
    srcNegated := true
    protocol := "tcp"
    ctorigdst := l.protectedAddress
    ctorigdstport := port }

/-- `_protected_drops`: the program inserts each at the same position, so the last
port ends up first. -/
def protectedDrops (l : Literals) : List Owned :=
  l.protectedPorts.reverse.map (protectedDrop l)

/-- The rules of the IPv4 `DOCKER-USER` chain. -/
def dockerUserOwned (l : Literals) (variant : Variant) : List Owned :=
  [⟨"established accept", establishedAccept []⟩, spoolForwardDrop l] ++
    (match variant with
      | .standard => [dbAccept l]
      | .protectedNoDb => protectedDrops l) ++
    [⟨"subnet drop", { target := dropTarget, dst := l.subnet }⟩,
      ⟨"metadata drop", { target := dropTarget, dst := l.metadataAddress }⟩]

def policies (l : Literals) (variant : Variant) : List ChainPolicy :=
  [{ family := .iptables
     chain := dockerUserChain
     owned := dockerUserOwned l variant
     forbidden := match variant with
       | .standard => protectedDrops l
       | .protectedNoDb => [dbAccept l]
     onlyIfPresent := false },
    { family := .iptables
      chain := inputChain
      owned := spoolInput l
      forbidden := []
      onlyIfPresent := false },
    { family := .ip6tables
      chain := inputChain
      owned := spoolInput l
      forbidden := []
      onlyIfPresent := false },
    { family := .ip6tables
      chain := dockerUserChain
      owned := [spoolForwardDrop l]
      forbidden := []
      onlyIfPresent := true }]

/-- The policy's rules of one chain, without their labels. -/
def ChainPolicy.ownedRules (p : ChainPolicy) : List Rule := p.owned.map Owned.rule

def othersCount (p : ChainPolicy) (observed : List Rule) : Nat :=
  observed.countP fun rule => decide (rule ∉ (p.owned ++ p.forbidden).map Owned.rule)

/-- `_match_owned`: the places, in the policy's order, of the rules found in order. -/
def matchOwned (p : ChainPolicy) (observed : List Rule) : List Nat :=
  greedyPositions p.ownedRules 0 observed

def dropPlaces (p : ChainPolicy) (matched : List Nat) : List Nat :=
  ((p.owned.zip matched).filter fun found => found.1.rule.target = dropTarget).map Prod.snd

/-- Python's `max(places, default=start)` for a start below every place. -/
def maxPlace (start : Int) (places : List Nat) : Int :=
  places.foldl (fun (last : Int) (place : Nat) => max last place) start

/-- `_last_drop`: the lowest place a drop of the policy was found at, or -1. -/
def lastDrop (p : ChainPolicy) (matched : List Nat) : Int :=
  maxPlace (-1) (dropPlaces p matched)

/-- `_cannot_bypass`: whether a foreign rule above the policy's last drop cannot let a
packet past it. -/
def cannotBypass (rule : Rule) (allowed : List Str) : Bool :=
  (decide (rule.target ∈ droppingTargets) && rule.hasMatch) ||
    (decide (rule.target ∈ allowed) && !rule.goto && rule.extra.isEmpty)

def bypasses (rule : Rule) (index : Nat) (ownedPositions : List Nat) (allowed : List Str) :
    Bool :=
  decide (index ∉ ownedPositions) && !cannotBypass rule allowed

/-- The first place of each owned rule, as `_displaced` collects them; `none` when one is
absent. -/
def firstPlaces (p : ChainPolicy) (observed : List Rule) : Option (List Nat) :=
  p.ownedRules.mapM fun rule => observed.findIdx? (fun r => decide (r = rule))

/-- Whether every place is before the next. -/
def inOrder (places : List Nat) : Bool :=
  (places.zip places.tail).all fun pair => pair.1 < pair.2

/-- `_displaced`: the label of the first owned rule whose removal leaves the rest in
order. -/
def displaced (p : ChainPolicy) (observed : List Rule) (fallback : Str) : Str :=
  match firstPlaces p observed with
  | none => fallback
  | some places =>
    match p.owned.zipIdx.find? fun o => inOrder (places.eraseIdx o.2) with
    | some found => found.1.label
    | none => fallback

/-- Python's slice `xs[:n]`. -/
def sliceTo {α : Type} (xs : List α) (n : Int) : List α :=
  if 0 ≤ n then xs.take n.toNat else xs.take ((xs.length : Int) + n).toNat

/-- The first rule above the last drop that could let a packet past it, with its place. -/
def firstBypass (observed : List Rule) (last : Int) (ownedPositions : List Nat)
    (allowed : List Str) : Option (Rule × Nat) :=
  (sliceTo observed last).zipIdx.find? fun r => bypasses r.1 r.2 ownedPositions allowed

/-- The rules of a chain, from the point where the chain is known to exist. -/
def checkObserved (p : ChainPolicy) (observed : List Rule) (variant : Variant)
    (allowed : List Str) : Except CheckError Result :=
  let others := othersCount p observed
  let matched := matchOwned p observed
  match p.owned[matched.length]? with
  | some missing =>
    if missing.rule ∈ observed then
      throw (.ruleMisplaced p.family p.chain (displaced p observed missing.label)
        (p.owned.map Owned.label) others)
    else
      throw (.ruleMissing p.family p.chain missing.label (render missing.rule) others)
  | none =>
    match p.forbidden.find? fun o => decide (o.rule ∈ observed) with
    | some forbidden =>
      throw (.ruleForbidden p.family p.chain forbidden.label variant others)
    | none =>
      match firstBypass observed (lastDrop p matched) matched allowed with
      | some (rule, index) =>
        throw (.ruleBypass p.family p.chain (index + 1) rule.target others)
      | none => pure ⟨p.owned.length, observed.length - p.owned.length⟩

def checkChain (p : ChainPolicy) (table : Table) (variant : Variant) (allowed : List Str) :
    Except CheckError Result :=
  if p.chain ∈ table.chains then checkObserved p (table.rules p.chain) variant allowed
  else if p.onlyIfPresent then pure ⟨0, 0⟩
  else throw (.chainAbsent p.family p.chain)

/-- What the first rule of `FORWARD` is. -/
inductive ForwardFirst where
  | jumpToDockerUser
  | other
  | empty
  | notChecked
  | unreadable
deriving DecidableEq

def forwardFirst (table : Table) : ForwardFirst :=
  match table.rules forwardChain with
  | [] => .empty
  | first :: _ => if first = { target := dockerUserChain } then .jumpToDockerUser else .other

def checkForward (family : Family) (table : Table) : Except CheckError Unit :=
  if forwardFirst table = .jumpToDockerUser then pure ()
  else throw (.forwardBypass family (table.rules forwardChain).length)

/-- The outcome of one list command. -/
structure Listing where
  status : Int
  stdout : Str
  stderr : Str
deriving DecidableEq

def listTable (family : Family) (runner : Family → Listing) : Except CheckError Table :=
  let listing := runner family
  if listing.status ≠ 0 then
    throw (.listing family listing.status
      ((splitlines (strip listing.stderr)).headD "no output"))
  else match parseListing listing.stdout with
    | some table => pure table
    | none => throw .indexError

/-- The module's parameters; `text` is what reading the installed program gives. -/
structure Params where
  reconcilerPath : Str
  text : Except Str Str
  variant : Variant
  allowed : List Str

/-- A family's table from the tables listed so far, or listed now and kept. -/
def cached {τ : Type} (list : Family → Except CheckError τ) (tables : List (Family × τ))
    (family : Family) : Except CheckError (List (Family × τ) × τ) :=
  match tables.lookup family with
  | some table => .ok (tables, table)
  | none => (list family).map fun table => (tables ++ [(family, table)], table)

/-- The tables listed so far and the counts, while the chains are checked in turn. -/
structure Progress where
  tables : List (Family × Table) := []
  owned : Nat := 0
  foreign : Nat := 0

/-- One turn of the loop of `check_all`: list the family if it is new, check the chain. -/
def checkPolicy (params : Params) (runner : Family → Listing) (progress : Progress)
    (p : ChainPolicy) : Except CheckError Progress := do
  let (tables, table) ← cached (listTable · runner) progress.tables p.family
  let found ← checkChain p table params.variant params.allowed
  return {
    tables
    owned := progress.owned + found.ownedRules
    foreign := progress.foreign + found.foreignRules }

/-- The check of `FORWARD` in every family listed. -/
def checkForwards : List (Family × Table) → Except CheckError Unit
  | [] => pure ()
  | (family, table) :: rest => do
    if dockerUserChain ∈ table.chains then checkForward family table
    checkForwards rest

def checkAll (params : Params) (runner : Family → Listing) : Except CheckError Result := do
  let text ← match params.text with
    | .ok text => pure text
    | .error reason => throw (.reconcilerUnreadable params.reconcilerPath reason)
  let literals ← readLiterals text
  let progress ← (policies literals params.variant).foldlM (checkPolicy params runner) {}
  checkForwards progress.tables
  return ⟨progress.owned, progress.foreign⟩

/-!
# The firewall summary

`deploy_tooling_chain.py` in mode summary: the same chains and the same bypass
test as the read-back, but every rule gets a row with a verdict and nothing
fails on what the chains hold.
-/

/-- What the summary says of one rule the policy did not put in a chain. -/
inductive Verdict where
  | wouldRefuse
  | ok
  | belowPolicy
  | atRisk
deriving DecidableEq

/-- Whether a chain could be read, and whether it is there. -/
inductive ChainState where
  | listed
  | absent
  | unreadable
deriving DecidableEq

/-- One foreign rule: its place, its target's name, its verdict. -/
structure ForeignRow where
  position : Nat
  target : Str
  verdict : Verdict
deriving DecidableEq

/-- What the summary found in one chain. -/
structure ChainSummary where
  family : Family
  chain : Str
  state : ChainState
  required : Bool
  exitStatus : Int
  rules : Nat
  policyPresent : Nat
  policyTotal : Nat
  rows : List ForeignRow
deriving DecidableEq

/-- Whether the chain is one the policy needs and the host does not have. -/
def ChainSummary.refused (c : ChainSummary) : Bool :=
  decide (c.state = .absent) && c.required

/-- How many rows of the chain the read-back would fail on. -/
def ChainSummary.refusedRows (c : ChainSummary) : Nat :=
  c.rows.countP fun row => decide (row.verdict = .wouldRefuse)

/-- What the first rule of `FORWARD` is, in one family. -/
structure ForwardSummary where
  family : Family
  first : ForwardFirst
  rules : Nat
deriving DecidableEq

/-- Whether the check would fail on it: anything but the plain jump, rule one. -/
def ForwardSummary.refused (f : ForwardSummary) : Bool :=
  decide (f.first = .other) || decide (f.first = .empty)

/-- Everything mode summary reports. -/
structure Summary where
  chains : List ChainSummary
  forwards : List ForwardSummary
deriving DecidableEq

/-- How many rows, `FORWARD` first rules and absent chains the read-back would fail on. -/
def Summary.wouldRefuse (s : Summary) : Nat :=
  (s.chains.map ChainSummary.refusedRows).sum + s.chains.countP ChainSummary.refused +
    s.forwards.countP ForwardSummary.refused

/-- How many rows could be refused if a tool put them above the policy. -/
def Summary.atRisk (s : Summary) : Nat :=
  (s.chains.map fun c => c.rows.countP fun row => decide (row.verdict = .atRisk)).sum

/-- How many chains and `FORWARD` checks could not be read. -/
def Summary.unreadable (s : Summary) : Nat :=
  s.chains.countP (fun c => decide (c.state = .unreadable)) +
    s.forwards.countP (fun f => decide (f.first = .unreadable))

/-- What stands for a target that is not a chain's or a built-in target's name. -/
def unreadableTarget : Str := "none or unreadable"

def shownTarget (target : Str) : Str :=
  if isChainName target then target else unreadableTarget

/-- `_verdict`: above the last drop it is the read-back's own decision. -/
def verdict (p : ChainPolicy) (observed : List Rule) (rule : Rule) (index : Nat) (last : Int)
    (ownedPositions : List Nat) (allowed : List Str) : Verdict :=
  if 0 ≤ last then
    if last < index then .belowPolicy
    else if bypasses rule index ownedPositions allowed then .wouldRefuse else .ok
  else if !bypasses rule index ownedPositions allowed then .ok
  else if p.chain = dockerUserChain ∧ index + 1 = observed.length ∧
      rule.target = ("RETURN" : Str) ∧ rule.hasMatch = false then .belowPolicy
  else .atRisk

def foreignRows (p : ChainPolicy) (observed : List Rule) (allowed : List Str) :
    List ForeignRow :=
  let matched := matchOwned p observed
  (observed.zipIdx.filter fun r => decide (r.2 ∉ matched)).map fun r =>
    { position := r.2 + 1
      target := shownTarget r.1.target
      verdict := verdict p observed r.1 r.2 (lastDrop p matched) matched allowed }

/-- `_summarise_chain`; a family that could not be listed is its exit status. -/
def summariseChain (p : ChainPolicy) (table : Except Int Table) (allowed : List Str) :
    ChainSummary :=
  let base : ChainSummary := {
    family := p.family
    chain := p.chain
    state := .absent
    required := !p.onlyIfPresent
    exitStatus := 0
    rules := 0
    policyPresent := 0
    policyTotal := p.owned.length
    rows := [] }
  match table with
  | .error status => { base with state := .unreadable, exitStatus := status }
  | .ok t =>
    if p.chain ∈ t.chains then
      { base with
        state := .listed
        rules := (t.rules p.chain).length
        policyPresent := (matchOwned p (t.rules p.chain)).length
        rows := foreignRows p (t.rules p.chain) allowed }
    else base

def summariseForward (family : Family) : Except Int Table → ForwardSummary
  | .error _ => ⟨family, .unreadable, 0⟩
  | .ok t =>
    if dockerUserChain ∈ t.chains then
      ⟨family, forwardFirst t, (t.rules forwardChain).length⟩
    else ⟨family, .notChecked, 0⟩

def tableOrStatus (family : Family) (runner : Family → Listing) :
    Except CheckError (Except Int Table) :=
  let listing := runner family
  if listing.status ≠ 0 then pure (.error listing.status)
  else match parseListing listing.stdout with
    | some table => pure (.ok table)
    | none => throw .indexError

/-- The tables and statuses so far and the chains summarised, in the loop of `summarise`. -/
structure SummaryProgress where
  tables : List (Family × Except Int Table) := []
  chains : List ChainSummary := []

/-- One turn of the loop of `summarise`. -/
def summarisePolicy (allowed : List Str) (runner : Family → Listing)
    (progress : SummaryProgress) (p : ChainPolicy) : Except CheckError SummaryProgress := do
  let (tables, table) ← cached (tableOrStatus · runner) progress.tables p.family
  return {
    tables
    chains := progress.chains ++ [summariseChain p table allowed] }

def summarise (text : Str) (variant : Variant) (allowed : List Str)
    (runner : Family → Listing) : Except CheckError Summary := do
  let literals ← readLiterals text
  let progress ← (policies literals variant).foldlM (summarisePolicy allowed runner) {}
  return {
    chains := progress.chains
    forwards := progress.tables.map fun t => summariseForward t.1 t.2 }

end SharedInfra.Firewall
