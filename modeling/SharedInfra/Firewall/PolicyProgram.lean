import SharedInfra.Firewall.ChainSummary
import SharedInfra.Sequences.EnsureAt

/-!
# The policy program

`branchleft_docker_user_policy.sh` over the filter tables of a host.  Each
`ensure_rule_at` does nothing when an equal rule is in the chain and else
inserts the rule at its position; the rules are worked through in the reverse of
the order they must be evaluated in.

A run is `none` where the program exits before its end.
-/

namespace SharedInfra.Firewall

open Python Sequences

abbrev Tables : Type := Family → Table

/-- Put a chain's rules in place of the ones it has. -/
def Tables.setRules (tables : Tables) (tool : Family) (chain : Str) (rules : List Rule) : Tables :=
  Function.update tables tool {
    tables tool with rules := Function.update (tables tool).rules chain rules }

/-- What the program learns from its host and its environment. -/
structure Host where
  addresses : List Str
  noDbExceptionAddresses : List Str
  dbHostOverride : Option Str
  installed : Family → Bool

/-- `DB_HOST`: a caller's value wins, even an empty one; else the host's own address
decides. -/
def Host.dbHost (host : Host) (l : Literals) : Str :=
  match host.dbHostOverride with
  | some value => value
  | none =>
    if host.noDbExceptionAddresses.any (host.addresses.contains ·) then [] else l.dbHost

/-- `holds_protected_address`. -/
def Host.holdsProtected (host : Host) (l : Literals) : Bool :=
  host.addresses.contains l.protectedAddress

/-- A shell `if` with no `else`. -/
def onlyIf (test : Bool) (work : Tables → Option Tables) (tables : Tables) : Option Tables :=
  if test then work tables else some tables

/-- `ensure_rule_at`: `-C`, else `-I`, which fails on a chain that is not there. -/
def ensureRuleAt (tool : Family) (pos : Nat) (chain : Str) (rule : Rule) (tables : Tables) :
    Option Tables :=
  if chain ∈ (tables tool).chains then
    (ensureAt pos rule ((tables tool).rules chain)).map (tables.setRules tool chain)
  else none

/-- `ensure_rule`: IPv4, at the top. -/
def ensureRule (chain : Str) (rule : Rule) (tables : Tables) : Option Tables :=
  ensureRuleAt .iptables 1 chain rule tables

/-- `-d $METADATA_ADDRESS -j DROP`. -/
def metadataDrop (l : Literals) : Rule where
  target := dropTarget
  dst := l.metadataAddress

/-- `-d $SUBNET -j DROP`. -/
def subnetDrop (l : Literals) : Rule where
  target := dropTarget
  dst := l.subnet

/-- `-d $DB_HOST -p tcp --dport $DB_PORT -j ACCEPT`. -/
def databaseAccept (l : Literals) (dbHost : Str) : Rule where
  target := acceptTarget
  dst := dbHost
  protocol := "tcp"
  dport := l.dbPort

/-- `-m conntrack --ctstate ESTABLISHED,RELATED -j ACCEPT`. -/
def conntrackAccept : Rule where
  target := acceptTarget
  ctstate := stateSet "ESTABLISHED,RELATED"

/-- `-p tcp -m conntrack --ctorigdst $PROTECTED_ADDRESS --ctorigdstport $port
! -s $GATEWAY_PRIVATE_IP -j DROP`. -/
def portDrop (l : Literals) (port : Str) : Rule where
  target := dropTarget
  src := l.gatewayIp
  srcNegated := true
  protocol := "tcp"
  ctorigdst := l.protectedAddress
  ctorigdstport := port

/-- `-i $MAIL_SPOOL_BRIDGE ! -o $MAIL_SPOOL_BRIDGE -j DROP`. -/
def bridgeForwardDrop (l : Literals) : Rule where
  target := dropTarget
  inIface := l.mailSpoolBridge
  outIface := l.mailSpoolBridge
  outNegated := true

/-- `-i $MAIL_SPOOL_BRIDGE -j DROP`. -/
def bridgeInputDrop (l : Literals) : Rule where
  target := dropTarget
  inIface := l.mailSpoolBridge

/-- `-i $MAIL_SPOOL_BRIDGE -m conntrack --ctstate ESTABLISHED,RELATED -j ACCEPT`. -/
def bridgeConntrackAccept (l : Literals) : Rule where
  target := acceptTarget
  inIface := l.mailSpoolBridge
  ctstate := stateSet "ESTABLISHED,RELATED"

/-- The loop over `$PROTECTED_PORTS`. -/
def ensurePortDrops (l : Literals) : List Str → Tables → Option Tables
  | [], tables => some tables
  | port :: ports, tables =>
    (ensureRuleAt .iptables 2 dockerUserChain (portDrop l port) tables).bind
      (ensurePortDrops l ports)

def ensureSpoolRules (l : Literals) (host : Host) (tool : Family) (forwardPos : Nat)
    (tables : Tables) : Option Tables :=
  if host.installed tool = false then none
  else do
    let tables ← onlyIf (decide (dockerUserChain ∈ (tables tool).chains))
      (ensureRuleAt tool forwardPos dockerUserChain (bridgeForwardDrop l)) tables
    let tables ← ensureRuleAt tool 1 inputChain (bridgeInputDrop l) tables
    ensureRuleAt tool 1 inputChain (bridgeConntrackAccept l) tables

def runPolicyProgram (l : Literals) (host : Host) (tables : Tables) : Option Tables :=
  if host.installed .iptables = false then none
  else if host.addresses.contains l.gatewayIp then none
  else if dockerUserChain ∉ (tables .iptables).chains then none
  else do
    let tables ← ensureRule dockerUserChain (metadataDrop l) tables
    let tables ← ensureRule dockerUserChain (subnetDrop l) tables
    let tables ← onlyIf (!(host.dbHost l).isEmpty)
      (ensureRule dockerUserChain (databaseAccept l (host.dbHost l))) tables
    let tables ← ensureRule dockerUserChain conntrackAccept tables
    let tables ← onlyIf (host.holdsProtected l) (ensurePortDrops l l.protectedPorts) tables
    let tables ← ensureSpoolRules l host .iptables 2 tables
    ensureSpoolRules l host .ip6tables 1 tables

/-- An application host at boot: no override, and none of the addresses the program knows. -/
def applicationHost : Host where
  addresses := ["10.20.1.30"]
  noDbExceptionAddresses := ["10.20.1.50"]
  dbHostOverride := none
  installed := fun _ => true

def ruleOf (words : List Str) : Rule :=
  let read := parseOptions words {} [] false
  buildRule read.1 read.2

/-- The option words the script passes for each of its rules, with the rule. -/
def scriptWords (l : Literals) (port : Str) : List (List Str × Rule) :=
  [(["-d", l.metadataAddress, "-j", "DROP"], metadataDrop l),
    (["-d", l.subnet, "-j", "DROP"], subnetDrop l),
    (["-d", l.dbHost, "-p", "tcp", "--dport", l.dbPort, "-j", "ACCEPT"],
      databaseAccept l l.dbHost),
    (["-m", "conntrack", "--ctstate", "ESTABLISHED,RELATED", "-j", "ACCEPT"], conntrackAccept),
    (["-p", "tcp", "-m", "conntrack", "--ctorigdst", l.protectedAddress, "--ctorigdstport",
      port, "!", "-s", l.gatewayIp, "-j", "DROP"], portDrop l port),
    (["-i", l.mailSpoolBridge, "!", "-o", l.mailSpoolBridge, "-j", "DROP"],
      bridgeForwardDrop l),
    (["-i", l.mailSpoolBridge, "-j", "DROP"], bridgeInputDrop l),
    (["-i", l.mailSpoolBridge, "-m", "conntrack", "--ctstate", "ESTABLISHED,RELATED", "-j",
      "ACCEPT"], bridgeConntrackAccept l)]

/-- No address is written as a host route. -/
def Literals.Plain (l : Literals) : Prop :=
  ∀ address ∈ [l.metadataAddress, l.subnet, l.dbHost, l.protectedAddress, l.gatewayIp],
    normaliseAddress address = address

theorem ruleOf_scriptWords {l : Literals} (h : l.Plain) (port : Str) :
    ∀ entry ∈ scriptWords l port, ruleOf entry.1 = entry.2 := by
  have hnil : normaliseAddress [] = [] := by decide
  simp only [Literals.Plain, List.forall_mem_cons] at h
  obtain ⟨hmeta, hsubnet, hdb, hprotected, hgateway, _⟩ := h
  simp only [scriptWords, List.forall_mem_cons]
  refine ⟨?_, ?_, ?_, ?_, ?_, ?_, ?_, ?_, by simp⟩ <;>
    simp [ruleOf, parseOptions, readOption, plainOptions, List.lookup, buildRule, bang,
      knownMatchModules, hnil, hmeta, hsubnet, hdb, hprotected, hgateway, metadataDrop,
      subnetDrop, databaseAccept, conntrackAccept, portDrop, bridgeForwardDrop,
      bridgeInputDrop, bridgeConntrackAccept, dropTarget, acceptTarget]

end SharedInfra.Firewall
