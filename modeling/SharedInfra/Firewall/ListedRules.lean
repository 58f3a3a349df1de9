import SharedInfra.Python.Shlex

/-!
# The listed rules of a filter table

The tolerant reader of `deploy_tooling_chain.py`: one `-A` line of
`iptables -S` becomes a chain name and a `Rule` reduced to the fields the policy
uses (`parseRule`), and a whole listing becomes a `Table` (`parseListing`).

A rule with an option the reader does not know keeps it in `extra`, so it is
never equal to a rule of the policy.
-/

namespace SharedInfra.Firewall

open Python

/-- One rule as `iptables -S` prints it, reduced to the fields the policy uses. -/
structure Rule where
  target : Str := []
  goto : Bool := false
  inIface : Str := []
  outIface : Str := []
  outNegated : Bool := false
  src : Str := []
  srcNegated : Bool := false
  dst : Str := []
  protocol : Str := []
  dport : Str := []
  ctstate : Finset Str := ∅
  ctorigdst : Str := []
  ctorigdstport : Str := []
  extra : List Str := []
deriving DecidableEq

/-- Whether the rule matches on anything, so that it is not a rule for every packet. -/
def Rule.hasMatch (r : Rule) : Bool :=
  !r.inIface.isEmpty || !r.outIface.isEmpty || !r.src.isEmpty || !r.dst.isEmpty ||
    !r.protocol.isEmpty || !r.dport.isEmpty || decide (r.ctstate ≠ ∅) ||
    !r.ctorigdst.isEmpty || !r.ctorigdstport.isEmpty || !r.extra.isEmpty

/-- The match modules whose `-m` the reader passes over. -/
def knownMatchModules : List Str := ["conntrack", "tcp", "udp"]

/-- `normalise_address`: a host route's `/32` is dropped. -/
def normaliseAddress (value : Str) : Str := removeSuffix value "/32"

/-- The fields an option without a negated form sets (`_PLAIN_OPTIONS`). -/
inductive PlainField where
  | inIface
  | dst
  | protocol
  | dport
  | ctorigdst
  | ctorigdstport
deriving DecidableEq

def plainOptions : List (Str × PlainField) :=
  [("-i", .inIface), ("--in-interface", .inIface), ("-d", .dst), ("--destination", .dst),
    ("-p", .protocol), ("--protocol", .protocol), ("--dport", .dport),
    ("--destination-port", .dport), ("--ctorigdst", .ctorigdst),
    ("--ctorigdstport", .ctorigdstport)]

/-- The dictionary `parse_rule` collects; an absent key is `none`. -/
structure Fields where
  target : Option Str := none
  goto : Option Bool := none
  plain : PlainField → Option Str := fun _ => none
  outIface : Option Str := none
  outNegated : Option Bool := none
  src : Option Str := none
  srcNegated : Option Bool := none
  ctstate : Option (Finset Str) := none

/-- `frozenset(value.split(","))`. -/
def stateSet (value : Str) : Finset Str := (splitOnChar ',' value).toFinset

/-- What one word with its next word as value does to the fields, and whether a
negation before it is still unread; `none` when the word is not a known option. -/
def readOption (word value : Str) (negate : Bool) (fields : Fields) :
    Option (Fields × Bool) :=
  if word ∈ (["-m", "--match"] : List Str) ∧ value ∈ knownMatchModules then
    some (fields, negate)
  else if word ∈ (["-s", "--source"] : List Str) then
    some ({ fields with src := some (normaliseAddress value), srcNegated := some negate }, false)
  else if word ∈ (["-o", "--out-interface"] : List Str) then
    some ({ fields with outIface := some value, outNegated := some negate }, false)
  else match plainOptions.lookup word, negate with
    | some field, false =>
      some ({ fields with plain := Function.update fields.plain field (some value) }, negate)
    | _, _ =>
      if word = "--ctstate" ∧ negate = false then
        some ({ fields with ctstate := some (stateSet value) }, negate)
      else if word ∈ (["-j", "--jump", "-g", "--goto"] : List Str) then
        some ({ fields with
          target := some value
          goto := some (decide (word ∈ (["-g", "--goto"] : List Str))) }, negate)
      else none

/-- The `!` an option that could not keep its negation leaves in `extra`. -/
def bang (negate : Bool) : List Str := if negate then ["!"] else []

/-- The loop of `parse_rule` over the words after the chain's name. -/
def parseOptions : List Str → Fields → List Str → Bool → Fields × List Str
  | [], fields, extra, _ => (fields, extra)
  | word :: rest, fields, extra, negate =>
    if word = "!" then parseOptions rest fields extra true
    else match readOption word (rest.headD []) negate fields with
      | some (fields', negate') =>
        match rest with
        | [] => (fields', extra ++ bang negate')
        | _ :: rest' => parseOptions rest' fields' (extra ++ bang negate') false
      | none =>
        -- The value is read as the next word and lands in `extra` too, or is an option.
        parseOptions rest fields (extra ++ word :: bang negate) false

def buildRule (fields : Fields) (extra : List Str) : Rule where
  target := fields.target.getD []
  goto := fields.goto.getD false
  inIface := (fields.plain .inIface).getD []
  outIface := fields.outIface.getD []
  outNegated := fields.outNegated.getD false
  src := fields.src.getD []
  srcNegated := fields.srcNegated.getD false
  dst := normaliseAddress ((fields.plain .dst).getD [])
  protocol := (fields.plain .protocol).getD []
  dport := (fields.plain .dport).getD []
  ctstate := fields.ctstate.getD ∅
  ctorigdst := normaliseAddress ((fields.plain .ctorigdst).getD [])
  ctorigdstport := (fields.plain .ctorigdstport).getD []
  extra := extra

/-- `parse_rule`: the chain and the rule of one `-A` line.  A line `shlex` cannot
split has no chain at all. -/
def parseRule (line : Str) : Str × Rule :=
  match shlexSplit line with
  | none => ([], { extra := ["unparsed"] })
  | some words =>
    let read := parseOptions (words.drop 2) {} [] false
    (words.getD 1 [], buildRule read.1 read.2)

/-- The chains of one filter table and the rules in each, in order. -/
structure Table where
  chains : List Str := []
  rules : Str → List Rule := fun _ => []

/-- Count a chain in. -/
def Table.addChain (t : Table) (chain : Str) : Table :=
  { t with chains := chain :: t.chains }

/-- Put one rule at the end of its chain. -/
def Table.addRule (t : Table) (chain : Str) (rule : Rule) : Table where
  chains := chain :: t.chains
  rules := Function.update t.rules chain (t.rules chain ++ [rule])

/-- What one line of a listing adds; `none` where `line.split()[1]` raises `IndexError`. -/
def readLine (t : Table) (line : Str) : Option Table :=
  if startsWith line "-N " || startsWith line "-P " then
    (splitWords line)[1]?.map t.addChain
  else if startsWith line "-A " then
    let read := parseRule line
    some (t.addRule read.1 read.2)
  else some t

def parseListing (text : Str) : Option Table :=
  (splitlines text).foldlM readLine {}

/-- `render`: the rule as the option string the policy program passes to the tool. -/
def render (r : Rule) : Str :=
  let opt (present : Str) (words : List Str) : List Str := if present.isEmpty then [] else words
  let parts : List Str :=
    opt r.inIface ["-i", r.inIface] ++
    opt r.outIface [if r.outNegated then "!" else [], "-o", r.outIface] ++
    opt r.src [if r.srcNegated then "!" else [], "-s", r.src] ++
    opt r.dst ["-d", r.dst] ++
    opt r.protocol ["-p", r.protocol] ++
    opt r.dport ["--dport", r.dport] ++
    (if r.ctstate = ∅ then []
      else (["-m", "conntrack", "--ctstate", joinWith "," (sortedSet r.ctstate)] : List Str)) ++
    opt r.ctorigdst ["--ctorigdst", r.ctorigdst, "--ctorigdstport", r.ctorigdstport] ++
    (["-j", r.target] : List Str)
  joinWith " " (parts.filter (fun part => !part.isEmpty))

end SharedInfra.Firewall
