import SharedInfra.Python.IpText

/-!
# The firewalls of the hosts

`firewalls.ts`: the rule sets, the address SSH may come from, the set with SSH narrowed to it, and
the check of a set.  A packet is let in by a rule that names its protocol and its port and one of
whose sources holds its address.
-/

namespace SharedInfra.HetznerHost

open Python

/-- `Rule`: what a firewall rule says, resolved. -/
structure Rule where
  direction : Str
  protocol : Str
  port : Option Str
  sourceIps : List Str
deriving DecidableEq

def anySource : List Str := ["0.0.0.0/0".toList, "::/0".toList]

def ssh : Rule := ⟨"in".toList, "tcp".toList, some "22".toList, anySource⟩

def icmp : Rule := ⟨"in".toList, "icmp".toList, none, anySource⟩

def edgeRules : List Rule :=
  [ssh, icmp, ⟨"in".toList, "tcp".toList, some "80".toList, anySource⟩,
    ⟨"in".toList, "tcp".toList, some "443".toList, anySource⟩]

def neverASshSource : List (Str × Nat) :=
  [("0.0.0.0".toList, 8), ("10.0.0.0".toList, 8), ("100.64.0.0".toList, 10),
    ("127.0.0.0".toList, 8), ("169.254.0.0".toList, 16), ("172.16.0.0".toList, 12),
    ("192.0.0.0".toList, 24), ("192.168.0.0".toList, 16), ("198.18.0.0".toList, 15),
    ("224.0.0.0".toList, 4), ("240.0.0.0".toList, 4)]

/-- `isIPv4` of `node:net`: four numbers without leading zeros. -/
def isIPv4 (address : Str) : Bool := (ipv4Value address).isSome

/-- `ipv4ToNumber`, for numbers of ASCII digits. -/
def ipv4ToNumber (address : Str) : Nat :=
  (splitOnChar '.' address).foldl (fun accumulator octet => accumulator * 256 + decimalValue octet) 0

def inRange (address : Nat) (range : Str × Nat) : Bool :=
  let size := 2 ^ (32 - range.2)
  let start := ipv4ToNumber range.1
  decide (start ≤ address) && decide (address < start + size)

def assertSshSourceAddress (address : Str) : Except Str Str :=
  if !isIPv4 address then
    .error ("ssh source \"".toList ++ address ++
      "\" is not a dotted-quad IPv4 address; give one public address, not a CIDR, an IPv6 ".toList ++
      "address or a hostname".toList)
  else match neverASshSource.find? (inRange (ipv4ToNumber address)) with
    | some refused =>
      .error ("ssh source ".toList ++ address ++ " is inside ".toList ++ refused.1 ++ '/' ::
        decimal refused.2 ++ ", which is not a public address".toList)
    | none => .ok address

def isSshRule (rule : Rule) : Bool :=
  decide (rule.direction = "in".toList) && decide (rule.protocol = "tcp".toList) &&
    decide (rule.port = some "22".toList)

/-- `${address}/32`. -/
def only (address : Str) : Str := address ++ "/32".toList

def sshRestrictedRules (rules : List Rule) (address : Str) : Except Str (List Rule) := do
  let source ← assertSshSourceAddress address
  if (rules.filter isSshRule).length ≠ 1 then
    .error "expected exactly one inbound tcp/22 rule to narrow".toList
  else
    .ok (rules.map fun rule =>
      if isSshRule rule then { rule with sourceIps := [only source] } else rule)

def edgeRulesSshFrom (address : Str) : Except Str (List Rule) := sshRestrictedRules edgeRules address

/-- What `JSON.stringify` writes of one character. -/
def stringifyChar (c : Char) : Str :=
  let n := c.toNat
  if c = '"' then ['\\', '"']
  else if c = '\\' then ['\\', '\\']
  else if n = 8 then ['\\', 'b']
  else if n = 9 then ['\\', 't']
  else if n = 10 then ['\\', 'n']
  else if n = 12 then ['\\', 'f']
  else if n = 13 then ['\\', 'r']
  else if n < 32 then "\\u00".toList ++ [Nat.digitChar (n / 16), Nat.digitChar (n % 16)]
  else [c]

/-- `JSON.stringify` of texts. -/
def stringify (texts : List Str) : Str :=
  '[' :: joinWith [','] (texts.map fun text => '"' :: text.flatMap stringifyChar ++ ['"']) ++ [']']

/-- `${rule.protocol}/${rule.port ?? ''}`. -/
def protocolPort (rule : Rule) : Str := rule.protocol ++ '/' :: rule.port.getD []

def ruleLabel (rule : Rule) : Str :=
  if rule.protocol = "icmp".toList then "icmp".toList else protocolPort rule

def wantedLabels : List Str :=
  ["icmp".toList, "tcp/22".toList, "tcp/443".toList, "tcp/80".toList]

def publicWebPorts : List Str := ["80".toList, "443".toList]

def isOpen (rule : Rule) : Bool :=
  !(decide (rule.protocol = "icmp".toList) || decide (rule.port.getD [] ∈ publicWebPorts)) &&
    rule.sourceIps.any fun source => decide (source ∈ anySource)

/-- `sshFromOneAddressViolations`.  The texts of two lists are one where the lists are. -/
def sshFromOneAddressViolations (rules : List Rule) (address : Str) : List Str :=
  let found := rules.filter isSshRule
  (if found.length ≠ 1 then
    ["expected exactly one tcp/22 rule, found ".toList ++ decimal found.length] else []) ++
  ((found.filter fun rule => decide (rule.sourceIps ≠ [only address])).map fun rule =>
    "tcp/22 sources are ".toList ++ stringify rule.sourceIps ++ ", want exactly [\"".toList ++
      only address ++ "\"]".toList) ++
  ((rules.filter fun rule => decide (rule.direction ≠ "in".toList)).map fun rule =>
    rule.direction ++ " rule ".toList ++ protocolPort rule ++
      ": only inbound rules are declared".toList) ++
  (if sorted (rules.map ruleLabel) ≠ wantedLabels then
    ["rules are ".toList ++ stringify (rules.map ruleLabel) ++ ", want exactly ".toList ++
      stringify wantedLabels] else []) ++
  (rules.filter isOpen).map fun rule => protocolPort rule ++ " is open to any source".toList

/-- The address a packet comes from. -/
inductive Address where
  | v4 (value : Nat)
  | v6 (value : Nat)
deriving DecidableEq

/-- An inbound packet; one of a protocol without ports has none. -/
structure Packet where
  source : Address
  protocol : Str
  port : Option Nat
deriving DecidableEq

def addressOf (text : Str) : Option Address :=
  ((ipv4Value text).map .v4).or ((ipv6Value text).map .v6)

def inNetwork (source : Address) (network : Str) : Bool :=
  match splitOnChar '/' network with
  | [base, bits] =>
    isAsciiDigits bits && match addressOf base, source with
      | some (.v4 start), .v4 value =>
        decide (decimalValue bits ≤ 32) &&
          value / 2 ^ (32 - decimalValue bits) == start / 2 ^ (32 - decimalValue bits)
      | some (.v6 start), .v6 value =>
        decide (decimalValue bits ≤ 128) &&
          value / 2 ^ (128 - decimalValue bits) == start / 2 ^ (128 - decimalValue bits)
      | _, _ => false
  | _ => false

/-- Whether a port is one a text covers: `any`, one number or a range. -/
def coversPort (text : Str) (port : Nat) : Bool :=
  if text = "any".toList then true
  else match splitOnChar '-' text with
    | [one] => isAsciiDigits one && decimalValue one == port
    | [low, high] => isAsciiDigits low && isAsciiDigits high && decide (decimalValue low ≤ port) &&
        decide (port ≤ decimalValue high)
    | _ => false

def coversPacketPort (rule : Option Str) (packet : Option Nat) : Bool :=
  match rule, packet with
  | none, _ => true
  | some text, some port => coversPort text port
  | some _, none => false

def Rule.admits (rule : Rule) (packet : Packet) : Bool :=
  decide (rule.direction = "in".toList) && decide (rule.protocol = packet.protocol) &&
    coversPacketPort rule.port packet.port && rule.sourceIps.any (inNetwork packet.source)

/-- Whether a rule set lets a packet in. -/
def admits (rules : List Rule) (packet : Packet) : Bool := rules.any fun rule => rule.admits packet

example : admits edgeRules ⟨.v4 1, "tcp".toList, some 22⟩ = true ∧
    admits edgeRules ⟨.v6 1, "tcp".toList, some 25⟩ = false := by
  simp only [edgeRules, ssh, icmp, anySource, toList_literal]
  decide

end SharedInfra.HetznerHost
