import SharedInfra.Firewall.ListedRules
import SharedInfra.Python.IpText

/-!
# The policy program's literals

`read_literals` of `deploy_tooling_chain.py`: the addresses, ports and bridge
name the rules are made of are read from the text of the policy program, each
from its one assignment, and checked for their shape.
-/

namespace SharedInfra.Firewall

open Python

/-- The address families, by the tool that lists them. -/
inductive Family where
  | iptables
  | ip6tables
deriving DecidableEq

/-- Which chain a host is expected to carry. -/
inductive Variant where
  | standard
  | protectedNoDb
deriving DecidableEq

/-- Every `PolicyError` of the read-back with what its message is made of.
`indexError` is not one of them: it is the uncaught `IndexError` of a `-N` or
`-P` line with no chain. -/
inductive CheckError where
  | reconcilerUnreadable (path reason : Str)
  | literalMissing (name : Str) (found : Nat)
  | literalInvalid (name value : Str)
  | listing (tool : Family) (status : Int) (detail : Str)
  | chainAbsent (family : Family) (chain : Str)
  | ruleMissing (family : Family) (chain label rendered : Str) (others : Nat)
  | ruleMisplaced (family : Family) (chain label : Str) (order : List Str) (others : Nat)
  | ruleForbidden (family : Family) (chain label : Str) (variant : Variant) (others : Nat)
  | ruleBypass (family : Family) (chain : Str) (position : Nat) (target : Str) (others : Nat)
  | forwardBypass (family : Family) (others : Nat)
  | indexError
deriving DecidableEq

/-- The values the policy program carries. -/
structure Literals where
  subnet : Str
  dbPort : Str
  gatewayIp : Str
  protectedAddress : Str
  protectedPorts : List Str
  mailSpoolBridge : Str
  metadataAddress : Str
  dbHost : Str
deriving DecidableEq

def literalNames : List Str :=
  ["SUBNET", "DB_PORT", "GATEWAY_PRIVATE_IP", "PROTECTED_ADDRESS", "PROTECTED_PORTS",
    "MAIL_SPOOL_BRIDGE", "METADATA_ADDRESS", "DB_HOST"]

/-- The characters of a variable's name, `[A-Z_]`. -/
def isVariableChar (c : Char) : Bool := c.isUpper || c == '_'

/-- `ASSIGNMENT`: the name and the value of a line `NAME="value"`. -/
def matchAssignment (line : Str) : Option (Str × Str) :=
  let start := lstrip line
  let name := start.takeWhile isVariableChar
  match start.drop name.length with
  | '=' :: '"' :: body =>
    let value := body.takeWhile (· != '"')
    match body.drop value.length with
    | _ :: tail => if !name.isEmpty && tail.all isSpace then some (name, value) else none
    | [] => none
  | _ => none

/-- `DEFAULTED`: the default of a value `${NAME:-default}`. -/
def matchDefaulted : Str → Option Str
  | '$' :: '{' :: body =>
    let name := body.takeWhile isVariableChar
    match body.drop name.length with
    | ':' :: '-' :: rest =>
      let default := rest.takeWhile (· != '}')
      if !name.isEmpty && rest.drop default.length = ['}'] then some default else none
    | _ => none
  | _ => none

/-- The usable value an assignment's text gives: its default, or itself with no `$`. -/
def usableValue (value : Str) : Option Str :=
  match matchDefaulted value with
  | some default => if default.isEmpty then none else some default
  | none => if value.contains '$' || value.isEmpty then none else some value

/-- The usable values of one name, over the lines of the program's text. -/
def foundValues (text name : Str) : List Str :=
  (splitlines text).filterMap fun line =>
    match matchAssignment line with
    | some (found, value) => if found = name then usableValue value else none
    | none => none

/-- `_plausible`. -/
def plausibleValue (name value : Str) : Bool :=
  if name = "SUBNET" then isIpNetwork value else isIpAddress value

/-- `PORT`. -/
def isPort (s : Str) : Bool := s.all Char.isDigit && 1 ≤ s.length && s.length ≤ 5

/-- The characters of a plain name, `[A-Za-z0-9_.-]`. -/
def isNameChar (c : Char) : Bool := c.isAlphanum || c == '_' || c == '.' || c == '-'

/-- `BRIDGE_NAME`. -/
def isBridgeName (s : Str) : Bool := s.all isNameChar && 1 ≤ s.length && s.length ≤ 15

/-- `CHAIN_NAME`. -/
def isChainName (s : Str) : Bool :=
  s.all isNameChar && s.head? != some '-' && 1 ≤ s.length && s.length ≤ 28

/-- The names whose value must be an address or a network, in the order they are checked. -/
def addressNames : List Str :=
  ["SUBNET", "GATEWAY_PRIVATE_IP", "PROTECTED_ADDRESS", "METADATA_ADDRESS", "DB_HOST"]

/-- The first value `_checked_literals` finds unusable, with the name it is reported by. -/
def firstInvalid (values : Str → Str) : Option (Str × Str) :=
  let ports := splitWords (values "PROTECTED_PORTS")
  let addresses := addressNames.find? fun name => !plausibleValue name (values name)
  let portValues : List (Str × Str) :=
    ("DB_PORT", values "DB_PORT") :: ports.map fun port => ("PROTECTED_PORTS", port)
  match addresses with
  | some name => some (name, values name)
  | none =>
    match portValues.find? fun named => !isPort named.2 with
    | some named => some named
    | none =>
      if ports.isEmpty then some ("PROTECTED_PORTS", values "PROTECTED_PORTS")
      else if isBridgeName (values "MAIL_SPOOL_BRIDGE") then none
      else some ("MAIL_SPOOL_BRIDGE", values "MAIL_SPOOL_BRIDGE")

def checkedLiterals (values : Str → Str) : Except CheckError Literals :=
  match firstInvalid values with
  | some (name, value) => throw (.literalInvalid name value)
  | none => pure {
      subnet := values "SUBNET"
      dbPort := values "DB_PORT"
      gatewayIp := values "GATEWAY_PRIVATE_IP"
      protectedAddress := values "PROTECTED_ADDRESS"
      protectedPorts := splitWords (values "PROTECTED_PORTS")
      mailSpoolBridge := values "MAIL_SPOOL_BRIDGE"
      metadataAddress := values "METADATA_ADDRESS"
      dbHost := values "DB_HOST" }

/-- `read_literals`: every name must be assigned exactly once. -/
def readLiterals (text : Str) : Except CheckError Literals :=
  match literalNames.find? fun name => decide ((foundValues text name).length ≠ 1) with
  | some name => throw (.literalMissing name (foundValues text name).length)
  | none => checkedLiterals fun name => (foundValues text name).headD []

def shippedAssignments : Str := unlines
  ["SUBNET=\"10.20.1.0/24\"", "DB_PORT=\"3306\"", "GATEWAY_PRIVATE_IP=\"10.20.1.10\"",
    "PROTECTED_ADDRESS=\"10.20.1.50\"", "PROTECTED_PORTS=\"8300 8301 8302\"",
    "MAIL_SPOOL_BRIDGE=\"br-mailspool\"", "METADATA_ADDRESS=\"169.254.169.254\"",
    "DB_HOST=\"10.20.1.20\""]

/-- The values the program ships with. -/
def shippedLiterals : Literals where
  subnet := "10.20.1.0/24"
  dbPort := "3306"
  gatewayIp := "10.20.1.10"
  protectedAddress := "10.20.1.50"
  protectedPorts := ["8300", "8301", "8302"]
  mailSpoolBridge := "br-mailspool"
  metadataAddress := "169.254.169.254"
  dbHost := "10.20.1.20"

theorem readLiterals_shipped : readLiterals shippedAssignments = .ok shippedLiterals := by
  decide

end SharedInfra.Firewall
