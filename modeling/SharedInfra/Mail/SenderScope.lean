import SharedInfra.Python.Values
import SharedInfra.Mail.SendingDomain

/-!
# The sender scope of the collector

The expressions of `provision_collector_submission_credential.py`: how they are built, how a stored
one is recognised (`sameExpression`) and what is planned for it (`planExpression`).  Texts
are compared up to white space (`normal`).
-/

namespace SharedInfra.Mail
namespace SenderScope

open Python

/-- What the script raises before it writes. -/
inductive Raised where
  | refused
  | attributeError
  | typeError
deriving DecidableEq

/-- `" ".join(text.split())`. -/
def normal (s : Str) : Str := joinWith " ".toList (splitWords s)

/-- `_normalise`; the text of a value that is no string is none of those it is compared with. -/
def normalise : Val → Option Str
  | .string s => some (normal s)
  | _ => none

def text (s : String) : Val := .string s.toList

/-- `d.get(name, default)`. -/
def getOr (d : Dict) (name : String) (default : Val) : Val :=
  (Dict.get? d name.toList).getD default

/-- An expression with one branch. -/
structure Target where
  condition : Str
  consequence : Str
  otherwise : Str
deriving DecidableEq

def Target.branch (t : Target) : Dict :=
  [("if".toList, .string t.condition), ("then".toList, .string t.consequence)]

def Target.fields (t : Target) : Dict :=
  [("match".toList, .object [("0".toList, .object t.branch)]), ("else".toList, .string t.otherwise)]

/-- The value that is stored for it. -/
def Target.value (t : Target) : Val := .object t.fields

def mainDomain : Str := "branchleft.co.uk".toList

def collectorSendingDomains : List Str := ["trypublicpress.co.uk".toList]

def collectorAccountLocal : Str := "collector".toList

def collectorAccountDomain : Str := "trypublicpress.co.uk".toList

def defaultMustMatchSender : Str := "true".toList

def defaultIsSenderAllowed : Str :=
  "!is_empty(authenticated_as) || !key_exists('spam-block', sender_domain)".toList

def defaultMailStageHook : Str := "false".toList

def underMain (domain : Str) : Bool := domain == mainDomain || endsWith domain ('.' :: mainDomain)

/-- `validate_sending_domains`, for one domain. -/
def refusedDomain (domain : Str) : Bool :=
  !SendingDomain.isDomain domain || underMain domain

def validateSendingDomains (domains : List Str) : Except Raised Unit :=
  if domains.isEmpty || domains.any refusedDomain || !decide domains.Nodup then .error .refused
  else .ok ()

def isLocalLetter (c : Char) : Bool := c.isLower || c.isDigit || c == '.' || c == '-'

/-- `_LOCAL_RE`. -/
def isLocal (s : Str) : Bool :=
  match SendingDomain.beforeEnd s with
  | [] => false
  | c :: rest => (c.isLower || c.isDigit) && rest.all isLocalLetter && rest.length ≤ 63

def collectorAddress (localPart domain : Str) : Except Raised Str :=
  if isLocal localPart && SendingDomain.isDomain domain then .ok (localPart ++ '@' :: domain)
  else .error .refused

/-- `account_address` of the sign-in service. -/
def accountAddress (localPart domain : Str) : Except Raised Str := do
  let address ← collectorAddress localPart domain
  if underMain domain then throw .refused else return address

def collectorCondition (address : Str) : Str := "authenticated_as == '".toList ++ address ++ ['\'']

def senderDomainCheck (domains : List Str) : Str :=
  joinWith " || ".toList (domains.map fun domain => "sender_domain == '".toList ++ domain ++ ['\''])

def buildIsSenderAllowed (address : Str) (domains : List Str) : Except Raised Target := do
  validateSendingDomains domains
  return ⟨collectorCondition address, senderDomainCheck domains, defaultIsSenderAllowed⟩

def buildMustMatchSender (address : Str) : Target :=
  ⟨collectorCondition address, "false".toList, defaultMustMatchSender⟩

/-- `(len(str(k)), str(k))`, compared. -/
def keyBefore (a b : Str × Val) : Prop :=
  a.1.length < b.1.length ∨ a.1.length = b.1.length ∧ a.1 ≤ b.1

instance : DecidableRel keyBefore := fun a b =>
  inferInstanceAs (Decidable (a.1.length < b.1.length ∨ a.1.length = b.1.length ∧ a.1 ≤ b.1))

/-- The branches of a `match` that is not falsy. -/
def branchesOf : Val → Except Raised (List Val)
  | .null => .ok []
  | .bool b => if b then .error .typeError else .ok []
  | .number n => if n = 0 then .ok [] else .error .typeError
  | .string s => .ok (s.map fun c => .string [c])
  | .array items => .ok items
  | .object fields => .ok ((fields.insertionSort keyBefore).map Prod.snd)

/-- `_matches`. -/
def matchesOf : Val → Except Raised (List Val)
  | .object fields => branchesOf (Dict.get fields "match".toList)
  | _ => .ok []

/-- `branch.get(name, "")`. -/
def branchText (branch : Val) (name : String) : Except Raised (Option Str) :=
  match branch with
  | .object fields => .ok (normalise (getOr fields name (text "")))
  | _ => .error .attributeError

def sameBranch (branch : Val) (t : Target) : Except Raised Bool := do
  let condition ← branchText branch "if"
  let consequence ← branchText branch "then"
  return condition == some (normal t.condition) && consequence == some (normal t.consequence)

def sameBranches (branches : List Val) (t : Target) : Except Raised Bool :=
  match branches with
  | [branch] => sameBranch branch t
  | _ => .ok false

/-- `_same_expression`, for a target with one branch. -/
def sameExpression (current : Val) (t : Target) : Except Raised Bool :=
  match current with
  | .object fields =>
    if normalise (getOr fields "else" (text "")) = some (normal t.otherwise) then do
      let branches ← matchesOf current
      sameBranches branches t
    else .ok false
  | _ => .ok false

/-- What is planned for a value whose `else` is the default. -/
def planBranches (branches : List Val) (t : Target) : Except Raised (Option Target) :=
  match branches with
  | [] => .ok (some t)
  | [branch] => do
    let condition ← branchText branch "if"
    if condition = some (normal t.condition) then return some t
    else throw .refused
  | _ => .error .refused

/-- What is planned for a value that is not the target yet. -/
def planOther (current : Val) (t : Target) (defaultElse : Str) : Except Raised (Option Target) :=
  match current with
  | .null => .ok (some t)
  | .object fields => do
    let branches ← matchesOf current
    if normalise (getOr fields "else" (.string defaultElse)) = some (normal defaultElse) then
      planBranches branches t
    else throw .refused
  | _ => .error .refused

/-- `plan_expression`; `none` if nothing is to be set. -/
def planExpression (current : Val) (t : Target) (defaultElse : Str) :
    Except Raised (Option Target) := do
  let same ← sameExpression current t
  if same then return none
  else planOther current t defaultElse

/-- `check_mail_stage_hooks`, for one field. -/
def checkHook (value : Val) : Except Raised Unit :=
  match value with
  | .null => .ok ()
  | .object fields => do
    let branches ← matchesOf value
    if branches.isEmpty && normalise (getOr fields "else" (.string defaultMailStageHook)) =
        some defaultMailStageHook then return ()
    else throw .refused
  | _ => .error .refused

def checkMailStageHooks (rewrite script : Val) : Except Raised Unit := do
  checkHook rewrite
  checkHook script

end SenderScope
end SharedInfra.Mail
