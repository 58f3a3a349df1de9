import SharedInfra.Python.Json
import SharedInfra.Sequences.Cut

/-!
# The preview gate

`destructive_steps` and `main` of `assert-no-hetzner-deletes.py`, which read a
`pulumi preview --json` plan and fail when a step destroys a protected resource,
and Pulumi's own reading of a URN, which the gate's has to agree with.
-/

namespace SharedInfra.HetznerDeletes

open Python Sequences

def protectedTypes : List Str :=
  ["hcloud:index/server:Server", "hcloud:index/network:Network",
    "hcloud:index/networkSubnet:NetworkSubnet", "hcloud:index/firewall:Firewall",
    "hcloud:index/primaryIp:PrimaryIp", "hcloud:index/zone:Zone"]

def destructiveSubstrings : List Str := ["delete", "replace"]

inductive PlanError where
  | noSteps
  | malformedStep (step : Json)
  | missingOpUrn (step : Json)
  | notResourceUrn (urn : Str)

/-- The separator of a URN, `::`. -/
abbrev colons : Str := [':', ':']

def splitUrn (urn : Str) : Except PlanError (Str × Str) :=
  match rsplit colons 2 urn with
  | [_, chain, name] => .ok ((rsplit ['$'] 1 chain).getLast?.getD [], name)
  | _ => .error (.notResourceUrn urn)

def isDestructive (op : Str) : Bool :=
  destructiveSubstrings.any fun word => decide (word <:+: op)

/-- One turn of the loop over the steps. -/
def checkStep (step : Json) : Except PlanError (Option (Str × Str)) :=
  match step with
  | .object members =>
    match Json.member members "op", Json.member members "urn" with
    | some (.string op), some (.string urn) =>
      if isDestructive op then
        match splitUrn urn with
        | .error e => .error e
        | .ok (typeToken, name) =>
          .ok (if typeToken ∈ protectedTypes then some (name, op) else none)
      else .ok none
    | _, _ => .error (.missingOpUrn step)
  | _ => .error (.malformedStep step)

def findSteps : List Json → Except PlanError (List (Str × Str))
  | [] => .ok []
  | step :: steps =>
    match checkStep step with
    | .error e => .error e
    | .ok found => (found.toList ++ ·) <$> findSteps steps

/-- The order of Python's tuples. -/
def pairLe (a b : Str × Str) : Prop := a.1 < b.1 ∨ a.1 = b.1 ∧ a.2 ≤ b.2

instance : DecidableRel pairLe := fun a b => by unfold pairLe; infer_instance

def destructiveSteps (plan : List (Str × Json)) : Except PlanError (List (Str × Str)) :=
  match Json.member plan "steps" with
  | some (.array steps) => List.insertionSort pairLe <$> findSteps steps
  | _ => .error .noSteps

inductive Printed where
  | usage
  | unreadable
  | notAPlan (error : PlanError)
  | wouldDestroy (detail : Str)
  | clean (steps : Nat) (changeSummary : Json)

/-- How a run ends: with a status, or with an exception that nothing catches. -/
inductive Ended where
  | returns (status : Nat) (printed : Printed)
  | raises

def Ended.status : Ended → Option Nat
  | returns status _ => some status
  | raises => none

/-- What opening and loading the file gives.  Only an `OSError` and a `JSONDecodeError` are caught. -/
inductive Loaded where
  | document (plan : Json)
  | unreadable
  | raises

def stepCount (plan : List (Str × Json)) : Nat :=
  match Json.member plan "steps" with
  | some (.array steps) => steps.length
  | _ => 0

def checkPlan : Json → Ended
  | .object plan =>
    match destructiveSteps plan with
    | .error e => .returns 1 (.notAPlan e)
    | .ok [] =>
      .returns 0 (.clean (stepCount plan)
        ((Json.member plan "changeSummary").getD (.object [])))
    | .ok found =>
      .returns 1 (.wouldDestroy
        (joinWith ", " (found.map fun (name, op) => name ++ " (".toList ++ op ++ [')'])))
  -- Only a `dict` has a `get`.
  | _ => .raises

/-- `main`; the other two modes do not read a plan. -/
def main (selfTest : Ended) (verifyCoverage : Str → Ended) (load : Str → Loaded) :
    List Str → Ended
  | [_, argument] =>
    if argument = "--self-test".toList then selfTest
    else
      match load argument with
      | .document plan => checkPlan plan
      | .unreadable => .returns 1 .unreadable
      | .raises => .raises
  | [_, mode, directory] =>
    if mode = "--verify-coverage".toList then verifyCoverage directory else .returns 2 .usage
  | _ => .returns 2 .usage

end SharedInfra.HetznerDeletes
