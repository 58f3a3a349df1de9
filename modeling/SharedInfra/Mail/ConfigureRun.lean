import SharedInfra.Mail.Configuration
import SharedInfra.Effects.Exec

/-!
# A run of the mail configuration

`_complete_bootstrap`, the `_reconcile_…` functions and `main` of `configure_stalwart.py`.
The server stores one configuration and runs another, the one it loaded at its last restart;
a `/set` call that is rejected or loses its answer may have been carried out in part (`does`).
-/

namespace SharedInfra.Mail
namespace Configuration

open Python Effects Prog

inductive Op where
  | credentialsExist
  | loadCredentials
  | bootstrapMode
  | readBootstrapPassword
  | bootstrapSet
  | writeCredentials
  | get (kind : Kind)
  | set (kind : Kind) (args : SetArgs)
  | dockerRestart
  | waitForReady

/-- What an operation returns; a `/set` returns the ids of what it created. -/
abbrev Returns : Op → Type
  | .credentialsExist => Bool
  | .bootstrapMode => Bool
  | .get _ => List Obj
  | .set _ _ => List Str
  | _ => Unit

abbrev Ans (op : Op) : Type := Except Failure (Returns op)

abbrev Run (α : Type) := Prog Op Ans Failure α

def call (op : Op) : Run (Returns op) := perform op fun answer => done answer

def completeBootstrap : Run Unit := do
  call .readBootstrapPassword
  call .bootstrapSet
  call .writeCredentials
  call .dockerRestart
  call .waitForReady

def loadOrBootstrap (credentialsExist : Bool) : Run Unit :=
  if credentialsExist then call .loadCredentials else completeBootstrap

def bootstrapIf (bootstrapMode : Bool) : Run Unit :=
  if bootstrapMode then completeBootstrap else pure ()

/-- The part of `main` that ends with credentials of a server that is set up. -/
def authenticate : Run Unit := do
  let credentialsExist ← call .credentialsExist
  loadOrBootstrap credentialsExist
  let bootstrapMode ← call .bootstrapMode
  bootstrapIf bootstrapMode

/-- Set what was planned, if anything was, and say whether it was. -/
def setIfPlanned (kind : Kind) (args : SetArgs) : Run Bool :=
  if args.isEmpty then pure false
  else do
    let _ ← call (.set kind args)
    return true

def reconcileListeners : Run Bool := do
  let listeners ← call (.get .networkListener)
  let args ← done (planListenerChanges listeners)
  setIfPlanned .networkListener args

def providerId (args : SetArgs) (planned : Option Str) (created : List Str) :
    Except Failure (Option Str) :=
  if args.create.isEmpty then .ok planned
  else match created with
    | [] => .error .keyError
    | id :: _ => .ok (some id)

/-- The setting of `_reconcile_acme_provider`. -/
def setProvider (planned : SetArgs × Option Str) : Run (Bool × Option Str) :=
  if planned.1.isEmpty then pure (false, planned.2)
  else do
    let created ← call (.set .acmeProvider planned.1)
    let id ← done (providerId planned.1 planned.2 created)
    return (true, id)

def reconcileAcmeProvider : Run (Bool × Option Str) := do
  let providers ← call (.get .acmeProvider)
  setProvider (planAcmeProvider providers)

def printDomain (domain : Obj) : Except Failure Unit :=
  match Dict.get? domain.fields "name".toList with
  | none => .error .keyError
  | some _ => .ok ()

/-- The setting of one domain. -/
def setDomain (domain : Obj) : Option Dict → Run Bool
  | none => do
    done (printDomain domain)
    return false
  | some fields => do
    let _ ← call (.set .domain (.updating domain.id fields))
    done (printDomain domain)
    return true

/-- One turn of the loop of `_reconcile_domains`. -/
def reconcileDomain (hostname : Str) (acmeProviderId : Option Str) (domain : Obj) : Run Bool := do
  let fields ← done (planDomainSans domain [hostname] acmeProviderId)
  setDomain domain fields

/-- All of the programs in turn, and whether any of them changed anything. -/
def anyOf : List (Run Bool) → Run Bool
  | [] => pure false
  | p :: rest => do
    let changed ← p
    let others ← anyOf rest
    return changed || others

def reconcileDomains (hostname : Str) (acmeProviderId : Option Str) : Run Bool := do
  let domains ← call (.get .domain)
  anyOf (domains.map (reconcileDomain hostname acmeProviderId))

def reconcileHttpAccess : Run Bool := do
  let httpSingletons ← call (.get .http)
  setIfPlanned .http (planHttpChange httpSingletons)

def reconcileMetrics : Run Bool := do
  let metricsSingletons ← call (.get .metrics)
  setIfPlanned .metrics (planMetricsChange metricsSingletons)

def reconcileTracer : Run Bool := do
  let tracers ← call (.get .tracer)
  setIfPlanned .tracer (planTracerChange tracers)

/-- What `_reconcile_security` plans; the singleton has to be there. -/
def planSecurityList : List Obj → Except Failure SetArgs
  | [] => .error .runtimeError
  | current :: _ => .ok (planSecurityChange current securityTarget)

def reconcileSecurity : Run Bool := do
  let securityList ← call (.get .security)
  let args ← done (planSecurityList securityList)
  setIfPlanned .security args

def reconcileAllowedIps : Run Bool := do
  let current ← call (.get .allowedIp)
  let args ← done (planAllowedIps current allowedIps)
  setIfPlanned .allowedIp args

/-- The reconciliations of `main`, in its order, and whether any of them changed anything. -/
def reconcile (hostname : Str) : Run Bool := do
  let (acmeChanged, acmeProviderId) ← reconcileAcmeProvider
  anyOf [reconcileListeners, pure acmeChanged, reconcileDomains hostname acmeProviderId,
    reconcileHttpAccess, reconcileMetrics, reconcileTracer, reconcileSecurity,
    reconcileAllowedIps]

def restartIf (changed : Bool) : Run Unit :=
  if changed then do
    call .dockerRestart
    call .waitForReady
  else pure ()

/-- `main`; it returns 0 or raises. -/
def main (hostname : Str) : Run Unit := do
  authenticate
  let changed ← reconcile hostname
  restartIf changed

section World

abbrev Config := Kind → List Obj

def Config.object (config : Config) (kind : Kind) (id : Str) : Option Obj :=
  (config kind).find? fun o => o.id == id

/-- The machine and its server; `written` are the objects that any of the runs has set. -/
structure World where
  stored : Config
  loaded : Config
  credentials : Bool
  bootstrap : Bool
  written : Set (Kind × Str)

def updateObj (updates : List (Str × Dict)) (o : Obj) : Obj :=
  match updates.lookup o.id with
  | none => o
  | some fields => { o with fields := Dict.update o.fields fields }

/-- The objects after a `/set`, with the ids of what it creates. -/
def applySet (args : SetArgs) (ids : List Str) (objects : List Obj) : List Obj :=
  ((objects.filter fun o => !args.destroy.contains o.id).map (updateObj args.update)) ++
    (ids.zip args.create).map fun new => { id := new.1, fields := new.2.2 }

/-- The ids under which a `/set` writes. -/
def targets (kind : Kind) (args : SetArgs) (ids : List Str) : Set (Kind × Str) :=
  { written | written.1 = kind ∧ (written.2 ∈ args.update.map Prod.fst ∨ written.2 ∈ args.destroy ∨
    written.2 ∈ ids) }

/-- The world after a `/set`. -/
def World.set (w : World) (kind : Kind) (args : SetArgs) (ids : List Str) : World :=
  { w with
    stored := Function.update w.stored kind (applySet args ids (w.stored kind))
    written := w.written ∪ targets kind args ids }

theorem World.set_stored_self (w : World) (kind : Kind) (args : SetArgs) (ids : List Str) :
    (w.set kind args ids).stored kind = applySet args ids (w.stored kind) :=
  Function.update_self ..

theorem World.set_stored_of_ne {kind other : Kind} (h : other ≠ kind) (w : World) (args : SetArgs)
    (ids : List Str) : (w.set kind args ids).stored other = w.stored other :=
  Function.update_of_ne h ..

def FreshIds (objects : List Obj) (args : SetArgs) (ids : List Str) : Prop :=
  ids.length = args.create.length ∧ ids.Nodup ∧ ∀ id ∈ ids, id ∉ objects.map Obj.id

/-- A part of what a call asks for. -/
structure SetArgs.Part (part args : SetArgs) : Prop where
  update : part.update.Sublist args.update
  create : part.create.Sublist args.create
  destroy : part.destroy.Sublist args.destroy

variable (view : Kind → List Obj → List Obj)

/-- What an operation may do, with its answer; `view` is what a read gives of the objects. -/
def does (w : World) : (op : Op) → Ans op → World → Prop
  | .credentialsExist, answer, w' => w' = w ∧ answer = .ok w.credentials
  | .bootstrapMode, .ok bootstrap, w' => w' = w ∧ bootstrap = w.bootstrap
  | .bootstrapSet, answer, w' => w' = w ∧ answer ≠ .ok () ∨
      ∃ stored bootstrap, w' = { w with stored, bootstrap, written := Set.univ }
  | .writeCredentials, answer, w' => w' = w ∧ answer ≠ .ok () ∨ w' = { w with credentials := true }
  | .get kind, .ok objects, w' => w' = w ∧ objects = view kind (w.stored kind)
  | .set kind args, .ok ids, w' => FreshIds (w.stored kind) args ids ∧ w' = w.set kind args ids
  | .set kind args, .error _, w' => w' = w ∨
      ∃ part ids, SetArgs.Part part args ∧ FreshIds (w.stored kind) part ids ∧
        w' = w.set kind part ids
  | .dockerRestart, answer, w' => w' = w ∧ answer ≠ .ok () ∨
      ∃ bootstrap, w' = { w with loaded := w.stored, bootstrap }
  | _, _, w' => w' = w

end World

end Configuration
end SharedInfra.Mail
