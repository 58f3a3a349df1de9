import SharedInfra.Python.Values

/-!
# The configuration of the mail server

The planners of `configure_stalwart.py`.  Each compares what was read of one kind of object
with its target, and gives the arguments of the `/set` call that is needed, empty if none
is.
-/

namespace SharedInfra.Mail
namespace Configuration

open Python

/-- The kinds of object the script reads and sets. -/
inductive Kind where
  | networkListener
  | acmeProvider
  | domain
  | http
  | metrics
  | tracer
  | security
  | allowedIp
deriving DecidableEq

/-- An object as the server keeps it. -/
structure Obj where
  id : Str
  fields : Dict
deriving DecidableEq

/-- `o.get(name)`. -/
def Obj.get (o : Obj) (name : String) : Val := Dict.get o.fields name.toList

/-- The arguments of a `/set` call. -/
structure SetArgs where
  update : List (Str × Dict)
  create : List (Str × Dict)
  destroy : List Str
deriving DecidableEq

def SetArgs.none : SetArgs := { update := [], create := [], destroy := [] }

def SetArgs.updating (id : Str) (fields : Dict) : SetArgs :=
  { update := [(id, fields)], create := [], destroy := [] }

def SetArgs.creating (key : Str) (fields : Dict) : SetArgs :=
  { update := [], create := [(key, fields)], destroy := [] }

/-- `not args`. -/
def SetArgs.isEmpty (args : SetArgs) : Bool :=
  args.update.isEmpty && args.create.isEmpty && args.destroy.isEmpty

/-- The exceptions of a run. -/
inductive Failure where
  | urlError
  | runtimeError
  | processError
  | osError
  | valueError
  | keyError
  | typeError
  | attributeError
deriving DecidableEq

def text (s : String) : Val := .string s.toList

def entry (name : String) (value : Val) : Str × Val := (name.toList, value)

/-- A row of `MANAGED_LISTENERS`. -/
def managedListener (name bind protocol : String) (tlsImplicit : Bool) : Str × Dict :=
  (name.toList, [entry "bind" (.object [entry bind (.bool true)]), entry "protocol" (text protocol),
    entry "useTls" (.bool true), entry "tlsImplicit" (.bool tlsImplicit)])

def managedListeners : List (Str × Dict) :=
  [managedListener "smtp" "[::]:25" "smtp" false,
    managedListener "submissions" "[::]:465" "smtp" true,
    managedListener "imaps" "[::]:993" "imap" true,
    managedListener "https" "[::]:443" "http" true,
    managedListener "http" "[::]:8080" "http" false,
    managedListener "submission" "[::]:587" "smtp" false]

def createIfMissing : List Str := ["submission".toList]

def removedListenerNames : List Str := ["pop3s".toList, "sieve".toList]

def endpointRule (condition status : String) : Val :=
  .object [entry "if" (text condition), entry "then" (text status)]

def httpEndpointPolicy : Val :=
  .object [entry "match" (.object [
      entry "0" (endpointRule ("listener == 'https' && path == '/metrics/prometheus' " ++
        "&& remote_ip == '46.225.95.167'") "200"),
      entry "1" (endpointRule "listener == 'https'" "421")]),
    entry "else" (text "200")]

def httpTarget : Dict :=
  [entry "allowedEndpoints" httpEndpointPolicy, entry "useXForwarded" (.bool false)]

def metricsCreateDefaults : Dict := [entry "openTelemetry" (.object [entry "@type" (text "Disabled")])]

def metricsTarget : Dict :=
  [entry "prometheus" (.object [
    entry "@type" (text "Enabled"),
    entry "authUsername" (text "prometheus"),
    entry "authSecret" (.object [
      entry "@type" (text "EnvironmentVariable"),
      entry "variableName" (text "STALWART_PROMETHEUS_SECRET")])])]

def acmeDirectory : String := "https://acme-v02.api.letsencrypt.org/directory"

def acmeProviderTarget : Dict :=
  [entry "directory" (text acmeDirectory),
    entry "challengeType" (text "TlsAlpn01"),
    entry "contact" (.object [entry "mailto:postmaster@branchleft.co.uk" (.bool true)]),
    entry "renewBefore" (text "R23"),
    entry "maxRetries" (.number 10),
    entry "reuseKey" (.bool false)]

def dayMs : Val := .number 86400000

def securityTarget : Dict :=
  [entry "scanBanRate" .null, entry "scanBanPeriod" dayMs, entry "authBanPeriod" dayMs,
    entry "abuseBanPeriod" dayMs, entry "loiterBanPeriod" dayMs]

def allowedIps : List (Str × Str) :=
  [("46.225.95.167".toList,
    "monitoring host -- its own probes must never be auto-banned".toList)]

def fieldDiff (current target : Dict) : Dict :=
  target.filter fun field => !Val.same (Dict.get current field.1) field.2

def updateDiff (current : Obj) (target : Dict) : SetArgs :=
  match fieldDiff current.fields target with
  | [] => .none
  | diff => .updating current.id diff

/-- `item[name]`, used as the key of a dict or the element of a set. -/
def keyField (name : String) (item : Obj) : Except Failure Val :=
  match Dict.get? item.fields name.toList with
  | none => .error .keyError
  | some v => if v.hashable then .ok v else .error .typeError

/-- The listener that `by_name` holds under a name: the last of that name. -/
def byName (listeners : List Obj) (name : Str) : Option Obj :=
  listeners.reverse.find? fun item => (item.get "name").isString name

/-- The update of a managed listener, if it is there and differs. -/
def listenerUpdate (listeners : List Obj) (managed : Str × Dict) : Option (Str × Dict) :=
  match byName listeners managed.1 with
  | none => none
  | some listener =>
    match fieldDiff listener.fields managed.2 with
    | [] => none
    | diff => some (listener.id, diff)

def listenerCreate (listeners : List Obj) (managed : Str × Dict) : Option (Str × Dict) :=
  if (byName listeners managed.1).isNone && createIfMissing.contains managed.1 then
    some (managed.1, entry "name" (.string managed.1) :: managed.2)
  else none

def planListenerChanges (listeners : List Obj) : Except Failure SetArgs := do
  let _ ← listeners.mapM (keyField "name")
  return {
    update := managedListeners.filterMap (listenerUpdate listeners)
    create := managedListeners.filterMap (listenerCreate listeners)
    destroy := removedListenerNames.filterMap fun name => (byName listeners name).map Obj.id }

def planHttpChange : List Obj → SetArgs
  | [] => .creating "singleton".toList httpTarget
  | current :: _ => updateDiff current httpTarget

/-- A secret that is explicitly set to no secret. -/
def isNoSecret : Val → Bool
  | .object secret => (Dict.get secret "@type".toList).isString "None".toList
  | _ => false

def prometheusIsReconciled : Val → Bool
  | .object current =>
    (Dict.get current "@type".toList).isString "Enabled".toList &&
      (Dict.get current "authUsername".toList).isString "prometheus".toList &&
      !isNoSecret (Dict.get current "authSecret".toList)
  | _ => false

def planMetricsChange : List Obj → SetArgs
  | [] => .creating "singleton".toList (metricsCreateDefaults ++ metricsTarget)
  | current :: _ =>
    if prometheusIsReconciled (current.get "prometheus") then .none
    else .updating current.id metricsTarget

/-- The provider the platform manages: the first with the directory. -/
def managedProvider (providers : List Obj) : Option Obj :=
  providers.find? fun provider => (provider.get "directory").isString acmeDirectory.toList

def planAcmeProvider (providers : List Obj) : SetArgs × Option Str :=
  match managedProvider providers with
  | some provider => (updateDiff provider acmeProviderTarget, some provider.id)
  | none => (.creating "production".toList acmeProviderTarget, none)

/-- `d.get(name, {})`, of which the entries are wanted. -/
def getDict (d : Dict) (name : String) : Except Failure Dict :=
  match Dict.get? d name.toList with
  | none => .ok []
  | some (.object fields) => .ok fields
  | some _ => .error .attributeError

def names (d : Dict) : List Str := (d.map Prod.fst).dedup

/-- The `certificateManagement` that covers the names. -/
def certificateFor (acmeProviderId : Str) (sans : List Str) : Val :=
  .object [entry "@type" (text "Automatic"),
    entry "acmeProviderId" (.string acmeProviderId),
    entry "subjectAlternativeNames" (.object (sans.map fun san => (san, .bool true)))]

/-- `plan_domain_sans` for a certificate that is managed automatically, by this provider. -/
def planSans (cert : Dict) (requiredSans : List Str) (acmeProviderId : Str) :
    Except Failure (Option Dict) := do
  let sans ← getDict cert "subjectAlternativeNames"
  let missing := requiredSans.filter fun san => !(names sans).contains san
  let providerDrifted := !(Dict.get cert "acmeProviderId".toList).isString acmeProviderId
  if missing.isEmpty && !providerDrifted then return none
  return some [entry "certificateManagement"
    (certificateFor acmeProviderId (names sans ++ missing))]

/-- `plan_domain_sans`: the fields to set on the domain. -/
def planDomainSans (domain : Obj) (requiredSans : List Str) (acmeProviderId : Option Str) :
    Except Failure (Option Dict) := do
  let cert ← getDict domain.fields "certificateManagement"
  if !(Dict.get cert "@type".toList).isString "Automatic".toList then return none
  match acmeProviderId with
  | none => return none
  | some acmeProviderId => planSans cert requiredSans acmeProviderId

/-- The fields of a tracer that writes to stdout. -/
def tracerTarget (level : Val) : Dict :=
  [entry "@type" (text "Stdout"), entry "ansi" (.bool false), entry "multiline" (.bool false),
    entry "enable" (.bool true), entry "level" level, entry "lossy" (.bool false),
    entry "events" (.object []), entry "eventsPolicy" (text "exclude")]

def planTracerChange : List Obj → SetArgs
  | [] => .none
  | tracer :: _ =>
    if (tracer.get "@type").isString "Stdout".toList then .none
    else .updating tracer.id
      (tracerTarget ((Dict.get? tracer.fields "level".toList).getD (text "info")))

def planSecurityChange (current : Obj) (target : Dict) : SetArgs := updateDiff current target

def planAllowedIps (currentEntries : List Obj) (target : List (Str × Str)) :
    Except Failure SetArgs := do
  let present ← currentEntries.mapM (keyField "address")
  let absent := target.filter fun pair => !present.any fun v => v.isString pair.1
  return {
    update := []
    create := absent.map fun pair =>
      (pair.1, [entry "address" (.string pair.1), entry "reason" (.string pair.2)])
    destroy := [] }

end Configuration
end SharedInfra.Mail
