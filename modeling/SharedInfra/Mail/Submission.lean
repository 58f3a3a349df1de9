import SharedInfra.Mail.SenderScope
import SharedInfra.Mail.SecretLines

/-!
# The submission credentials

`provision_website_submission_credential.py`, `provision_zitadel_submission_credential.py` and
`provision_collector_submission_credential.py`: each mints one app password and records its secret
in the credentials file that they share.  The server stores one pair of sender expressions and
runs another, the one it loaded at its last restart; a call that fails may have been carried
out (`does`).
-/

namespace SharedInfra.Mail
namespace Submission

open Python Effects Prog SenderScope

/-- The secret of the first line of a label; `none` at a line without a colon. -/
def lookupLine (label : Str) : List Str → Option (Option Str)
  | [] => some none
  | line :: lines =>
    match splitColon line with
    | none => none
    | some (other, secret) => if other = label then some (some secret) else lookupLine label lines

/-- `_load_recorded_secret`, over the text of the file; `none` is the `RuntimeError`. -/
def loadRecordedSecret (label : Str) (file : Option Str) : Option (Option Str) :=
  match file with
  | none => some none
  | some text => lookupLine label (textLines text)

/-- `f.readlines()`: the lines with their ends. -/
def readLines : Str → List Str
  | [] => []
  | c :: rest => if c = '\n' then ['\n'] :: readLines rest else consLine c (readLines rest)

/-- `line.split(":", 1)[0].strip()`. -/
def lineKey (line : Str) : Str := strip (line.takeWhile (· != ':'))

/-- The lines that `remove_recorded_secret` keeps. -/
def keptLines (label text : Str) : List Str :=
  (readLines (universalNewlines text)).filter fun line => lineKey line != label

/-- What `remove_recorded_secret` writes, if there is anything to remove. -/
def removeRecordedSecret (label : Str) (file : Option Str) : Option Str :=
  match file with
  | none => none
  | some text =>
    if (keptLines label text).length = (readLines (universalNewlines text)).length then none
    else some (keptLines label text).flatten

/-- `plan_app_password_action`. -/
inductive Action where
  | create
  | orphaned
  | none
deriving DecidableEq

def planAppPasswordAction (existingRemotely recordedLocally : Bool) : Action :=
  if !existingRemotely then .create
  else if !recordedLocally then .orphaned
  else .none

section Programs

/-- The exceptions of a run. -/
inductive Failure where
  | urlError
  | runtimeError
  | processError
  | osError
  | keyError
  | raised (e : Raised)
deriving DecidableEq

/-- The parts of `MtaStageMail` that are read. -/
structure MailStage where
  isSenderAllowed : Val
  rewrite : Val
  script : Val

inductive Op where
  | loadCredentials
  | domainNames
  | findAccount (account : Str)
  | createAccount (account : Str)
  | appPasswordExists (account description : Str)
  | createAppPassword (account description : Str)
  | appPasswordIds (account description : Str)
  | destroyAppPasswords (ids : List Nat)
  | readCredentialsFile
  | append (line : Str)
  | chmod
  | replaceCredentialsFile (text : Str)
  | getMailStage
  | getMustMatchSender
  | setSenderAllowed (value : Val)
  | setMustMatchSender (value : Val)
  | dockerRestart
  | waitForReady

abbrev Returns : Op → Type
  | .domainNames => List Str
  | .findAccount _ => Bool
  | .appPasswordExists _ _ => Bool
  | .createAppPassword _ _ => Str
  | .appPasswordIds _ _ => List Nat
  | .readCredentialsFile => Option Str
  | .getMailStage => MailStage
  | .getMustMatchSender => Val
  | _ => Unit

abbrev Ans (op : Op) : Type := Except Failure (Returns op)

abbrev Run (α : Type) := Prog Op Ans Failure α

def call (op : Op) : Run (Returns op) := perform op fun answer => done answer

/-- What is raised while nothing is called. -/
def pureRun {α : Type} (r : Except Raised α) : Run α := done (r.mapError Failure.raised)

/-- `raise` where the condition fails. -/
def require (b : Bool) (e : Failure) : Run Unit := if b then pure () else done (.error e)

/-- What a script provisions: the app password of a description on an account, recorded under a
label.  Those of the website script are its environment. -/
structure Script where
  domain : Str
  account : Str
  description : Str
  label : Str
deriving DecidableEq

def address (localPart domain : Str) : Str := localPart ++ '@' :: domain

def zitadel (label : Str) : Script where
  domain := "publicpress.co.uk".toList
  account := address "noreply".toList "publicpress.co.uk".toList
  description := "zitadel-transactional-submission".toList
  label := label

def collector (label : Str) : Script where
  domain := collectorAccountDomain
  account := address collectorAccountLocal collectorAccountDomain
  description := "mail-collector-submission".toList
  label := label

variable (s : Script)

/-- Whether a secret is recorded: the reading of the file, and its parsing. -/
def recordedLocally : Run Bool := do
  let file ← call .readCredentialsFile
  match loadRecordedSecret s.label file with
  | none => done (.error .runtimeError)
  | some secret => done (.ok secret.isSome)

/-- The creation of the app password, and `_record_secret`. -/
def createAndRecord : Run Unit := do
  let secret ← call (.createAppPassword s.account s.description)
  call (.append (secretLine s.label secret))
  call .chmod

def actWebsite : Action → Run Nat
  | .create => do
    createAndRecord s
    return 0
  | .orphaned => pure 1
  | .none => pure 0

/-- `main` of the website script. -/
def mainWebsite : Run Nat := do
  call .loadCredentials
  let names ← call .domainNames
  require (names.contains s.domain) .runtimeError
  let accountExists ← call (.findAccount s.account)
  require accountExists .runtimeError
  let existingRemotely ← call (.appPasswordExists s.account s.description)
  let recorded ← recordedLocally s
  actWebsite s (planAppPasswordAction existingRemotely recorded)

/-- `plan_credential` of the other two scripts. -/
def planCredential (existsRemotely recorded : Bool) : Except Raised Action :=
  if recorded && !existsRemotely then .error .refused
  else .ok (planAppPasswordAction existsRemotely recorded)

def existsOn (accountExists : Bool) : Run Bool :=
  if accountExists then call (.appPasswordExists s.account s.description) else pure false

/-- The planning of the credential, before anything is written. -/
def planRun : Run (Bool × Action) := do
  let accountExists ← call (.findAccount s.account)
  let existsRemotely ← existsOn s accountExists
  let recorded ← recordedLocally s
  let action ← pureRun (planCredential existsRemotely recorded)
  return (accountExists, action)

def ensureAccount (accountExists : Bool) : Run Unit :=
  if accountExists then pure () else call (.createAccount s.account)

/-- The writing of the account and the credential. -/
def provision (accountExists : Bool) (action : Action) : Run Unit := do
  ensureAccount s accountExists
  match action with
  | .create => createAndRecord s
  | _ => pure ()

def namesAddress (address : Str) (branch : Val) : Except Raised Bool :=
  match branch with
  | .object fields => .ok ((getOr fields "if" (text "")).strings.any fun s =>
    decide (address <:+: normal s))
  | _ => .error .attributeError

/-- The values of a `match`, in the order they come. -/
def valuesOf : Val → Except Raised (List Val)
  | .object fields => .ok (fields.map Prod.snd)
  | v => branchesOf v

/-- `check_must_match_sender`, of a dict. -/
def checkFallsBack (fields : Dict) (address : Str) : Except Raised Unit := do
  if normalise (getOr fields "else" (.string defaultMustMatchSender)) =
      some defaultMustMatchSender then
    let branches ← valuesOf (Dict.get fields "match".toList)
    let named ← branches.mapM (namesAddress address)
    if named.any id then throw .refused
  else throw .refused

def checkMustMatchSender (current : Val) (address : Str) : Except Raised Unit :=
  match current with
  | .null => .ok ()
  | .object fields => checkFallsBack fields address
  | _ => .error .refused

/-- How the other two scripts are run. -/
inductive Mode where
  | provision
  | dryRun
  | revoke
deriving DecidableEq

/-- The end of `main` of the Zitadel script, once the action is planned. -/
def finishZitadel (mode : Mode) (planned : Bool × Action) : Run Nat :=
  if planned.2 = .orphaned then pure 1
  else if mode = .dryRun then pure 0
  else do
    provision s planned.1 planned.2
    return 0

/-- `_destroy_app_passwords`, of what was found. -/
def destroyFound (ids : List Nat) : Run Unit :=
  if ids.isEmpty then pure () else call (.destroyAppPasswords ids)

def destroyOn (accountExists : Bool) : Run Unit :=
  if accountExists then do
    let ids ← call (.appPasswordIds s.account s.description)
    destroyFound ids
  else pure ()

def findOn (domainExists : Bool) : Run Bool :=
  if domainExists then call (.findAccount s.account) else pure false

/-- `remove_recorded_secret`. -/
def removeRecord : Run Unit := do
  let file ← call .readCredentialsFile
  match removeRecordedSecret s.label file with
  | none => pure ()
  | some text => call (.replaceCredentialsFile text)

def revoke : Run Nat := do
  call .loadCredentials
  let names ← call .domainNames
  let accountExists ← findOn s (names.contains s.domain)
  destroyOn s accountExists
  removeRecord s
  return 0

/-- The part of `main` of the Zitadel script after the address is checked. -/
def runZitadel (mode : Mode) (address : Str) : Run Nat := do
  call .loadCredentials
  let names ← call .domainNames
  require (names.contains s.domain) (.raised .refused)
  let current ← call .getMustMatchSender
  pureRun (checkMustMatchSender current address)
  let planned ← planRun s
  finishZitadel s mode planned

/-- `main` of the Zitadel script. -/
def mainZitadel (label : Str) (mode : Mode) : Run Nat :=
  if mode = .revoke then revoke (zitadel label)
  else do
    let address ← pureRun (accountAddress "noreply".toList "publicpress.co.uk".toList)
    runZitadel (zitadel label) mode address

/-- What is planned for the two expressions, from one reading of them. -/
def planScope (mail : MailStage) (mustMatchSender : Val) (allowed matching : Target) :
    Except Raised (Option Target × Option Target) := do
  checkMailStageHooks mail.rewrite mail.script
  let mailPatch ← planExpression mail.isSenderAllowed allowed defaultIsSenderAllowed
  let authPatch ← planExpression mustMatchSender matching defaultMustMatchSender
  return (mailPatch, authPatch)

def setSenderAllowedIf : Option Target → Run Unit
  | none => pure ()
  | some patch => call (.setSenderAllowed patch.value)

def setMustMatchSenderIf : Option Target → Run Unit
  | none => pure ()
  | some patch => call (.setMustMatchSender patch.value)

def restartIf (changed : Bool) : Run Unit :=
  if changed then do
    call .dockerRestart
    call .waitForReady
  else pure ()

/-- The domain restriction first, then the exemption, then the restart. -/
def setScope (patches : Option Target × Option Target) : Run Unit := do
  setSenderAllowedIf patches.1
  setMustMatchSenderIf patches.2
  restartIf (patches.1.isSome || patches.2.isSome)

/-- What is stored is what was to be written. -/
def bothSame (senderAllowed mustMatchSender : Val) (allowed matching : Target) :
    Except Raised Bool := do
  let same ← sameExpression senderAllowed allowed
  if same then sameExpression mustMatchSender matching else return false

def readBack (allowed matching : Target) : Run Unit := do
  let mail ← call .getMailStage
  let mustMatchSender ← call .getMustMatchSender
  let same ← pureRun (bothSame mail.isSenderAllowed mustMatchSender allowed matching)
  require same .runtimeError

/-- The end of `main` of the collector script, once everything is planned. -/
def finishCollector (mode : Mode) (allowed matching : Target)
    (patches : Option Target × Option Target) (planned : Bool × Action) : Run Nat :=
  if planned.2 = .orphaned then pure 1
  else if mode = .dryRun then pure 0
  else do
    setScope patches
    provision s planned.1 planned.2
    readBack allowed matching
    return 0

/-- The part of `main` of the collector script after the targets are built. -/
def runCollector (mode : Mode) (allowed matching : Target) : Run Nat := do
  call .loadCredentials
  let names ← call .domainNames
  require ((s.domain :: collectorSendingDomains).all names.contains) (.raised .refused)
  let mail ← call .getMailStage
  let mustMatchSender ← call .getMustMatchSender
  let patches ← pureRun (planScope mail mustMatchSender allowed matching)
  let planned ← planRun s
  finishCollector s mode allowed matching patches planned

/-- `main` of the collector script. -/
def mainCollector (label : Str) (mode : Mode) : Run Nat :=
  if mode = .revoke then revoke (collector label)
  else do
    let address ← pureRun (collectorAddress collectorAccountLocal collectorAccountDomain)
    let allowed ← pureRun (buildIsSenderAllowed address collectorSendingDomains)
    runCollector (collector label) mode allowed (buildMustMatchSender address)

end Programs

/-- Which of the two expressions. -/
inductive Field where
  | isSenderAllowed
  | mustMatchSender
deriving DecidableEq

structure Expressions where
  isSenderAllowed : Val
  mustMatchSender : Val
deriving DecidableEq

structure AppPassword where
  id : Nat
  account : Str
  description : Str
  secret : Str
deriving DecidableEq

/-- The server and the credentials file; `replaced` are the expressions that a run has
overwritten. -/
structure World where
  stored : Expressions
  loaded : Expressions
  rewrite : Val
  script : Val
  domains : List Str
  accounts : List Str
  passwords : List AppPassword
  file : Option Str
  replaced : List (Field × Val)

def AppPassword.isOf (account description : Str) (p : AppPassword) : Bool :=
  p.account == account && p.description == description

def World.setSenderAllowed (w : World) (v : Val) : World :=
  { w with
    stored := { w.stored with isSenderAllowed := v }
    replaced := w.replaced ++ [(.isSenderAllowed, w.stored.isSenderAllowed)] }

def World.setMustMatchSender (w : World) (v : Val) : World :=
  { w with
    stored := { w.stored with mustMatchSender := v }
    replaced := w.replaced ++ [(.mustMatchSender, w.stored.mustMatchSender)] }

def Creates (w : World) (account description secret : Str) (w' : World) : Prop :=
  account ∈ w.accounts ∧ PlainSecret secret ∧ ∃ id, id ∉ w.passwords.map AppPassword.id ∧
    w' = { w with passwords := w.passwords ++ [⟨id, account, description, secret⟩] }

/-- What an operation may do, with its answer. -/
def does (w : World) : (op : Op) → Ans op → World → Prop
  | .domainNames, .ok names, w' => w' = w ∧ names = w.domains
  | .findAccount account, .ok found, w' => w' = w ∧ found = w.accounts.contains account
  | .createAccount account, answer, w' => w' = w ∧ answer ≠ .ok () ∨
      account ∉ w.accounts ∧ w' = { w with accounts := account :: w.accounts }
  | .appPasswordExists account description, .ok found, w' =>
    w' = w ∧ found = w.passwords.any (AppPassword.isOf account description)
  | .createAppPassword account description, .ok secret, w' =>
    Creates w account description secret w'
  | .createAppPassword account description, .error _, w' =>
    w' = w ∨ ∃ secret, Creates w account description secret w'
  | .appPasswordIds account description, .ok ids, w' => w' = w ∧
      ids = (w.passwords.filter (AppPassword.isOf account description)).map AppPassword.id
  | .destroyAppPasswords ids, answer, w' => ∃ part, part.Sublist ids ∧
      (answer = .ok () → part = ids) ∧
      w' = { w with passwords := w.passwords.filter fun p => !part.contains p.id }
  | .readCredentialsFile, .ok file, w' => w' = w ∧ file = w.file
  | .append line, answer, w' => w' = w ∧ answer ≠ .ok () ∨
      w' = { w with file := some (w.file.getD [] ++ line) }
  | .replaceCredentialsFile text, answer, w' => w' = w ∧ answer ≠ .ok () ∨
      w' = { w with file := some text }
  | .getMailStage, .ok mail, w' => w' = w ∧ mail = ⟨w.stored.isSenderAllowed, w.rewrite, w.script⟩
  | .getMustMatchSender, .ok v, w' => w' = w ∧ v = w.stored.mustMatchSender
  | .setSenderAllowed v, answer, w' => w' = w ∧ answer ≠ .ok () ∨ w' = w.setSenderAllowed v
  | .setMustMatchSender v, answer, w' => w' = w ∧ answer ≠ .ok () ∨ w' = w.setMustMatchSender v
  | .dockerRestart, answer, w' => w' = w ∧ answer ≠ .ok () ∨ w' = { w with loaded := w.stored }
  | _, _, w' => w' = w

end Submission
end SharedInfra.Mail
