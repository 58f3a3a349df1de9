import SharedInfra.Effects.Crash
import SharedInfra.Mail.DrainToken
import SharedInfra.Python.CutText

/-!
# Rotation of the administrator's secret

`rotate_admin_credential.py`: the server is asked to change the secret, both secrets are tried, and
the new one is written to a file beside the credentials file, which replaces it.  Between the change
and the write only the process knows the secret.  `rotatesSafely_iff` says after how many
operations, and under which failures, a run that stops leaves the secret in a file.
-/

namespace SharedInfra.MailAdmin
namespace Rotation

open Python Effects Prog Mail

/-- A user name and a secret. -/
abbrev Auth := Str × Str

/-- What an operation raises: an HTTP error status, or an exception by its name. -/
inductive RotateFailure where
  | http (code : Nat)
  | fileNotFound
  | other (name : Str)
deriving DecidableEq

/-- The first of the method responses of a set call. -/
inductive SetReply where
  | error (result : Str)
  | updated
  | notUpdated (notUpdated : Str)

inductive RotateOp where
  | readCredentials
  | getAccount (auth : Auth)
  | setPassword (auth : Auth) (secret currentSecret : Str)
  | mkstemp
  | writeTemp (contents : Str)
  | chmodTemp (mode : Nat)
  | replaceTemp
  | unlinkTemp

abbrev RotateValue : RotateOp → Type
  | .readCredentials => Str
  | .setPassword .. => SetReply
  | _ => Unit

abbrev RotateAnswer (op : RotateOp) : Type := Except RotateFailure (RotateValue op)

abbrev Script (α : Type) := Prog RotateOp RotateAnswer RotateFailure α

/-- Perform an operation for its value; what it raises is raised. -/
def call (op : RotateOp) : Script (RotateValue op) := perform op done

/-- The 24 bytes of the generator. -/
abbrev SecretBytes : Type := { raw : Bytes // raw.length = 24 }

/-- `secrets.token_urlsafe(24)`: URL-safe base64 without its padding. -/
def tokenUrlsafe (entropy : SecretBytes) : Str :=
  ((b64encode entropy.1).rdropWhile fun b => decide (b = b64pad)).map
    ShimEnvironment.urlSafeChar

/-- How `main` ends where nothing is raised. -/
inductive Outcome where
  | currentRejected
  | notApplied (notUpdated : Str)
  | notVerified (newWorks oldDead : Bool)
  | rotated
deriving DecidableEq

def credentialsPath : Str := "/root/.stalwart-admin-credentials"

def pyBool (b : Bool) : Str := if b then "True" else "False"

/-- The line that is printed. -/
def Outcome.line : Outcome → Str
  | .currentRejected =>
    "FAILED: current credential in file does not authenticate -- nothing rotated".toList
  | .notApplied notUpdated =>
    "FAILED: x:AccountPassword/set did not report the update as applied: ".toList ++ notUpdated
  | .notVerified newWorks oldDead =>
    "FAILED: rotation call succeeded but verification did not ".toList ++
      ("(new credential works: ".toList ++ pyBool newWorks ++ ", old credential dead: ".toList ++
      pyBool oldDead ++ ") ".toList) ++
      "-- credentials file left unchanged, investigate before retrying".toList
  | .rotated =>
    "ROTATED: new credential verified live, old credential verified dead, ".toList ++
      credentialsPath ++ " updated (mode 600)".toList

def Outcome.exit : Outcome → Nat
  | .rotated => 0
  | _ => 1

def canAuthenticate (auth : Auth) : Script Bool :=
  (call (.getAccount auth) >>= fun _ => pure true).catchWith fun failure =>
    if failure = .http 401 then pure false else raise failure

/-- `_jmap_call` of `x:AccountPassword/set`: what was not updated, unless the secret was. -/
def setPassword (auth : Auth) (secret : Str) : Script (Option Str) := do
  let reply ← call (.setPassword auth secret auth.2)
  match reply with
  | .error result => raise (.other ("x:AccountPassword/set failed: ".toList ++ result))
  | .updated => pure none
  | .notUpdated notUpdated => pure (some notUpdated)

/-- What `_write_credential_atomic` does where its file could not be moved into place. -/
def discardTemp (failure : RotateFailure) : Script Unit :=
  ((call .unlinkTemp).catchWith fun failure =>
    if failure = .fileNotFound then pure () else raise failure) >>= fun _ => raise failure

def writeCredentialAtomic (contents : Str) : Script Unit := do
  call .mkstemp
  (do
    call (.writeTemp contents)
    call (.chmodTemp 0o600)
    call .replaceTemp).catchWith discardTemp

/-- `f.read().strip().split(":", 1)`, unpacked. -/
def splitCredential (text : Str) : Option Auth := splitColon (strip text)

/-- `f"{username}:{new_secret}\n"`. -/
def credentialText (auth : Auth) : Str := secretLine auth.1 auth.2

/-- The end of `main`, behind a change that was reported. -/
def finish (old new : Auth) : Script Outcome := do
  let newWorks ← canAuthenticate new
  let oldWorks ← canAuthenticate old
  if newWorks && !oldWorks then
    writeCredentialAtomic (credentialText new)
    pure .rotated
  else pure (.notVerified newWorks !oldWorks)

/-- `main` with a credential that authenticates. -/
def rotate (old new : Auth) : Script Outcome := do
  let notUpdated ← setPassword old new.2
  match notUpdated with
  | some notUpdated => pure (.notApplied notUpdated)
  | none => finish old new

def main (entropy : SecretBytes) : Script Outcome := do
  let text ← call .readCredentials
  match splitCredential text with
  | none => raise (.other "ValueError".toList)
  | some old =>
    let works ← canAuthenticate old
    if works then rotate old (old.1, tokenUrlsafe entropy) else pure .currentRejected

/-- The credentials file, the file beside it, the administrator of the server, and how often an
account was asked for. -/
structure AdminHost where
  file : Option Bytes
  temp : Option Bytes
  admin : Auth
  asked : Nat

/-- What becomes of the set call: it is answered, refused in the answer or without one, or carried
out and its answer is lost. -/
inductive SetFate where
  | answered
  | notUpdated (notUpdated : Str)
  | methodError (result : Str)
  | failed (failure : RotateFailure)
  | lost (failure : RotateFailure)

def SetFate.carriedOut : SetFate → Bool
  | .answered | .lost _ => true
  | _ => false

/-- What becomes of the other operations; a write that fails leaves some bytes.  The status 401
says that a secret is not accepted, and is no failure. -/
structure Fates where
  read : Option RotateFailure
  account : Nat → Option RotateFailure
  account_status : ∀ n, account n ≠ some (.http 401)
  set : SetFate
  mkstemp : Option RotateFailure
  write : Option (Nat × RotateFailure)
  chmod : Option RotateFailure
  replace : Option RotateFailure
  unlink : Option RotateFailure

/-- What a text-mode read of a file gives. -/
def contents (file : Option Bytes) : Except RotateFailure Str :=
  match file with
  | none => .error .fileNotFound
  | some bytes =>
    match utf8Decode bytes with
    | none => .error (.other "UnicodeDecodeError".toList)
    | some text => .ok (universalNewlines text)

/-- An operation that fails, or has its effect. -/
def orFail {α : Type} (fate : Option RotateFailure) (host : AdminHost) (value : α)
    (after : AdminHost) : Except RotateFailure α × AdminHost :=
  match fate with
  | some failure => (.error failure, host)
  | none => (.ok value, after)

def handle (fates : Fates) : Handler RotateOp RotateAnswer AdminHost
  | host, .readCredentials =>
    match fates.read with
    | some failure => (.error failure, host)
    | none => (contents host.file, host)
  | host, .getAccount auth =>
    let asked := { host with asked := host.asked + 1 }
    match fates.account host.asked with
    | some failure => (.error failure, asked)
    | none => (if auth = host.admin then .ok () else .error (.http 401), asked)
  | host, .setPassword auth secret currentSecret =>
    if auth = host.admin ∧ currentSecret = host.admin.2 then
      let changed := { host with admin := (host.admin.1, secret) }
      match fates.set with
      | .answered => (.ok .updated, changed)
      | .notUpdated notUpdated => (.ok (.notUpdated notUpdated), host)
      | .methodError result => (.ok (.error result), host)
      | .failed failure => (.error failure, host)
      | .lost failure => (.error failure, changed)
    else (.error (.http 401), host)
  | host, .mkstemp => orFail fates.mkstemp host () { host with temp := some [] }
  | host, .writeTemp text =>
    match fates.write with
    | none => (.ok (), { host with temp := some (utf8Encode text) })
    | some (kept, failure) =>
      (.error failure, { host with temp := some ((utf8Encode text).take kept) })
  | host, .chmodTemp _ => orFail fates.chmod host () host
  | host, .replaceTemp => orFail fates.replace host () { host with file := host.temp, temp := none }
  | host, .unlinkTemp => orFail fates.unlink host () { host with temp := none }

/-- The credential that the script would read from a file. -/
def credentialOf (file : Option Bytes) : Option Auth := (contents file).toOption.bind splitCredential

/-- A file holds the secret that the server accepts. -/
def AdminHost.Kept (host : AdminHost) : Prop :=
  credentialOf host.file = some host.admin ∨ credentialOf host.temp = some host.admin

/-- A run begins with a credentials file and an administrator. -/
def begin (file : Bytes) (admin : Auth) : AdminHost := ⟨some file, none, admin, 0⟩

section Statements

variable (fates : Fates) (entropy : SecretBytes) (file : Bytes) (admin : Auth) (n : Nat)

/-- What a run that stops after `n` operations, or at its end, leaves. -/
structure RotatesSafely : Prop where
  kept : ((main entropy).after (handle fates) n (begin file admin)).Kept
  rotated : ∀ host, (main entropy).run (handle fates) (begin file admin) = (.ok .rotated, host) →
    credentialOf host.file = some host.admin ∧
      ∀ old, credentialOf (some file) = some old → old ≠ host.admin
  untouched : (∀ x ∈ (main entropy).trace (handle fates) (begin file admin),
      ∀ auth secret current, x.1 ≠ .setPassword auth secret current) →
    ((main entropy).run (handle fates) (begin file admin)).2.file = some file

/-- The file beside is not taken away within `n` operations of the write. -/
def Fates.Leaves : Prop :=
  fates.unlink = none → (fates.write ≠ none → n < 3) ∧
    (fates.write = none → fates.chmod ≠ none → n < 4) ∧
    (fates.write = none → fates.chmod = none → fates.replace ≠ none → n < 5)

/-- The new secret is in the file beside, or in its place. -/
structure Recovered (contents : Str) : Prop where
  late : 7 ≤ n
  answered : fates.set = .answered
  verified : fates.account 1 = none ∧ fates.account 2 = none
  made : fates.mkstemp = none
  written : ∀ kept failure, fates.write = some (kept, failure) →
    (utf8Encode contents).length ≤ kept + 1
  there : fates.Leaves (n - 5)

/-- When a run that stops leaves the secret in a file. -/
structure SafeStop : Prop where
  start : credentialOf (some file) = some admin
  stop : n ≤ 2 ∨ fates.read ≠ none ∨ fates.account 0 ≠ none ∨ fates.set.carriedOut = false ∨
    tokenUrlsafe entropy = admin.2 ∨
      Recovered fates n (credentialText (admin.1, tokenUrlsafe entropy))

end Statements

section Reading

variable {auth : Auth} {text t : Str}

theorem eq_of_splitColon (h : splitColon text = some auth) :
    text = auth.1 ++ ':' :: auth.2 ∧ ':' ∉ auth.1 := by
  rw [splitColon] at h
  cases hrest : text.dropWhile (· != ':') with
  | nil =>
    rw [hrest] at h
    cases h
  | cons c rest =>
    rw [hrest] at h
    obtain rfl := Option.some.inj h
    have hc : c = ':' := by
      have hhead := List.head?_dropWhile_not (· != ':') text
      rw [hrest] at hhead
      simpa using hhead
    refine ⟨?_, fun hmem => ?_⟩
    · subst hc
      rw [← hrest]
      exact List.takeWhile_append_dropWhile.symm
    · have hne := List.mem_takeWhile_imp hmem
      simp at hne

/-- A credential that a file was read for. -/
structure Readable (auth : Auth) : Prop where
  colon : ':' ∉ auth.1
  noReturn : '\r' ∉ auth.1
  head : ∀ c ∈ auth.1.head?, isSpace c = false
  plain : PlainSecret auth.2
  some : auth.2 ≠ []

theorem noReturn_credentialText (h : Readable auth) : '\r' ∉ credentialText auth := by
  have hsecret : '\r' ∉ auth.2 := h.plain.not_mem (by decide)
  simp [credentialText, secretLine, h.noReturn, hsecret]

theorem strip_credential (h : Readable auth) :
    strip (auth.1 ++ ':' :: auth.2) = auth.1 ++ ':' :: auth.2 := by
  refine strip_trimmed ⟨fun c hc => ?_, fun c hc => ?_⟩
  · cases hname : auth.1 with
    | nil =>
      rw [hname] at hc
      obtain rfl : ':' = c := by simpa using hc
      decide
    | cons d rest =>
      rw [hname] at hc
      exact h.head c (by rw [hname]; simpa using hc)
  · rw [List.getLast?_append_cons, List.getLast?_cons, List.getLast?_eq_some_getLast h.some] at hc
    obtain rfl : auth.2.getLast h.some = c := by simpa using hc
    exact h.plain _ (List.getLast_mem h.some)

theorem splitCredential_credential (h : Readable auth) :
    splitCredential (auth.1 ++ ':' :: auth.2) = some auth := by
  rw [splitCredential, strip_credential h, splitColon_line h.colon]

theorem credentialOf_take (h : Readable auth) (kept : Nat) :
    credentialOf (some ((utf8Encode (credentialText auth)).take kept)) = some auth ↔
      (utf8Encode (credentialText auth)).length ≤ kept + 1 := by
  have htext : credentialText auth = (auth.1 ++ ':' :: auth.2) ++ ['\n'] := by
    rw [credentialText, secretLine]
  have hreturn := noReturn_credentialText h
  have hread : ∀ text, '\r' ∉ text → credentialOf (some (utf8Encode text)) =
      splitCredential text := by
    intro text htext
    rw [credentialOf, contents, utf8Decode_encode]
    dsimp only
    rw [universalNewlines_of_not_mem htext]
    rfl
  have hlength : (utf8Encode (credentialText auth)).length =
      (utf8Encode (auth.1 ++ ':' :: auth.2)).length + 1 := by
    rw [htext, utf8Encode_append, List.length_append]
    rfl
  constructor
  · intro hcredential
    by_contra hshort
    rw [credentialOf, contents] at hcredential
    cases hdecode : utf8Decode ((utf8Encode (credentialText auth)).take kept) with
    | none =>
      rw [hdecode] at hcredential
      cases hcredential
    | some t =>
      rw [hdecode] at hcredential
      obtain ⟨rest, hrest, hencode⟩ := utf8Decode_take hdecode
      have hnot : '\r' ∉ t := fun hmem => hreturn (hrest ▸ List.mem_append_left _ hmem)
      dsimp only at hcredential
      rw [universalNewlines_of_not_mem hnot] at hcredential
      obtain ⟨hwhole, -⟩ := eq_of_splitColon hcredential
      have hle : (auth.1 ++ ':' :: auth.2).length ≤ t.length := by
        rw [← hwhole]
        exact (strip_sublist t).length_le
      -- a cut of the text that is as long as the credential begins with it
      have hprefix : auth.1 ++ ':' :: auth.2 <+: t := by
        have hfirst : auth.1 ++ ':' :: auth.2 <+: credentialText auth := ⟨['\n'], htext.symm⟩
        have hcut : t <+: credentialText auth := ⟨rest, hrest.symm⟩
        exact List.prefix_of_prefix_length_le hfirst hcut hle
      obtain ⟨more, hmore⟩ := hprefix
      have hbytes := congrArg List.length hencode
      rw [← hmore, utf8Encode_append, List.length_append, List.length_take] at hbytes
      omega
  · intro hlong
    rcases Nat.lt_or_ge kept (utf8Encode (credentialText auth)).length with hlt | hge
    · have hkept : kept = (utf8Encode (auth.1 ++ ':' :: auth.2)).length := by omega
      rw [htext, utf8Encode_append, hkept, List.take_left, hread, splitCredential_credential h]
      intro hmem
      exact hreturn (htext ▸ List.mem_append_left _ hmem)
    · rw [List.take_of_length_le hge, hread _ hreturn, splitCredential, htext,
        Submission.strip_newline, strip_credential h, splitColon_line h.colon]

theorem credentialOf_whole (h : Readable auth) :
    credentialOf (some (utf8Encode (credentialText auth))) = some auth := by
  have hwhole := (credentialOf_take h (utf8Encode (credentialText auth)).length).mpr (by omega)
  rwa [List.take_length] at hwhole

theorem plainSecret_tokenUrlsafe (entropy : SecretBytes) : PlainSecret (tokenUrlsafe entropy) :=
  fun _ => ShimEnvironment.isSpace_of_mem_urlSafe

theorem tokenUrlsafe_ne_nil (entropy : SecretBytes) : tokenUrlsafe entropy ≠ [] :=
  ShimEnvironment.urlSafe_ne_nil (by rw [entropy.2]; decide)

end Reading

section Stages

variable {fates : Fates} {α β : Type} {op : RotateOp} {f : RotateValue op → Script α}
  {g : RotateFailure → Script α} {host : AdminHost} {n asked : Nat} {file : Option Bytes}
  {admin old new auth : Auth}

theorem after_call_ok (value : RotateValue op) (host' : AdminHost)
    (h : handle fates host op = (.ok value, host')) :
    (call op >>= f).after (handle fates) (n + 1) host = (f value).after (handle fates) n host' := by
  show (andThen (done _) f).after (handle fates) n _ = _
  rw [h]
  rfl

theorem after_call_error (failure : RotateFailure) {host' : AdminHost}
    (h : handle fates host op = (.error failure, host')) :
    (call op >>= f).after (handle fates) (n + 1) host = host' := by
  show (andThen (done _) f).after (handle fates) n _ = _
  rw [h]
  exact after_done n _

theorem after_catch_ok {value : RotateValue op} (host' : AdminHost)
    (h : handle fates host op = (.ok value, host')) {next : RotateValue op → Script β}
    {g : RotateFailure → Script β} {k : β → Script α} :
    ((call op >>= next).catchWith g >>= k).after (handle fates) (n + 1) host =
      ((next value).catchWith g >>= k).after (handle fates) n host' := by
  show (andThen (catchWith (andThen (done _) next) g) k).after (handle fates) n _ = _
  rw [h]
  rfl

theorem after_catch_error {failure : RotateFailure} (host' : AdminHost)
    (h : handle fates host op = (.error failure, host')) {next : RotateValue op → Script β}
    {g : RotateFailure → Script β} {k : β → Script α} :
    ((call op >>= next).catchWith g >>= k).after (handle fates) (n + 1) host =
      (g failure >>= k).after (handle fates) n host' := by
  show (andThen (catchWith (andThen (done _) next) g) k).after (handle fates) n _ = _
  rw [h]
  rfl

theorem after_discard (failure : RotateFailure) (k : Unit → Script α) :
    (discardTemp failure >>= k).after (handle fates) n host =
      if n = 0 ∨ fates.unlink ≠ none then host else { host with temp := none } := by
  cases n with
  | zero => rfl
  | succ n =>
    cases hunlink : fates.unlink with
    | none =>
      have hhandle : handle fates host .unlinkTemp = (.ok (), { host with temp := none }) := by
        rw [handle, hunlink]
        rfl
      rw [if_neg (by simp)]
      show (andThen (andThen (catchWith (done _) _) _) k).after (handle fates) n _ = _
      rw [hhandle]
      exact after_done n _
    | some cause =>
      have hhandle : handle fates host .unlinkTemp = (.error cause, host) := by
        rw [handle, hunlink]
        rfl
      rw [if_pos (Or.inr (by simp))]
      show (andThen (andThen (catchWith (done _) _) _) k).after (handle fates) n _ = _
      rw [hhandle]
      show (andThen (andThen (if cause = .fileNotFound then _ else _) _) k).after
        (handle fates) n host = host
      split_ifs
      · exact after_done n _
      · exact after_done n _

theorem after_made (hmade : fates.mkstemp = none) (contents : Str) (k : Unit → Script α) :
    (writeCredentialAtomic contents >>= k).after (handle fates) (n + 1) host =
      (((call (.writeTemp contents) >>= fun _ => call (.chmodTemp 0o600) >>= fun _ =>
        call .replaceTemp).catchWith discardTemp) >>= k).after (handle fates) n
          { host with temp := some [] } := by
  have hhandle : handle fates host .mkstemp = (.ok (), { host with temp := some [] }) := by
    rw [handle, hmade]
    rfl
  show (andThen (andThen (done _) _) k).after (handle fates) n _ = _
  rw [hhandle]
  rfl

theorem after_not_made {failure : RotateFailure} (hmade : fates.mkstemp = some failure)
    (contents : Str) (k : Unit → Script α) :
    (writeCredentialAtomic contents >>= k).after (handle fates) n host = host := by
  cases n with
  | zero => rfl
  | succ n =>
    have hhandle : handle fates host .mkstemp = (.error failure, host) := by
      rw [handle, hmade]
      rfl
    show (andThen (andThen (done _) _) k).after (handle fates) n _ = _
    rw [hhandle]
    exact after_done n _

theorem after_replace (k : Unit → Script α) :
    (((call .replaceTemp).catchWith discardTemp) >>= k).after (handle fates) (n + 1) host =
      match fates.replace with
      | none => (k ()).after (handle fates) n { host with file := host.temp, temp := none }
      | some failure => (discardTemp failure >>= k).after (handle fates) n host := by
  show (andThen (catchWith (done _) _) k).after (handle fates) n _ = _
  rw [handle]
  cases fates.replace <;> rfl

theorem discarded_kept_iff {temp : Option Bytes} (hfile : credentialOf file ≠ some admin) :
    AdminHost.Kept (if n = 0 ∨ fates.unlink ≠ none then ⟨file, temp, admin, asked⟩
      else ⟨file, none, admin, asked⟩) ↔
      credentialOf temp = some admin ∧ (fates.unlink = none → n = 0) := by
  have hnone : credentialOf none ≠ some admin := by
    intro h
    cases h
  split_ifs with hthere
  · constructor
    · rintro (hkept | hkept)
      · exact absurd hkept hfile
      · exact ⟨hkept, fun hunlink => hthere.resolve_right (not_not.mpr hunlink)⟩
    · exact fun h => Or.inr h.1
  · rw [not_or, not_not] at hthere
    constructor
    · rintro (hkept | hkept)
      · exact absurd hkept hfile
      · exact absurd hkept hnone
    · exact fun h => absurd (h.2 hthere.2) hthere.1

theorem replace_kept_iff {temp : Option Bytes} (hfile : credentialOf file ≠ some admin)
    (htemp : credentialOf temp = some admin) :
    ((((call .replaceTemp).catchWith discardTemp) >>= fun _ => pure Outcome.rotated).after
      (handle fates) n ⟨file, temp, admin, asked⟩).Kept ↔
      (fates.unlink = none → fates.replace ≠ none → n < 2) := by
  cases n with
  | zero => exact iff_of_true (Or.inr htemp) fun _ _ => by omega
  | succ n =>
    rw [after_replace]
    cases hreplace : fates.replace with
    | none =>
      dsimp only
      refine iff_of_true ?_ fun _ h => absurd rfl h
      show AdminHost.Kept ((done _ : Script Outcome).after _ n _)
      rw [after_done]
      exact Or.inl htemp
    | some failure =>
      dsimp only
      rw [after_discard, discarded_kept_iff hfile]
      constructor
      · intro h hunlink _
        have hn := h.2 hunlink
        omega
      · intro h
        refine ⟨htemp, fun hunlink => ?_⟩
        have hn := h hunlink (Option.some_ne_none _)
        omega

theorem chmod_kept_iff {temp : Option Bytes} (hfile : credentialOf file ≠ some admin)
    (htemp : credentialOf temp = some admin) :
    (((call (.chmodTemp 0o600) >>= fun _ => call .replaceTemp).catchWith discardTemp >>= fun _ =>
      pure Outcome.rotated).after (handle fates) n ⟨file, temp, admin, asked⟩).Kept ↔
      (fates.unlink = none → (fates.chmod ≠ none → n < 2) ∧
        (fates.chmod = none → fates.replace ≠ none → n < 3)) := by
  cases n with
  | zero => exact iff_of_true (Or.inr htemp) fun _ => ⟨fun _ => by omega, fun _ _ => by omega⟩
  | succ n =>
    cases hchmod : fates.chmod with
    | none =>
      rw [after_catch_ok ⟨file, temp, admin, asked⟩ (by rw [handle, hchmod]; rfl),
        replace_kept_iff hfile htemp]
      constructor
      · intro h hunlink
        refine ⟨fun hbad => absurd rfl hbad, fun _ hreplace => ?_⟩
        have hn := h hunlink hreplace
        omega
      · intro h hunlink hreplace
        have hn := (h hunlink).2 rfl hreplace
        omega
    | some failure =>
      rw [after_catch_error ⟨file, temp, admin, asked⟩
        (by rw [handle, hchmod]; rfl), after_discard, discarded_kept_iff hfile]
      constructor
      · intro h hunlink
        have hn := h.2 hunlink
        exact ⟨fun _ => by omega, fun hbad => (by cases hbad)⟩
      · intro h
        refine ⟨htemp, fun hunlink => ?_⟩
        have hn := (h hunlink).1 (Option.some_ne_none _)
        omega

theorem write_kept_iff (hadmin : Readable admin) (hfile : credentialOf file ≠ some admin) :
    ((writeCredentialAtomic (credentialText admin) >>= fun _ => pure Outcome.rotated).after
      (handle fates) n ⟨file, none, admin, asked⟩).Kept ↔
      2 ≤ n ∧ fates.mkstemp = none ∧ (∀ kept failure, fates.write = some (kept, failure) →
        (utf8Encode (credentialText admin)).length ≤ kept + 1) ∧
      fates.Leaves n := by
  have hlost : ∀ temp, credentialOf temp ≠ some admin →
      ¬ AdminHost.Kept ⟨file, temp, admin, asked⟩ := fun temp htemp hkept => hkept.elim hfile htemp
  have hnone : credentialOf none ≠ some admin := by
    intro h
    cases h
  have hempty : credentialOf (some []) ≠ some admin := by
    intro h
    cases h
  rw [Fates.Leaves]
  cases hmade : fates.mkstemp with
  | some failure =>
    rw [after_not_made hmade]
    exact iff_of_false (hlost none hnone) fun h => by cases h.2.1
  | none =>
  obtain _ | _ | n := n
  · exact iff_of_false (hlost none hnone) fun h => absurd h.1 (by omega)
  · rw [after_made hmade]
    exact iff_of_false (hlost _ hempty) fun h => absurd h.1 (by omega)
  · rw [after_made hmade]
    cases hwrite : fates.write with
    | some left =>
      obtain ⟨kept, failure⟩ := left
      rw [after_catch_error ⟨file, some ((utf8Encode (credentialText admin)).take
        kept), admin, asked⟩ (by rw [handle, hwrite]), after_discard, discarded_kept_iff hfile,
        credentialOf_take hadmin]
      constructor
      · rintro ⟨hlong, hthere⟩
        refine ⟨by omega, rfl, fun left cause heq => ?_, fun hunlink => ?_⟩
        · cases heq
          exact hlong
        · have hn := hthere hunlink
          exact ⟨fun _ => by omega, fun h => (by cases h), fun h => (by cases h)⟩
      · rintro ⟨-, -, hlong, hthere⟩
        refine ⟨hlong kept failure rfl, fun hunlink => ?_⟩
        have hn := (hthere hunlink).1 (Option.some_ne_none _)
        omega
    | none =>
      rw [after_catch_ok ⟨file, some (utf8Encode (credentialText admin)), admin,
        asked⟩ (by rw [handle, hwrite]), chmod_kept_iff hfile (credentialOf_whole hadmin)]
      constructor
      · intro h
        refine ⟨by omega, rfl, fun kept failure heq => (by cases heq), fun hunlink => ?_⟩
        obtain ⟨hchmod, hreplace⟩ := h hunlink
        refine ⟨fun hbad => absurd rfl hbad, fun _ hfail => ?_, fun _ hok hfail => ?_⟩
        · have hn := hchmod hfail
          omega
        · have hn := hreplace hok hfail
          omega
      · rintro ⟨-, -, -, hthere⟩ hunlink
        obtain ⟨-, hchmod, hreplace⟩ := hthere hunlink
        refine ⟨fun hfail => ?_, fun hok hfail => ?_⟩
        · have hn := hchmod rfl hfail
          omega
        · have hn := hreplace rfl hok hfail
          omega

theorem after_canAuthenticate {f : Bool → Script α} :
    (canAuthenticate auth >>= f).after (handle fates) (n + 1) host =
      match fates.account host.asked with
      | some _ => { host with asked := host.asked + 1 }
      | none => (f (decide (auth = host.admin))).after (handle fates) n
          { host with asked := host.asked + 1 } := by
  show (andThen (catchWith (andThen (done _) _) _) f).after (handle fates) n _ = _
  have hstatus := fates.account_status host.asked
  rw [handle]
  cases haccount : fates.account host.asked with
  | some failure =>
    have hraised : failure ≠ .http 401 := by
      rintro rfl
      exact hstatus haccount
    show (andThen (if failure = .http 401 then _ else _) f).after (handle fates) n _ = _
    rw [if_neg hraised]
    exact after_done n _
  | none =>
    dsimp only
    by_cases hauth : auth = host.admin
    · rw [if_pos hauth, decide_eq_true hauth]
      rfl
    · rw [if_neg hauth, decide_eq_false hauth]
      rfl

theorem finish_kept_iff (hadmin : Readable admin) (hfile : credentialOf file ≠ some admin)
    (hold : old ≠ admin) :
    ((finish old admin).after (handle fates) n ⟨file, none, admin, 1⟩).Kept ↔
      4 ≤ n ∧ (fates.account 1 = none ∧ fates.account 2 = none) ∧ fates.mkstemp = none ∧
      (∀ kept failure, fates.write = some (kept, failure) →
        (utf8Encode (credentialText admin)).length ≤ kept + 1) ∧
      fates.Leaves (n - 2) := by
  have hlost : ∀ asked, ¬ AdminHost.Kept ⟨file, none, admin, asked⟩ := by
    rintro asked (hkept | hkept)
    · exact hfile hkept
    · cases hkept
  obtain _ | n := n
  · exact iff_of_false (hlost 1) fun h => absurd h.1 (by omega)
  rw [finish, after_canAuthenticate]
  cases hnew : fates.account 1 with
  | some failure => exact iff_of_false (hlost 2) fun h => by cases h.2.1.1
  | none =>
    obtain _ | n := n
    · exact iff_of_false (hlost 2) fun h => absurd h.1 (by omega)
    dsimp only
    rw [after_canAuthenticate]
    cases holdAccount : fates.account 2 with
    | some failure => exact iff_of_false (hlost 3) fun h => by cases h.2.1.2
    | none =>
      dsimp only
      rw [decide_eq_true rfl, decide_eq_false hold, Bool.not_false, Bool.and_true,
        if_pos rfl, write_kept_iff hadmin hfile]
      constructor
      · rintro ⟨hlate, hmade, hwritten, hthere⟩
        exact ⟨by omega, ⟨rfl, rfl⟩, hmade, hwritten, hthere⟩
      · rintro ⟨hlate, -, hmade, hwritten, hthere⟩
        exact ⟨by omega, hmade, hwritten, hthere⟩

theorem finish_same : ∃ asked, (finish admin admin).after (handle fates) n ⟨file, none, admin, 1⟩ =
    ⟨file, none, admin, asked⟩ := by
  obtain _ | n := n
  · exact ⟨1, rfl⟩
  rw [finish, after_canAuthenticate]
  cases hnew : fates.account 1 with
  | some failure => exact ⟨2, rfl⟩
  | none =>
    obtain _ | n := n
    · exact ⟨2, rfl⟩
    dsimp only
    rw [after_canAuthenticate]
    cases holdAccount : fates.account 2 with
    | some failure => exact ⟨3, rfl⟩
    | none =>
      dsimp only
      rw [decide_eq_true rfl, Bool.not_true, Bool.and_false, if_neg Bool.false_ne_true]
      exact ⟨3, after_done n _⟩

theorem after_rotate {secret : Str} :
    (rotate admin (admin.1, secret)).after (handle fates) (n + 1) ⟨file, none, admin, asked⟩ =
      match fates.set with
      | .answered => (finish admin (admin.1, secret)).after (handle fates) n
          ⟨file, none, (admin.1, secret), asked⟩
      | .lost _ => ⟨file, none, (admin.1, secret), asked⟩
      | _ => ⟨file, none, admin, asked⟩ := by
  show (andThen (andThen (done _) _) _).after (handle fates) n _ = _
  rw [handle, if_pos ⟨rfl, rfl⟩]
  cases fates.set with
  | answered => rfl
  | notUpdated notUpdated => exact after_done n _
  | methodError result => exact after_done n _
  | failed failure => exact after_done n _
  | lost failure => exact after_done n _

theorem rotate_kept_iff {secret : Str} (hfile : credentialOf file = some admin)
    (hadmin : Readable (admin.1, secret)) :
    ((rotate admin (admin.1, secret)).after (handle fates) (n + 1)
      ⟨file, none, admin, 1⟩).Kept ↔ fates.set.carriedOut = false ∨ secret = admin.2 ∨
        Recovered fates (n + 3) (credentialText (admin.1, secret)) := by
  rw [after_rotate]
  by_cases hsame : secret = admin.2
  · subst hsame
    refine iff_of_true ?_ (Or.inr (Or.inl rfl))
    cases fates.set with
    | answered =>
      obtain ⟨asked, hafter⟩ : ∃ asked, (finish admin (admin.1, admin.2)).after (handle fates) n
          ⟨file, none, (admin.1, admin.2), 1⟩ = ⟨file, none, admin, asked⟩ := finish_same
      dsimp only
      rw [hafter]
      exact Or.inl hfile
    | notUpdated notUpdated => exact Or.inl hfile
    | methodError result => exact Or.inl hfile
    | failed failure => exact Or.inl hfile
    | lost failure => exact Or.inl hfile
  · have hchanged : credentialOf file ≠ some (admin.1, secret) := by
      rw [hfile]
      intro h
      exact hsame (congrArg Prod.snd (Option.some.inj h)).symm
    cases hset : fates.set with
    | notUpdated notUpdated => exact iff_of_true (Or.inl hfile) (Or.inl rfl)
    | methodError result => exact iff_of_true (Or.inl hfile) (Or.inl rfl)
    | failed failure => exact iff_of_true (Or.inl hfile) (Or.inl rfl)
    | lost failure =>
      refine iff_of_false ?_ ?_
      · rintro (hkept | hkept)
        · exact hchanged hkept
        · cases hkept
      · rintro (h | h | h)
        · cases h
        · exact hsame h
        · cases hset.symm.trans h.answered
    | answered =>
      dsimp only
      rw [finish_kept_iff hadmin hchanged fun h => hsame (congrArg Prod.snd h).symm]
      constructor
      · rintro ⟨hlate, hverified, hmade, hwritten, hthere⟩
        exact Or.inr (Or.inr ⟨by omega, hset, hverified, hmade, hwritten, by
          rwa [Nat.add_sub_add_right n 3 2]⟩)
      · rintro (h | h | h)
        · cases h
        · exact absurd h hsame
        · have hlate := h.late
          have hthere := h.there
          rw [Nat.add_sub_add_right n 3 2] at hthere
          exact ⟨by omega, h.verified, h.made, h.written, hthere⟩

end Stages

section Runs

variable {fates : Fates} {entropy : SecretBytes} {file : Bytes} {admin auth : Auth} {n : Nat}
  {host host' : AdminHost} {α : Type} {text : Str}

theorem readable_of_credential (h : credentialOf (some file) = some admin) (entropy : SecretBytes) :
    Readable (admin.1, tokenUrlsafe entropy) := by
  rw [credentialOf, contents] at h
  cases hdecode : utf8Decode file with
  | none =>
    rw [hdecode] at h
    cases h
  | some text =>
    rw [hdecode] at h
    have hread : splitColon (strip (universalNewlines text)) = some admin := h
    obtain ⟨hwhole, hcolon⟩ := eq_of_splitColon hread
    have hhead : ∀ c ∈ admin.1.head?, isSpace c = false := by
      intro c hc
      refine isSpace_head_strip (s := universalNewlines text) ?_
      rw [hwhole, List.head?_append_of_ne_nil _ (by
        rintro hnil
        rw [hnil] at hc
        cases hc)]
      exact hc
    refine ⟨hcolon, fun hmem => ?_, hhead, plainSecret_tokenUrlsafe entropy,
      tokenUrlsafe_ne_nil entropy⟩
    refine Submission.noReturn_universal text ((strip_sublist _).subset ?_)
    rw [hwhole]
    exact List.mem_append_left _ hmem

theorem contents_of_credential (h : credentialOf (some file) = some auth) :
    ∃ text, contents (some file) = .ok text ∧ splitCredential text = some auth := by
  rw [credentialOf] at h
  cases hcontents : contents (some file) with
  | error failure =>
    rw [hcontents] at h
    cases h
  | ok text =>
    rw [hcontents] at h
    exact ⟨text, rfl, h⟩

theorem after_main_of_unsent (entropy : SecretBytes) (h : n ≤ 2 ∨ fates.read ≠ none ∨ fates.account 0 ≠ none ∨
      credentialOf (some file) ≠ some admin) :
    ∃ asked, (main entropy).after (handle fates) n (begin file admin) =
      ⟨some file, none, admin, asked⟩ := by
  obtain _ | n := n
  · exact ⟨0, rfl⟩
  rw [main]
  cases hread : fates.read with
  | some failure =>
    exact ⟨0, after_call_error failure (by rw [handle, hread]; rfl)⟩
  | none =>
  cases hcontents : contents (some file) with
  | error failure =>
    exact ⟨0, after_call_error failure (by rw [handle, hread, begin, hcontents])⟩
  | ok text =>
  rw [after_call_ok text (begin file admin)
    (by rw [handle, hread, begin, hcontents])]
  cases hsplit : splitCredential text with
  | none => exact ⟨0, after_done n _⟩
  | some old =>
  obtain _ | n := n
  · exact ⟨0, rfl⟩
  dsimp only
  rw [after_canAuthenticate]
  cases haccount : fates.account 0 with
  | some failure =>
    refine ⟨1, ?_⟩
    rw [begin, haccount]
  | none =>
  rw [begin, haccount]
  dsimp only
  by_cases hold : old = admin
  · subst hold
    obtain _ | n := n
    · exact ⟨1, rfl⟩
    rcases h with h | h | h | h
    · omega
    · exact absurd hread h
    · exact absurd haccount h
    · refine absurd ?_ h
      rw [credentialOf, hcontents]
      exact hsplit
  · rw [decide_eq_false hold, if_neg Bool.false_ne_true]
    exact ⟨1, after_done n _⟩

theorem after_main_sent (hread : fates.read = none) (haccount : fates.account 0 = none)
    (hstart : credentialOf (some file) = some admin) :
    (main entropy).after (handle fates) (n + 2) (begin file admin) =
      (rotate admin (admin.1, tokenUrlsafe entropy)).after (handle fates) n
        ⟨some file, none, admin, 1⟩ := by
  obtain ⟨text, hcontents, hsplit⟩ := contents_of_credential hstart
  rw [main, after_call_ok text (begin file admin)
    (by rw [handle, hread, begin, hcontents]), hsplit]
  dsimp only
  rw [after_canAuthenticate, begin, haccount]
  dsimp only
  rw [decide_eq_true rfl, if_pos rfl]

theorem kept_iff : ((main entropy).after (handle fates) n (begin file admin)).Kept ↔
    SafeStop fates entropy file admin n := by
  by_cases hunsent : n ≤ 2 ∨ fates.read ≠ none ∨ fates.account 0 ≠ none ∨
      credentialOf (some file) ≠ some admin
  · obtain ⟨asked, hafter⟩ := after_main_of_unsent entropy hunsent
    rw [hafter]
    constructor
    · rintro (hkept | hkept)
      · refine ⟨hkept, ?_⟩
        rcases hunsent with h | h | h | h
        · exact Or.inl h
        · exact Or.inr (Or.inl h)
        · exact Or.inr (Or.inr (Or.inl h))
        · exact absurd hkept h
      · cases hkept
    · exact fun h => Or.inl h.start
  · rw [not_or, not_or, not_or, not_not, not_not, not_not] at hunsent
    obtain ⟨hlate, hread, haccount, hstart⟩ := hunsent
    obtain ⟨m, rfl⟩ : ∃ m, n = m + 1 + 2 := ⟨n - 3, by omega⟩
    rw [after_main_sent hread haccount hstart,
      rotate_kept_iff hstart (readable_of_credential hstart entropy)]
    constructor
    · exact fun h => ⟨hstart, Or.inr (Or.inr (Or.inr h))⟩
    · rintro ⟨-, h | h | h | h⟩
      · omega
      · exact absurd hread h
      · exact absurd haccount h
      · exact h

theorem run_call {op : RotateOp} : (call op).run (handle fates) host = handle fates host op := rfl

theorem run_canAuthenticate {works : Bool}
    (h : (canAuthenticate auth).run (handle fates) host = (.ok works, host')) :
    works = decide (auth = host.admin) ∧ host' = { host with asked := host.asked + 1 } := by
  rw [canAuthenticate, run_catchWith, run_bind, run_call, handle] at h
  have hstatus := fates.account_status host.asked
  cases haccount : fates.account host.asked with
  | some failure =>
    rw [haccount] at h hstatus
    dsimp only at h
    rw [if_neg fun hbad => hstatus (congrArg some hbad)] at h
    cases h
  | none =>
    rw [haccount] at h
    dsimp only at h
    by_cases hauth : auth = host.admin
    · rw [if_pos hauth] at h
      cases h
      exact ⟨(decide_eq_true hauth).symm, rfl⟩
    · rw [if_neg hauth] at h
      dsimp only at h
      rw [if_pos rfl] at h
      cases h
      exact ⟨(decide_eq_false hauth).symm, rfl⟩

theorem run_setPassword {secret : Str}
    (h : (setPassword auth secret).run (handle fates) host = (.ok none, host')) :
    host' = { host with admin := (host.admin.1, secret) } ∧ auth = host.admin := by
  obtain ⟨reply, mid, hcall, hreply⟩ := of_run_bind_ok h
  rw [run_call, handle] at hcall
  by_cases hauth : auth = host.admin ∧ auth.2 = host.admin.2
  · rw [if_pos hauth] at hcall
    cases hset : fates.set with
    | answered =>
      rw [hset] at hcall
      cases hcall
      cases hreply
      exact ⟨rfl, hauth.1⟩
    | notUpdated notUpdated =>
      rw [hset] at hcall
      cases hcall
      cases hreply
    | methodError result =>
      rw [hset] at hcall
      cases hcall
      cases hreply
    | failed failure =>
      rw [hset] at hcall
      cases hcall
    | lost failure =>
      rw [hset] at hcall
      cases hcall
  · rw [if_neg hauth] at hcall
    cases hcall

theorem run_write {u : Unit}
    (h : (writeCredentialAtomic text).run (handle fates) host = (.ok u, host')) :
    host'.file = some (utf8Encode text) ∧ host'.admin = host.admin := by
  obtain ⟨_, made, hmade, hrest⟩ := of_run_bind_ok h
  rw [run_call, handle] at hmade
  have hadmin : made.admin = host.admin := by
    cases hfate : fates.mkstemp with
    | none =>
      rw [hfate] at hmade
      cases hmade
      rfl
    | some failure =>
      rw [hfate] at hmade
      cases hmade
  have hdiscard : ∀ failure host r, (discardTemp failure).run (handle fates) host ≠ (.ok r, host') := by
    intro failure host r hbad
    obtain ⟨_, _, _, hraise⟩ := of_run_bind_ok hbad
    cases hraise
  rw [run_catchWith, run_bind, run_call, handle] at hrest
  cases hwrite : fates.write with
  | some left =>
    rw [hwrite] at hrest
    exact absurd hrest (hdiscard _ _ _)
  | none =>
  rw [hwrite] at hrest
  dsimp only at hrest
  rw [run_bind, run_call, handle] at hrest
  cases hchmod : fates.chmod with
  | some failure =>
    rw [hchmod] at hrest
    exact absurd hrest (hdiscard _ _ _)
  | none =>
  rw [hchmod] at hrest
  dsimp only [orFail] at hrest
  rw [run_call, handle] at hrest
  cases hreplace : fates.replace with
  | some failure =>
    rw [hreplace] at hrest
    exact absurd hrest (hdiscard _ _ _)
  | none =>
    rw [hreplace] at hrest
    cases hrest
    exact ⟨rfl, hadmin⟩

theorem rotated_of_run
    (h : (main entropy).run (handle fates) (begin file admin) = (.ok .rotated, host)) :
    credentialOf host.file = some host.admin ∧
      ∀ old, credentialOf (some file) = some old → old ≠ host.admin := by
  obtain ⟨text, mid, hread, h⟩ := of_run_bind_ok h
  rw [run_call, handle] at hread
  cases hfate : fates.read with
  | some failure =>
    rw [hfate] at hread
    cases hread
  | none =>
  rw [hfate] at hread
  obtain ⟨hcontents, rfl⟩ := Prod.mk.inj hread
  cases hsplit : splitCredential text with
  | none =>
    rw [hsplit] at h
    cases h
  | some old =>
  have hstart : credentialOf (some file) = some old := by
    rw [credentialOf]
    rw [begin] at hcontents
    rw [hcontents]
    exact hsplit
  rw [hsplit] at h
  obtain ⟨works, mid, hcan, h⟩ := of_run_bind_ok h
  obtain ⟨rfl, rfl⟩ := run_canAuthenticate hcan
  by_cases hold : old = (begin file admin).admin
  · rw [decide_eq_true hold, if_pos rfl] at h
    obtain ⟨notUpdated, mid, hset, h⟩ := of_run_bind_ok h
    cases notUpdated with
    | some notUpdated => cases h
    | none =>
      obtain ⟨rfl, -⟩ := run_setPassword hset
      obtain ⟨newWorks, mid, hnew, h⟩ := of_run_bind_ok h
      obtain ⟨rfl, rfl⟩ := run_canAuthenticate hnew
      obtain ⟨oldWorks, mid, holdWorks, h⟩ := of_run_bind_ok h
      obtain ⟨rfl, rfl⟩ := run_canAuthenticate holdWorks
      dsimp only at h
      split_ifs at h with hverified
      · rw [Bool.and_eq_true, Bool.not_eq_true', decide_eq_false_iff_not] at hverified
        obtain ⟨_, last, hwrite, h⟩ := of_run_bind_ok h
        cases h
        obtain ⟨hfile, hadmin⟩ := run_write hwrite
        obtain rfl : old = admin := hold
        rw [hfile, hadmin, credentialOf_whole (readable_of_credential hstart entropy)]
        refine ⟨rfl, fun other hother => ?_⟩
        obtain rfl := Option.some.inj (hstart.symm.trans hother)
        exact hverified.2
      · cases h
  · rw [decide_eq_false hold, if_neg Bool.false_ne_true] at h
    cases h

theorem untouched_of_run (h : ∀ x ∈ (main entropy).trace (handle fates) (begin file admin),
      ∀ auth secret current, x.1 ≠ .setPassword auth secret current) :
    ((main entropy).run (handle fates) (begin file admin)).2.file = some file := by
  obtain ⟨n, hn⟩ : ∃ n, ((main entropy).run (handle fates) (begin file admin)).2 =
      (main entropy).after (handle fates) n (begin file admin) := exists_after_run
  rw [hn]
  by_cases hunsent : n ≤ 2 ∨ fates.read ≠ none ∨ fates.account 0 ≠ none ∨
      credentialOf (some file) ≠ some admin
  · obtain ⟨asked, hafter⟩ := after_main_of_unsent entropy hunsent
    rw [hafter]
  · rw [not_or, not_or, not_or, not_not, not_not, not_not] at hunsent
    obtain ⟨-, hread, haccount, hstart⟩ := hunsent
    obtain ⟨text, hcontents, hsplit⟩ := contents_of_credential hstart
    have hrun : (call .readCredentials).run (handle fates) (begin file admin) =
        (.ok text, begin file admin) := by
      rw [run_call, handle, hread, begin, hcontents]
    have hcan : (canAuthenticate admin).run (handle fates) (begin file admin) =
        (.ok true, ⟨some file, none, admin, 1⟩) := by
      rw [canAuthenticate, run_catchWith, run_bind, run_call, handle, begin, haccount]
      dsimp only
      rw [if_pos rfl]
      rfl
    let sent : RotateOp := .setPassword admin (tokenUrlsafe entropy) admin.2
    refine absurd rfl (h ⟨sent, (handle fates ⟨some file, none, admin, 1⟩ sent).1⟩ ?_ _ _ _)
    rw [main, trace_bind_ok hrun, hsplit]
    refine List.mem_append_right _ ?_
    dsimp only
    rw [trace_bind_ok hcan, if_pos rfl]
    exact List.mem_append_right _ List.mem_cons_self

/-- What a run that stops leaves is right just when the change was not carried out, or the new
secret was verified, written, and left where it was written. -/
theorem rotatesSafely_iff (fates : Fates) (entropy : SecretBytes) (file : Bytes) (admin : Auth)
    (n : Nat) : RotatesSafely fates entropy file admin n ↔ SafeStop fates entropy file admin n := by
  constructor
  · exact fun h => kept_iff.mp h.kept
  · exact fun h => ⟨kept_iff.mpr h, fun host => rotated_of_run, untouched_of_run⟩

/-- The change is carried out and its answer is lost; all else goes well. -/
def lostAnswer : Fates where
  read := none
  account _ := none
  account_status _ := Option.some_ne_none _ ∘ Eq.symm
  set := .lost (.other "TimeoutError".toList)
  mkstemp := none
  write := none
  chmod := none
  replace := none
  unlink := none

def zeroBytes : SecretBytes := ⟨List.replicate 24 0, by decide⟩

/-- No file has the secret that the server holds when the script stops. -/
theorem lost_answer_loses_the_secret :
    ¬ RotatesSafely lostAnswer zeroBytes (utf8Encode "admin:old\n".toList)
      ("admin".toList, "old".toList) 3 := by
  intro h
  obtain hearly | hread | haccount | hset | hsame | hrecovered := (kept_iff.mp h.kept).stop
  · omega
  · exact hread rfl
  · exact haccount rfl
  · cases hset
  · exact absurd hsame (by decide +kernel)
  · have hlate := hrecovered.late
    omega

end Runs

end Rotation
end SharedInfra.MailAdmin
