import SharedInfra.Python.JsonReader
import SharedInfra.Python.Utf8
import SharedInfra.Python.Splitting
import SharedInfra.Python.Replace

/-!
# Seeding the inputs of a host

`seed_host_inputs.py`: the tables of the inputs and of their live homes, what it reads in the live
files, what it asks for, what it installs and all that it shows.  The terminal is a list of answers;
at its end every prompt meets the end of the input.  The JSON writer and the comparison of documents
are given (`JsonCodec`).
-/

namespace SharedInfra.HostInputs

open Python

/-- How an input is kept: a `NAME=value` line, a whole file, a list of recipients, or nowhere on
the host, so that it is typed (`slots`, `typed`). -/
inductive Kind where
  | env
  | whole
  | recipients
  | slots
  | typed
deriving DecidableEq

/-- Where the hand install left one input. -/
structure Source where
  kind : Kind
  filename : Str
  name : Str

def env (filename name : String) : Source := ⟨.env, filename.toList, name.toList⟩

def hosts : List (Str × List Str) :=
  [⟨"edge1", ["monitoring_stack_smtp_username", "monitoring_stack_smtp_password",
      "monitoring_stack_healthchecks_ping_url", "monitoring_stack_alert_recipient_email",
      "monitoring_stack_mailhost_ping_url", "monitoring_stack_grafana_admin_password",
      "monitoring_stack_snds_data_url", "ntfy_pager_pager_token", "ntfy_pager_watcher_token",
      "ntfy_pager_owner_password_hash", "ntfy_pager_machine_password_hash", "ci_jump_user"]⟩,
   ⟨"edget", ["ci_jump_user"]⟩,
   ⟨"ops1", ["backup_worker_db_host", "backup_worker_db_user", "backup_worker_db_password",
      "backup_worker_db_ca_pem", "backup_worker_bucket", "backup_worker_s3_endpoint",
      "backup_worker_s3_region", "backup_worker_s3_access_key_id",
      "backup_worker_s3_secret_access_key", "backup_worker_tenants",
      "backup_restore_state_copy_recipient", "backup_restore_state_copy_dest_access_key_id",
      "backup_restore_state_copy_estate_bucket", "backup_restore_state_copy_estate_endpoint",
      "backup_restore_state_copy_estate_region", "backup_restore_state_copy_estate_access_key_id",
      "backup_restore_state_copy_tenant_bucket", "backup_restore_state_copy_tenant_endpoint",
      "backup_restore_state_copy_tenant_region", "backup_restore_state_copy_tenant_access_key_id"]⟩,
   ⟨"app1", ["website_app1_smtp_host", "website_app1_smtp_port", "website_app1_smtp_user",
      "website_app1_smtp_password", "deploy_slot_keys_slots"]⟩]

def sources : List (Str × List Source) :=
  [⟨"monitoring_stack_smtp_username", [env "monitoring.env" "SMTP_USERNAME"]⟩,
   ⟨"monitoring_stack_smtp_password", [env "monitoring.env" "SMTP_PASSWORD"]⟩,
   ⟨"monitoring_stack_healthchecks_ping_url", [env "monitoring.env" "HEALTHCHECKS_PING_URL"]⟩,
   ⟨"monitoring_stack_alert_recipient_email", [env "monitoring.env" "ALERT_RECIPIENT_EMAIL"]⟩,
   ⟨"monitoring_stack_mailhost_ping_url", [env "monitoring.env" "MAILHOST_PING_URL"]⟩,
   ⟨"monitoring_stack_grafana_admin_password", [env "monitoring.env" "GRAFANA_ADMIN_PASSWORD"]⟩,
   ⟨"monitoring_stack_snds_data_url", [env "monitoring.env" "SNDS_DATA_URL"]⟩,
   ⟨"ntfy_pager_pager_token", [env "ntfy-pager.env" "NTFY_PAGER_TOKEN",
      env "monitoring.env" "NTFY_PAGER_TOKEN"]⟩,
   ⟨"ntfy_pager_watcher_token", [env "ntfy-pager.env" "NTFY_WATCHER_TOKEN",
      env "monitoring.env" "NTFY_WATCHER_TOKEN"]⟩,
   ⟨"ntfy_pager_owner_password_hash", [env "ntfy-pager.env" "NTFY_OWNER_PASSWORD_HASH",
      env "monitoring.env" "NTFY_OWNER_PASSWORD_HASH"]⟩,
   ⟨"ntfy_pager_machine_password_hash", [env "ntfy-pager.env" "NTFY_MACHINE_PASSWORD_HASH",
      env "monitoring.env" "NTFY_MACHINE_PASSWORD_HASH"]⟩,
   ⟨"backup_worker_db_host", [env "backup-worker.env" "BACKUP_WORKER_DB_HOST"]⟩,
   ⟨"backup_worker_db_user", [env "backup-worker.env" "BACKUP_WORKER_MYSQL_USER"]⟩,
   ⟨"backup_worker_db_password", [env "backup-worker.env" "DB_DUMP_MYSQL_PWD"]⟩,
   ⟨"backup_worker_db_ca_pem", [⟨.whole, "db1-ca.pem", []⟩]⟩,
   ⟨"backup_worker_bucket", [env "backup-worker.env" "BACKUP_WORKER_COPY_PRIMARY_BUCKET"]⟩,
   ⟨"backup_worker_s3_endpoint", [env "backup-worker.env" "BACKUP_WORKER_COPY_PRIMARY_ENDPOINT"]⟩,
   ⟨"backup_worker_s3_region", [env "backup-worker.env" "BACKUP_WORKER_COPY_PRIMARY_REGION"]⟩,
   ⟨"backup_worker_s3_access_key_id", [
      env "backup-worker.env" "BACKUP_WORKER_COPY_PRIMARY_ACCESS_KEY_ID"]⟩,
   ⟨"backup_worker_s3_secret_access_key", [
      env "backup-worker.env" "BACKUP_WORKER_COPY_PRIMARY_SECRET_ACCESS_KEY"]⟩,
   ⟨"backup_worker_tenants", [⟨.recipients, "backup-worker-recipients", []⟩]⟩,
   ⟨"backup_restore_state_copy_recipient", [env "state-copy.env" "STATE_COPY_RECIPIENT"]⟩,
   ⟨"backup_restore_state_copy_dest_access_key_id", [
      env "state-copy.env" "STATE_COPY_DEST_ACCESS_KEY_ID"]⟩,
   ⟨"backup_restore_state_copy_estate_bucket", [env "state-copy.env" "STATE_COPY_ESTATE_BUCKET"]⟩,
   ⟨"backup_restore_state_copy_estate_endpoint", [
      env "state-copy.env" "STATE_COPY_ESTATE_ENDPOINT"]⟩,
   ⟨"backup_restore_state_copy_estate_region", [env "state-copy.env" "STATE_COPY_ESTATE_REGION"]⟩,
   ⟨"backup_restore_state_copy_estate_access_key_id", [
      env "state-copy.env" "STATE_COPY_ESTATE_ACCESS_KEY_ID"]⟩,
   ⟨"backup_restore_state_copy_tenant_bucket", [env "state-copy.env" "STATE_COPY_TENANT_BUCKET"]⟩,
   ⟨"backup_restore_state_copy_tenant_endpoint", [
      env "state-copy.env" "STATE_COPY_TENANT_ENDPOINT"]⟩,
   ⟨"backup_restore_state_copy_tenant_region", [env "state-copy.env" "STATE_COPY_TENANT_REGION"]⟩,
   ⟨"backup_restore_state_copy_tenant_access_key_id", [
      env "state-copy.env" "STATE_COPY_TENANT_ACCESS_KEY_ID"]⟩,
   ⟨"website_app1_smtp_host", [env "website.env" "CONTACT_SMTP_HOST"]⟩,
   ⟨"website_app1_smtp_port", [env "website.env" "CONTACT_SMTP_PORT"]⟩,
   ⟨"website_app1_smtp_user", [env "website.env" "CONTACT_SMTP_USER"]⟩,
   ⟨"website_app1_smtp_password", [env "website.env" "CONTACT_SMTP_PASSWORD"]⟩,
   ⟨"deploy_slot_keys_slots", [⟨.slots, [], []⟩]⟩,
   ⟨"ci_jump_user", [⟨.typed, [], []⟩]⟩]

def messages : List (Str × Str) :=
  [⟨"unknown-host", "this tool seeds edge1, edget, ops1 or app1 only"⟩,
   ⟨"not-root", "must run as root"⟩,
   ⟨"directory", "a directory above the file is not a real directory owned by root and closed"⟩,
   ⟨"exists", "the inputs file appeared meanwhile and was not overwritten"⟩,
   ⟨"no-file", "the inputs file does not exist; run without --set first"⟩,
   ⟨"bad-file", "the inputs file is not a regular root:root 0600 file"⟩,
   ⟨"bad-content", "the inputs file is not one JSON object with keys inside this host's row"⟩,
   ⟨"bad-key", "that name is not in this host's row"⟩,
   ⟨"no-value", "no value was given"⟩,
   ⟨"read-back", "the file was written but did not read back as written; inspect it"⟩]

def reasons : List (Str × Str) :=
  [⟨"src-type", "not a regular file"⟩,
   ⟨"src-owner", "not owned by root"⟩,
   ⟨"src-writable", "writable by others"⟩]

/-- The row of a host. -/
def inputs (host : Str) : List Str := (hosts.lookup host).getD []

/-- The live homes of an input. -/
def homes (key : Str) : List Source := (sources.lookup key).getD []

def maxBytes : Nat := 1 <<< 20

structure FileInfo where
  regular : Bool
  uid : Nat
  gid : Nat
  mode : Nat

/-- What `os.open` without following links makes of a path. -/
inductive FileState where
  | absent
  | unopenable (error : Str)
  | opened (info : FileInfo) (data : Bytes)

/-- What leaves a function: a `SeedError`, an `OSError` or a `ValueError` by its class, the
interrupt, or what `main` does not catch. -/
inductive Fault where
  | notFound
  | seed (code : Str)
  | error (name : Str)
  | interrupt
  | uncaught (name : Str)
deriving DecidableEq

def readFile (file : FileState) (exact : Bool) : Except Fault Str :=
  match file with
  | .absent => .error .notFound
  | .unopenable error => .error (.error error)
  | .opened info data =>
    if !info.regular then .error (.seed "src-type")
    else if info.uid ≠ 0 ∨ (exact = true ∧ info.gid ≠ 0) then .error (.seed "src-owner")
    else if exact = true ∧ info.mode &&& 0o7777 ≠ 0o600 then .error (.seed "src-writable")
    else if info.mode &&& 0o022 ≠ 0 then .error (.seed "src-writable")
    else if maxBytes < data.length then .error (.seed "src-type")
    else
      match utf8Decode data with
      | some text => .ok text
      | none => .error (.error "UnicodeDecodeError")

structure Tenant where
  slug : Str
  recipient : Str
deriving DecidableEq

structure Slot where
  stack : Str
  publicKey : Str
  adoptExisting : Bool
deriving DecidableEq

/-- The `NAME=value` lines of a text. -/
def assignments (text : Str) : List (Str × Str) :=
  (splitOnChar '\n' text).filterMap fun line =>
    if strip line = [] ∨ startsWith (lstrip line) ['#'] then none
    else
      let (name, found, value) := partition '=' line
      if found then some (name, value) else none

/-- `values.get(name, "")` of `parse_env`: the last line counts. -/
def envValue (text name : Str) : Str :=
  ((assignments text).reverse.lookup name).getD []

/-- The name is one of the `duplicates` of `parse_env`. -/
def isDuplicate (text name : Str) : Bool :=
  1 < (assignments text).countP fun entry => entry.1 = name

def parseTenantLine (line : Str) : Option Tenant :=
  let (slug, found, recipient) := partition ' ' line
  if !found || splitWords slug ≠ [slug] || splitWords recipient ≠ [recipient] then none
  else some ⟨slug, recipient⟩

def parseRecipients (text : Str) : Option (List Tenant) :=
  ((splitOnChar '\n' text).filter fun line => line ≠ []).mapM parseTenantLine

def privateKeyMark : Str := "PRIVATE KEY"

def isCertificate (text : Str) : Bool :=
  occursIn "-----BEGIN CERTIFICATE-----".toList text &&
    occursIn "-----END CERTIFICATE-----".toList text && !occursIn privateKeyMark text

/-- `SLOT_KEY_BLOB.fullmatch`. -/
def isKeyBlob (word : Str) : Bool :=
  let letters := word.takeWhile fun c => c.isAlphanum || c == '+' || c == '/'
  let padding := word.drop letters.length
  20 ≤ letters.length && padding.length ≤ 2 && padding.all fun c => c == '='

def parseSlotLine (line : Str) : Option Slot :=
  match splitWords line with
  | stack :: keyType :: blob :: more =>
    if keyType = "ssh-ed25519".toList ∧ isKeyBlob blob = true then
      some ⟨stack, keyType ++ ' ' :: blob, more.getLast? == some "adopt".toList⟩
    else none
  | _ => none

/-- What a prompt meets: a line, the end of the input or an `OSError`, another error by its class,
or the interrupt. -/
inductive Answer where
  | text (line : Str)
  | failed
  | error (name : Str)
  | interrupt

/-- What differs between two runs on a host: the files of the configuration directory, those that
a path may name, and the answers. -/
structure World where
  file : Str → FileState
  path : Str → FileState
  answers : List Answer

/-- What `os.lstat` says of a directory. -/
structure DirInfo where
  isDir : Bool
  uid : Nat
  mode : Nat

/-- The host itself: who runs the tool, the directories above the file, and the errors that the
steps of an installation meet. -/
structure Machine where
  euid : Nat
  ancestors : List (Except Str DirInfo)
  create : Option Str
  build : Option Str
  place : Option Str
  appears : Bool
  sync : Option Str
  remove : Option Str

/-- `json` of the standard library: the limits of its reader, `dumps` with an indent of two, which
may recurse too deep, and whether two values are equal. -/
structure JsonCodec where
  limits : JsonLimits
  dumps : Json → Option Str
  same : Json → Json → Bool

inductive Mode where
  | fill (replace : Bool)
  | set (key : Str)

inductive Value where
  | text (value : Str)
  | tenants (entries : List Tenant)
  | slots (entries : List Slot)

def Tenant.json (t : Tenant) : Json :=
  .object [("slug".toList, .string t.slug), ("recipient".toList, .string t.recipient)]

def Slot.json (s : Slot) : Json :=
  .object [("stack".toList, .string s.stack), ("public_key".toList, .string s.publicKey),
    ("adopt_existing".toList, .bool s.adoptExisting)]

def Value.json : Value → Json
  | .text value => .string value
  | .tenants entries => .array (entries.map Tenant.json)
  | .slots entries => .array (entries.map Slot.json)

/-- One write to a stream, or a prompt on the terminal. -/
inductive Shown where
  | prompt (text : Str)
  | out (line : Str)
  | err (line : Str)
  | traceback (name : Str)
deriving DecidableEq

section Live

variable (w : World)

inductive Found where
  | found (value : Value)
  | absent
  | unusable

/-- `_env_value`, with what it flags. -/
def envLookup (text : Str) (source : Source) : Found × Option Str :=
  if isDuplicate text source.name then
    (.unusable, some (source.filename ++ ' ' :: source.name ++ " (duplicate)".toList))
  else if strip (envValue text source.name) = [] then (.absent, none)
  else (.found (.text (envValue text source.name)), none)

/-- `lookup`, with what it flags. -/
def lookUp (source : Source) : Found × Option Str :=
  match readFile (w.file source.filename) false with
  | .error .notFound => (.absent, none)
  | .error (.seed code) =>
    (.unusable, some (source.filename ++ " (".toList ++ (reasons.lookup code).getD [] ++ [')']))
  | .error _ => (.unusable, some (source.filename ++ " (link or unreadable)".toList))
  | .ok text =>
    match source.kind with
    | .env => envLookup text source
    | .whole =>
      if strip text = [] then (.absent, none)
      else if isCertificate text then (.found (.text text), none)
      else (.unusable, some (source.filename ++ " (not a certificate)".toList))
    | _ =>
      if strip text = [] then (.absent, none)
      else
        match parseRecipients text with
        | none => (.unusable, some (source.filename ++ " (malformed)".toList))
        | some [] => (.absent, none)
        | some tenants => (.found (.tenants tenants), none)

def flag (problems : List Str) (note : Option Str) : List Str :=
  match note with
  | none => problems
  | some note => if note ∈ problems then problems else problems ++ [note]

/-- The live value of an input from its homes, and the problems so far. -/
def liveValue : List Source → List Str → Option Value × List Str
  | [], problems => (none, problems)
  | source :: rest, problems =>
    if source.kind = .slots ∨ source.kind = .typed then (none, problems)
    else
      match lookUp w source with
      | (.found value, note) => (some value, flag problems note)
      | (.unusable, note) => (none, flag problems note)
      | (.absent, note) => liveValue rest (flag problems note)

/-- The live values of the inputs, in order. -/
def liveValues : List Str → List Str → List (Str × Option Value) × List Str
  | [], problems => ([], problems)
  | key :: keys, problems =>
    let (value, problems) := liveValue w (homes key) problems
    let (more, problems) := liveValues keys problems
    ((key, value) :: more, problems)

end Live

section Asking

inductive Refusal where
  | malformed
  | repeated
  | privateKey
deriving DecidableEq

/-- What a prompt makes of an answer. -/
inductive Reply (α : Type) where
  | given (value : α)
  | empty
  | refused (why : Refusal)
  | failed
  | raised (fault : Fault)

def Answer.reply {α : Type} (judge : Str → Reply α) : Answer → Reply α
  | .text line => judge line
  | .failed => .failed
  | .error name => .raised (.error name)
  | .interrupt => .raised .interrupt

variable (w : World)

/-- The prompt of `ask_certificate`: no error is let through. -/
def certificateReply (answer : Answer) : Reply Str :=
  match answer with
  | .text line =>
    match readFile (w.path (strip line)) false with
    | .error _ => .failed
    | .ok text => if isCertificate text then .given text else .refused .malformed
  | .failed => .failed
  | .error _ => .failed
  | .interrupt => .raised .interrupt

/-- A prompt of `ask_tenants`. -/
def tenantReply (answer : Answer) : Reply Tenant :=
  answer.reply fun line =>
    if strip line = [] then .empty
    else if occursIn privateKeyMark line then .refused .privateKey
    else
      match parseTenantLine (strip line) with
      | none => .refused .malformed
      | some tenant => .given tenant

/-- A prompt of `ask_slots`. -/
def slotReply (slots : List Slot) (answer : Answer) : Reply Slot :=
  answer.reply fun line =>
    if strip line = [] then .empty
    else if occursIn privateKeyMark line then .refused .privateKey
    else
      match parseSlotLine (strip line) with
      | none => .refused .malformed
      | some slot =>
        if slots.any fun kept => kept.stack = slot.stack ∨ kept.publicKey = slot.publicKey then
          .refused .repeated
        else .given slot

/-- The prompt of any other input. -/
def plainReply (answer : Answer) : Reply Str :=
  answer.reply fun answer =>
    if strip answer = [] then .empty
    else if answer.contains '\n' || answer.contains '\r' then .refused .malformed
    else .given answer

/-- What has been shown, and the value with the answers that are left. -/
structure Asked (α : Type) where
  shown : List Shown
  ended : Except Fault (α × List Answer)

/-- Something more is shown before. -/
def Asked.after {α : Type} (shown : List Shown) (asked : Asked α) : Asked α :=
  ⟨shown ++ asked.shown, asked.ended⟩

def askOnce (prompt : Str) (reply : Answer → Reply Str) (answers : List Answer) :
    Asked (Option Value) :=
  match reply (answers.headD .failed) with
  | .given value => ⟨[.prompt prompt], .ok (some (.text value), answers.tail)⟩
  | .raised fault => ⟨[.prompt prompt], .error fault⟩
  | _ => ⟨[.prompt prompt], .ok (none, answers.tail)⟩

/-- `ask_tenants`, with the tenants so far. -/
def askTenants (key : Str) (tenants : List Tenant) (answers : List Answer) :
    Asked (Option Value) :=
  let prompt := .prompt (key ++ ": tenant as 'slug recipient' (".toList ++
    decimal tenants.length ++ " so far), empty line to end: ".toList)
  match answers with
  | [] => ⟨[prompt], .ok (none, [])⟩
  | answer :: rest =>
    match tenantReply answer with
    | .failed => ⟨[prompt], .ok (none, rest)⟩
    | .raised fault => ⟨[prompt], .error fault⟩
    | .empty => ⟨[prompt], .ok (if tenants = [] then none else some (.tenants tenants), rest)⟩
    | .refused .privateKey =>
      ⟨[prompt, .err
        "that line looks like a private key; nothing is written; run again.".toList],
        .ok (none, rest)⟩
    | .refused _ =>
      (askTenants key tenants rest).after
        [prompt, .err "that line is not 'slug recipient'; try again".toList]
    | .given tenant => (askTenants key (tenants ++ [tenant]) rest).after [prompt]

/-- `ask_slots`, with the slots so far. -/
def askSlots (key : Str) (slots : List Slot) (answers : List Answer) : Asked (Option Value) :=
  let prompt := .prompt (key ++ ": slot as 'stack public_key [adopt]' (".toList ++
    decimal slots.length ++ " so far), empty line to end: ".toList)
  match answers with
  | [] => ⟨[prompt], .ok (none, [])⟩
  | answer :: rest =>
    match slotReply slots answer with
    | .failed => ⟨[prompt], .ok (none, rest)⟩
    | .raised fault => ⟨[prompt], .error fault⟩
    | .empty => ⟨[prompt], .ok (if slots = [] then none else some (.slots slots), rest)⟩
    | .refused _ =>
      ⟨[prompt, .err "that line is not 'stack public_key [adopt]', or repeats one.".toList,
        .err "nothing is written; run again.".toList], .ok (none, rest)⟩
    | .given slot => (askSlots key (slots ++ [slot]) rest).after [prompt]

def kindOf (key : Str) : Kind := ((homes key).head?.map Source.kind).getD .typed

def askFor (key : Str) (answers : List Answer) : Asked (Option Value) :=
  match kindOf key with
  | .whole =>
    askOnce (key ++ ": path of the PEM file holding the CA certificate: ".toList)
      (certificateReply w) answers
  | .recipients => askTenants key [] answers
  | .slots => askSlots key [] answers
  | _ => askOnce (key ++ ": ".toList) plainReply answers

/-- The answers for the pending inputs, one after the other. -/
def askAll : List Str → List Answer → Asked (List (Str × Option Value))
  | [], answers => ⟨[], .ok ([], answers)⟩
  | key :: keys, answers =>
    let asked := askFor w key answers
    match asked.ended with
    | .error fault => ⟨asked.shown, .error fault⟩
    | .ok (value, rest) =>
      let more := askAll keys rest
      ⟨asked.shown ++ more.shown, more.ended.map fun (values, rest) =>
        ((key, value) :: values, rest)⟩

end Asking

section Installing

variable (codec : JsonCodec) (machine : Machine) (w : World)

def destName : Str := "host-inputs.json"

def destination : Str := "/etc/branchleft/host-inputs.json"

def documentText (document : List (Str × Json)) : Option Str :=
  (codec.dumps (.object document)).map fun text => text ++ ['\n']

/-- `read_back` of what has just been written. -/
def readBack (document : List (Str × Json)) (data : Bytes) : Except Fault Unit :=
  match readFile (.opened ⟨true, 0, 0, 0o600⟩ data) true with
  | .error _ => .error (.seed "read-back")
  | .ok text =>
    match loads codec.limits text with
    | .error .recursion => .error (.uncaught "RecursionError")
    | .error _ => .error (.seed "read-back")
    | .ok written =>
      if codec.same written (.object document) then .ok () else .error (.seed "read-back")

/-- A step that may raise an `OSError`. -/
def step (error : Option Str) : Except Fault Unit :=
  match error with
  | none => .ok ()
  | some name => .error (.error name)

/-- The steps of `install` in the temporary file and behind it. -/
def putInPlace (document : List (Str × Json)) (replace : Bool) (data : Bytes) :
    Except Fault Unit := do
  step machine.build
  if !replace && machine.appears then throw (.seed "exists")
  step machine.place
  step machine.sync
  readBack codec document data

/-- `install`; an error in taking the temporary file away replaces what was raised before. -/
def install (document : List (Str × Json)) (replace : Bool) : Except Fault Unit :=
  match documentText codec document with
  | none => .error (.uncaught "RecursionError")
  | some text => do
    step machine.create
    match machine.remove with
    | some name => .error (.error name)
    | none => putInPlace codec machine document replace (utf8Encode text)

/-- `dict[key] = value`, of the entries of the dict. -/
def assign (document : List (Str × Json)) (key : Str) (value : Json) : List (Str × Json) :=
  match document with
  | [] => [(key, value)]
  | (other, v) :: rest =>
    if key = other then (other, value) :: rest else (other, v) :: assign rest key value

def loadExisting (host : Str) : Except Fault (List (Str × Json)) :=
  match readFile (w.file destName) true with
  | .error .notFound => .error (.seed "no-file")
  | .error _ => .error (.seed "bad-file")
  | .ok text =>
    match loads codec.limits text with
    | .error .recursion => .error (.uncaught "RecursionError")
    | .error _ => .error (.seed "bad-content")
    | .ok (.object members) =>
      if members.all fun entry => entry.1 ∈ inputs host then
        .ok (members.foldl (fun document entry => assign document entry.1 entry.2) [])
      else .error (.seed "bad-content")
    | .ok _ => .error (.seed "bad-content")

end Installing

section Running

variable (codec : JsonCodec) (machine : Machine) (w : World) (host : Str)

/-- `os.path.lexists(destination)`. -/
def World.present : Bool :=
  match w.file destName with
  | .absent => false
  | _ => true

def names (listed : List Str) : Str :=
  if listed = [] then "none" else joinWith ", ".toList listed

def having (values : List (Str × Option Value)) : List Str :=
  (values.filter fun entry => entry.2.isSome).map Prod.fst

def lacking (values : List (Str × Option Value)) : List Str :=
  (values.filter fun entry => entry.2.isNone).map Prod.fst

/-- The values in the order of the row. -/
def ordered (live typed : List (Str × Option Value)) : List (Str × Json) :=
  (inputs host).filterMap fun key =>
    (((live ++ typed).filter fun entry => entry.2.isSome).lookup key).join.map fun value =>
      (key, value.json)

/-- What has been shown, and the exit status or what is raised. -/
structure Ran where
  shown : List Shown
  ended : Except Fault Nat

def counted (what : String) (keys : List Str) : Shown :=
  .out (what.toList ++ " (".toList ++ decimal keys.length ++ "): ".toList ++ names keys)

/-- The lines of `run_fill` once the inputs are collected. -/
def report (live typed : List (Str × Option Value)) (problems : List Str) : List Shown :=
  [.out ("seed_host_inputs: ".toList ++ host), counted "filled from live" (having live),
      counted "typed" (having typed), counted "still missing" (lacking typed)] ++
    if problems = [] then []
    else [.out ("unusable live sources (treated as not found): ".toList ++
      joinWith "; ".toList problems)]

def runFill (replace : Bool) : Ran :=
  if !replace && w.present then
    ⟨[.out (destination ++ (" already exists; nothing read, nothing written. ".toList ++
      "Run again with --replace to replace it.".toList))], .ok 1⟩
  else
    let (live, problems) := liveValues w (inputs host) []
    let asked := askAll w (lacking live) w.answers
    match asked.ended with
    | .error fault => ⟨asked.shown, .error fault⟩
    | .ok (typed, _) =>
      let shown := asked.shown ++ report host live typed problems
      if lacking typed ≠ [] then
        ⟨shown ++ [.out "nothing written; supply the missing keys and run again.".toList], .ok 1⟩
      else
        match install codec machine (ordered host live typed) replace with
        | .error fault => ⟨shown, .error fault⟩
        | .ok _ =>
          ⟨shown ++ [.out ("written: ".toList ++ destination ++ " (root:root 0600, ".toList ++
            decimal (ordered host live typed).length ++ " keys)".toList)], .ok 0⟩

def sizeOf : Value → Str
  | .text value => decimal (utf8Encode value).length ++ " bytes".toList
  | .tenants entries => decimal entries.length ++ " entries".toList
  | .slots entries => decimal entries.length ++ " entries".toList

def runSet (key : Str) : Ran :=
  if key ∉ inputs host then ⟨[], .error (.seed "bad-key")⟩
  else
    match loadExisting codec w host with
    | .error fault => ⟨[], .error fault⟩
    | .ok document =>
      let asked := askFor w key w.answers
      match asked.ended with
      | .error fault => ⟨asked.shown, .error fault⟩
      | .ok (none, _) => ⟨asked.shown, .error (.seed "no-value")⟩
      | .ok (some value, _) =>
        match install codec machine (assign document key value.json) true with
        | .error fault => ⟨asked.shown, .error fault⟩
        | .ok _ =>
          ⟨asked.shown ++ [.out ("set ".toList ++ key ++ " (".toList ++ sizeOf value ++
            ") in ".toList ++ destination)], .ok 0⟩

def refuseUnlessReady : Except Fault Unit :=
  if hosts.lookup host = none then .error (.seed "unknown-host")
  else if machine.euid ≠ 0 then .error (.seed "not-root")
  else
    machine.ancestors.forM fun ancestor =>
      match ancestor with
      | .error name => .error (.error name)
      | .ok info =>
        if !info.isDir || info.uid ≠ 0 || info.mode &&& 0o022 ≠ 0 then .error (.seed "directory")
        else .ok ()

/-- The handlers of `main`. -/
def settle (ran : Ran) : List Shown × Nat :=
  match ran.ended with
  | .ok status => (ran.shown, status)
  | .error (.seed code) =>
    (ran.shown ++ [.err ("seed_host_inputs: ".toList ++ (messages.lookup code).getD code)], 1)
  | .error (.error name) =>
    (ran.shown ++ [.err ("seed_host_inputs: failed (".toList ++ name ++ [')'])], 1)
  | .error .notFound =>
    (ran.shown ++ [.err "seed_host_inputs: failed (FileNotFoundError)".toList], 1)
  | .error .interrupt => (ran.shown ++ [.err "seed_host_inputs: interrupted".toList], 130)
  | .error (.uncaught name) => (ran.shown ++ [.traceback name], 1)

/-- `main`, of the host and the mode that the arguments name, if they can be used. -/
def main (args : Option (Str × Mode)) : List Shown × Nat :=
  match args with
  | none =>
    ([.err "usage: seed_host_inputs.py [-h] --host HOST [--replace | --set KEY]".toList,
      .err "seed_host_inputs: unusable arguments (no value is ever an argument)".toList], 2)
  | some (host, mode) =>
    match refuseUnlessReady machine host with
    | .error fault => settle ⟨[], .error fault⟩
    | .ok _ =>
      match mode with
      | .fill replace => settle (runFill codec machine w host replace)
      | .set key => settle (runSet codec machine w host key)

end Running

end SharedInfra.HostInputs
