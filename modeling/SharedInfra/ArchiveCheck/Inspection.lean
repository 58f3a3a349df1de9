import SharedInfra.Python.Utf8

/-!
# Reading a stack export archive

`count_key`, `names_from_urn` and `inspect_archive` of `verify-archive-passphrase.py`.
A string of a JSON document may hold lone surrogates (`PyChar`), which a `\u` escape
gives and no encoding takes.  An exception that is no `ArchiveError` is `Raised`.
-/

namespace SharedInfra.ArchiveCheck

open Python

/-- A character of a Python string. -/
inductive PyChar where
  | char (c : Char)
  | surrogate (n : Fin 2048)
deriving DecidableEq

abbrev PyStr := List PyChar

def text (s : Str) : PyStr := s.map .char

/-- `s.encode("utf-8")`, as the text it encodes; `none` is a `UnicodeEncodeError`. -/
def plainText (s : PyStr) : Option Str :=
  s.mapM fun
    | .char c => some c
    | .surrogate _ => none

/-- What `json.loads` returns; a number keeps its text, and whether it is zero. -/
inductive Value where
  | null
  | bool (value : Bool)
  | number (text : Str) (zero : Bool)
  | string (s : PyStr)
  | array (items : List Value)
  | object (members : List (PyStr × Value))

/-- `obj.get(name)`. -/
def getMember (members : List (PyStr × Value)) (name : Str) : Option Value :=
  members.lookup (text name)

/-- `bool(value)`. -/
def Value.truthy : Value → Bool
  | .null => false
  | .bool value => value
  | .number _ zero => !zero
  | .string s => !s.isEmpty
  | .array items => !items.isEmpty
  | .object members => !members.isEmpty

mutual

def countKey (name : PyStr) : Value → Nat
  | .object members => countKeyMembers name members
  | .array items => countKeyItems name items
  | _ => 0

def countKeyMembers (name : PyStr) : List (PyStr × Value) → Nat
  | [] => 0
  | (key, value) :: members =>
    (if key = name then 1 else 0) + countKey name value + countKeyMembers name members

def countKeyItems (name : PyStr) : List Value → Nat
  | [] => 0
  | item :: items => countKey name item + countKeyItems name items

end

mutual

/-- How many containers lie in one another. -/
def depth : Value → Nat
  | .object members => depthMembers members + 1
  | .array items => depthItems items + 1
  | _ => 0

def depthMembers : List (PyStr × Value) → Nat
  | [] => 0
  | (_, value) :: members => max (depth value) (depthMembers members)

def depthItems : List Value → Nat
  | [] => 0
  | item :: items => max (depth item) (depthItems items)

end

/-- The exceptions that are no `ArchiveError`. -/
inductive Raised where
  | unicodeDecodeError
  | unicodeEncodeError
  | valueError
  | recursionError
  | attributeError
  | osError
deriving DecidableEq

/-- What `json.loads` comes to. -/
inductive Loaded where
  | value (v : Value)
  | decodeError
  | raised (what : Raised)

/-- The interpreter a run has: its JSON reader, and how deep a value may be for `count_key`
and for `str`. -/
structure Interpreter where
  loads : Str → Loaded
  countLimit : Nat
  textLimit : Nat

/-- The details of an outcome. -/
inductive Detail where
  | cannotRead
  | notJson
  | notAnExport
  | noProviders
  | otherProvider (kind : Value)
  | noSalt
  | unwrapped (count : Nat)
  | noCiphertext
  | preflight (text : Str)
  | saltMismatch
  | initFailed
  | notDecrypted
  | notAuthenticated
  | notDeserialised
  | importFailed
  | opens (resources ciphertext : Nat)

inductive Refusal where
  | archiveError (detail : Detail)
  | raised (what : Raised)

def urnPrefix : Str := "urn:pulumi:"

def fallbackProject : Str := "archive-verify"

def fallbackStack : Str := "verify"

def isNameHead : PyChar → Bool
  | .char c => c.isAlpha || c.isDigit || c == '_'
  | .surrogate _ => false

def isNameChar : PyChar → Bool
  | .char c => c.isAlpha || c.isDigit || c == '_' || c == '.' || c == '-'
  | .surrogate _ => false

/-- `PULUMI_NAME.match`; the `$` of the pattern allows one newline at the end. -/
def isPulumiName (name : PyStr) : Bool :=
  let name := if name.getLast? = some (.char '\n') then name.dropLast else name
  match name with
  | [] => false
  | c :: rest => isNameHead c && rest.all isNameChar && rest.length ≤ 99

/-- `urn.split("::")`. -/
def splitColons : PyStr → List PyStr
  | [] => [[]]
  | .char ':' :: .char ':' :: rest => [] :: splitColons rest
  | c :: rest =>
    match splitColons rest with
    | [] => [[c]]
    | part :: parts => (c :: part) :: parts

def namesFromUrn : Option Value → PyStr × PyStr
  | some (.string urn) =>
    if (text urnPrefix).isPrefixOf urn then
      match splitColons urn with
      | first :: project :: _ =>
        let stack := first.drop urnPrefix.length
        if isPulumiName stack && isPulumiName project then (project, stack)
        else (text fallbackProject, text fallbackStack)
      | _ => (text fallbackProject, text fallbackStack)
    else (text fallbackProject, text fallbackStack)
  | _ => (text fallbackProject, text fallbackStack)

section Inspect

structure Info where
  salt : PyStr
  resources : Nat
  ciphertext : Nat
  project : PyStr
  stack : PyStr

variable (interpreter : Interpreter)

/-- `count_key` within the recursion limit. -/
def countChecked (name : Str) (v : Value) : Except Refusal Nat :=
  if depth v ≤ interpreter.countLimit then .ok (countKey (text name) v)
  else .error (.raised .recursionError)

/-- `value.get(name)`. -/
def Value.get (name : Str) : Value → Except Refusal (Option Value)
  | .object members => .ok (getMember members name)
  | _ => .error (.raised .attributeError)

/-- `(providers.get("state") or {}).get("salt")`. -/
def saltOf (state : Option Value) : Except Refusal (Option Value) :=
  match state with
  | none => .ok none
  | some state => if state.truthy then state.get "salt" else .ok none

/-- The message that names another provider is a text of its kind. -/
def refuseProvider (kind : Value) : Refusal :=
  if depth kind ≤ interpreter.textLimit then .archiveError (.otherProvider kind)
  else .raised .recursionError

/-- How many resources there are, and the `urn` of the first one. -/
def resourcesOf (deployment : List (PyStr × Value)) : Nat × Option Value :=
  match getMember deployment "resources" with
  | some (.array items) =>
    match items with
    | .object first :: _ => (items.length, getMember first "urn")
    | _ => (items.length, none)
  | _ => (0, none)

/-- `inspect_archive` from the salt on. -/
def inspectSalted (deployment : List (PyStr × Value)) (salt : PyStr) : Except Refusal Info := do
  let plaintext ← countChecked interpreter "plaintext" (.object deployment)
  if plaintext ≠ 0 then .error (.archiveError (.unwrapped plaintext))
  else do
    let ciphertext ← countChecked interpreter "ciphertext" (.object deployment)
    let names := namesFromUrn (resourcesOf deployment).2
    return ⟨salt, (resourcesOf deployment).1, ciphertext, names.1, names.2⟩

def inspectSalt (deployment : List (PyStr × Value)) : Option Value → Except Refusal Info
  | some (.string salt) =>
    if salt = [] then .error (.archiveError .noSalt)
    else inspectSalted interpreter deployment salt
  | _ => .error (.archiveError .noSalt)

/-- `inspect_archive` from a provider block of the right kind on. -/
def inspectWrapped (deployment providers : List (PyStr × Value)) : Except Refusal Info := do
  let salt ← saltOf (getMember providers "state")
  inspectSalt interpreter deployment salt

/-- `inspect_archive` from a provider block on. -/
def inspectProviders (deployment providers : List (PyStr × Value)) : Except Refusal Info :=
  match getMember providers "type" with
  | some (.string kind) =>
    if kind = text "passphrase" then inspectWrapped interpreter deployment providers
    else .error (refuseProvider interpreter (.string kind))
  | kind => .error (refuseProvider interpreter (kind.getD .null))

/-- `inspect_archive` from the document on. -/
def inspectDocument (document : Value) : Except Refusal Info :=
  match document with
  | .object archive =>
    match getMember archive "deployment" with
    | some (.object deployment) =>
      match getMember deployment "secrets_providers" with
      | some (.object providers) => inspectProviders interpreter deployment providers
      | _ => .error (.archiveError .noProviders)
    | _ => .error (.archiveError .notAnExport)
  | _ => .error (.archiveError .notAnExport)

/-- `inspect_archive`; a file is `none` where reading it is an `OSError`. -/
def inspectArchive (file : Option Bytes) : Except Refusal Info :=
  match file with
  | none => .error (.archiveError .cannotRead)
  | some bytes =>
    match utf8Decode bytes with
    | none => .error (.raised .unicodeDecodeError)
    | some content =>
      match interpreter.loads (universalNewlines content) with
      | .value document => inspectDocument interpreter document
      | .decodeError => .error (.archiveError .notJson)
      | .raised what => .error (.raised what)

end Inspect

end SharedInfra.ArchiveCheck
