import SharedInfra.Python.Integers
import SharedInfra.Python.Json
import SharedInfra.Python.Utf8
import SharedInfra.TenantCompose.Isolation

/-!
# The judge of a compose file

`tenant_compose_check.py`: what PyYAML reads (`Doc`) is judged with the secrets file, the image
pin and the volume program's claims, and every rule broken is a refusal.  The text of a value that
is not one is the interpreter's (`str_`), the reader of YAML is PyYAML's.
-/

namespace SharedInfra.TenantCompose

open Python

/-- A scalar of YAML; `other` are those that no rule looks into, such as dates. -/
inductive Scalar where
  | null
  | bool (value : Bool)
  | number (value : ℚ)
  | other (text : Str)
  | text (value : Str)
deriving DecidableEq

/-- What `yaml.safe_load` builds. -/
inductive Doc where
  | scalar (value : Scalar)
  | list (items : List Doc)
  | mapping (fields : List (Scalar × Doc))

/-- `_strings` of a value that holds no other. -/
def Scalar.strings : Scalar → List Str
  | .text value => [value]
  | _ => []

namespace Doc

mutual

def strings : Doc → List Str
  | .scalar value => value.strings
  | .list items => stringsItems items
  | .mapping fields => stringsFields fields

def stringsItems : List Doc → List Str
  | [] => []
  | item :: items => strings item ++ stringsItems items

def stringsFields : List (Scalar × Doc) → List Str
  | [] => []
  | (key, value) :: fields =>
    key.strings ++ strings value ++ stringsFields fields

end

def none_ : Doc := .scalar .null

/-- `mapping.get(key)`, where there is one. -/
def get? (fields : List (Scalar × Doc)) (key : Str) : Option Doc := fields.lookup (.text key)

/-- `mapping.get(key)`. -/
def get (fields : List (Scalar × Doc)) (key : Str) : Doc := (get? fields key).getD none_

/-- `value == text`. -/
def isText (d : Doc) (text : Str) : Bool :=
  match d with
  | .scalar (.text value) => decide (value = text)
  | _ => false

/-- `value is True`. -/
def isTrue (d : Doc) : Bool :=
  match d with
  | .scalar (.bool true) => true
  | _ => false

/-- `value in (None, False)`; 0 is equal to `False`. -/
def isNoneOrFalse (d : Doc) : Bool :=
  match d with
  | .scalar .null => true
  | .scalar (.bool value) => !value
  | .scalar (.number value) => decide (value = 0)
  | _ => false

end Doc

/-- `[A-Za-z_]`. -/
def isNameStart (c : Char) : Bool := c.isAlpha || c == '_'

/-- `[A-Za-z0-9_]`. -/
def isNameChar (c : Char) : Bool := c.isAlphanum || c == '_'

/-- `\{?([A-Za-z_][A-Za-z0-9_]*)`, after a dollar. -/
def referenceAt (rest : Str) : Option Str :=
  let body := if rest.head? = some '{' then rest.drop 1 else rest
  if body.head?.any isNameStart then some (body.takeWhile isNameChar) else none

/-- `REFERENCE_PATTERN.findall(text)`, after a dollar or another character.  What a match takes
holds no further dollar, so no match is passed over. -/
def findReferences : Bool → Str → List Str
  | _, [] => []
  | afterDollar, c :: rest =>
    (if c = '$' ∧ afterDollar = false then (referenceAt rest).toList else []) ++
      findReferences (decide (c = '$')) rest

def referenceNames (document : Doc) : List Str :=
  (document.strings.flatMap (findReferences false)).dedup

section Rules

inductive Profile where
  | tenant
  | spool
deriving DecidableEq

structure Params where
  slug : Str
  composeText : Str
  profile : Profile
  uid : Option Int
  secretsEnvText : Str
  imageEnvText : Str
  claimsText : Option Str
  requireIsolation : Bool
  iptablesInputText : Option Str
  iptablesDockerUserText : Option Str

structure Verdict where
  refusals : List Str
  stamp : Str
  claimState : Str
  imageEnv : Str
deriving DecidableEq

/-- The exceptions: a YAML library that cannot be imported, a number too long for `int`, an image
that a set cannot hold. -/
inductive JudgeError where
  | yamlMissing
  | valueError
  | typeError
deriving DecidableEq

def imageVariable : Str := "${IMAGE}".toList

def spoolSlug : Str := "mail-spool".toList

def spoolPublishAddress : Str := "127.0.0.1".toList

def wildcardAddresses : List Str :=
  [[], "0.0.0.0".toList, "::".toList, "0:0:0:0:0:0:0:0".toList]

def topLevelKeys : List Str :=
  ["name".toList, "services".toList, "networks".toList, "volumes".toList]

def forbiddenServiceKeys : List Str :=
  ["build".toList, "extends".toList, "network_mode".toList, "cap_add".toList, "devices".toList]

def dockerSocket : Str := "docker.sock".toList

/-- `needle in text`. -/
def isIn (needle text : Str) : Bool := text.tails.any fun tail => startsWith tail needle

/-- `[0-9a-f]{64}`. -/
def isDigest (s : Str) : Bool := s.length == 64 && s.all fun c => c.isDigit || ('a' ≤ c && c ≤ 'f')

/-- `[^\s@$]`. -/
def isRepositoryChar (c : Char) : Bool := !isSpace c && c != '@' && c != '$'

/-- `DIGEST_REFERENCE`, of a whole text. -/
def isDigestReference (s : Str) : Bool :=
  let rest := s.dropWhile isRepositoryChar
  !(s.takeWhile isRepositoryChar).isEmpty && startsWith rest "@sha256:".toList &&
    isDigest (rest.drop 8)

/-- `text.lstrip(":")`. -/
def lstripColons (text : Str) : Str := text.dropWhile (· == ':')

def publishedAddress (entry : Doc) : Option Str :=
  match entry with
  | .mapping fields =>
    match Doc.get fields "host_ip".toList with
    | .scalar (.text address) => some address
    | _ => none
  | .scalar (.text entry) =>
    let text := entry.takeWhile (· != '/')
    if text.head? = some '[' then
      match text.dropWhile (· != ']') with
      | [] => none
      | _ :: rest =>
        if (splitOnChar ':' (lstripColons rest)).length ≠ 2 then none
        else some ((text.takeWhile (· != ']')).drop 1)
    else match splitOnChar ':' text with
      | [host, _, _] => some host
      | _ => none
  | _ => none

variable (str_ : Scalar → Str)

/-- `str(key)`; a text is its own. -/
def keyText : Scalar → Str
  | .text value => value
  | key => str_ key

def portRefusals (name : Str) (profile : Profile) (entry : Doc) : List Str :=
  match publishedAddress entry with
  | none => ["service ".toList ++ name ++ " publishes a port without binding one address".toList]
  | some address =>
    if address ∈ wildcardAddresses then
      ["service ".toList ++ name ++ " publishes a port without binding one address".toList]
    else if profile = .spool ∧ address ≠ spoolPublishAddress then
      ["service ".toList ++ name ++ " publishes a port on ".toList ++ address ++ ", not ".toList ++
        spoolPublishAddress]
    else []

/-- The rule that a service's image breaks. -/
def imageRefusals (name : Str) (profile : Profile) (image : Doc) : List Str :=
  match profile with
  | .tenant =>
    if image.isText imageVariable then []
    else ["service ".toList ++ name ++ " image is not exactly ".toList ++ imageVariable]
  | .spool =>
    match image with
    | .scalar (.text text) =>
      if isDigestReference text then []
      else ["service ".toList ++ name ++ " image is not pinned inline by digest".toList]
    | _ => ["service ".toList ++ name ++ " image is not pinned inline by digest".toList]

def serviceRefusals (name : Str) (service : Doc) (profile : Profile) : List Str :=
  match service with
  | .mapping fields =>
    (forbiddenServiceKeys.filter fun key => (Doc.get? fields key).isSome).map (fun key =>
      "service ".toList ++ name ++ " sets ".toList ++ key) ++
    (if (Doc.get fields "privileged".toList).isNoneOrFalse then []
      else ["service ".toList ++ name ++ " is privileged".toList]) ++
    imageRefusals name profile (Doc.get fields "image".toList) ++
    (match (Doc.get? fields "volumes".toList).getD (.list []) with
      | .list volumes =>
        if (Doc.stringsItems volumes).any (isIn dockerSocket) then
          ["service ".toList ++ name ++ " mounts the Docker socket".toList]
        else []
      | _ => []) ++
    match (Doc.get? fields "ports".toList).getD (.list []) with
    | .list ports => ports.flatMap (portRefusals name profile)
    | _ => ["service ".toList ++ name ++ " ports is not a list".toList]
  | _ => ["service ".toList ++ name ++ " is not a mapping".toList]

def isDrainBridge (body : List (Scalar × Doc)) : Bool :=
  (Doc.get body "driver".toList).isText "bridge".toList &&
    match Doc.get body "driver_opts".toList with
    | .mapping options =>
      (Doc.get options "com.docker.network.bridge.name".toList).isText spoolBridge
    | _ => false

/-- The rules that one network breaks. -/
def networkRefusal (profile : Profile) (name : Str) (body : Doc) : List Str :=
  match body with
  | .mapping fields =>
    match profile with
    | .tenant =>
      if (Doc.get fields "external".toList).isTrue then []
      else ["network ".toList ++ name ++ " is not external".toList]
    | .spool =>
      if !(Doc.get fields "external".toList).isNoneOrFalse then
        ["network ".toList ++ name ++ " is external".toList]
      else if !(Doc.get fields "internal".toList).isTrue && !isDrainBridge fields then
        ["network ".toList ++ name ++ " is neither internal nor the drain bridge ".toList ++
          spoolBridge]
      else []
  | _ => ["network ".toList ++ name ++ " has no body".toList]

def networkRefusals (networks : Doc) (profile : Profile) : List Str :=
  match networks with
  | .scalar .null => []
  | .mapping fields => fields.flatMap fun field => networkRefusal profile (keyText str_ field.1) field.2
  | _ => ["networks is not a mapping".toList]

def volumeRefusals (volumes : Doc) : List Str :=
  match volumes with
  | .scalar .null => []
  | .mapping fields => fields.flatMap fun field =>
    match field.2 with
    | .mapping body =>
      if (Doc.get body "external".toList).isTrue then []
      else ["volume ".toList ++ keyText str_ field.1 ++ " is not external".toList]
    | _ => ["volume ".toList ++ keyText str_ field.1 ++ " is not external".toList]
  | _ => ["volumes is not a mapping".toList]

/-- The ports of the services that are mappings with a list of them. -/
def portEntries (services : List (Scalar × Doc)) : List Doc :=
  services.flatMap fun service =>
    match service.2 with
    | .mapping fields =>
      match Doc.get fields "ports".toList with
      | .list ports => ports
      | _ => []
    | _ => []

def spoolRefusals (document : Doc) (services : List (Scalar × Doc)) : List Str :=
  (if services.length ≠ 1 then ["the spool has more or fewer than one service".toList] else []) ++
  (if (portEntries services).length ≠ 1 then
    ["the spool does not publish exactly one port".toList] else []) ++
  (sorted ((referenceNames document).filter (· ≠ "SHIM_DRAIN_TOKEN".toList))).map fun name =>
    "the spool refers to ".toList ++ name ++ ", which the role does not supply".toList

def composeRefusals (params : Params) (document : Doc) : List Str :=
  match document with
  | .mapping fields =>
    let refusals :=
      (fields.filterMap fun field =>
        if field.1 ∈ topLevelKeys.map Scalar.text then none
        else some ("compose has the top-level key ".toList ++ keyText str_ field.1)) ++
      if (Doc.get fields "name".toList).isText params.slug then []
        else ["compose name is not the stack's slug".toList]
    match Doc.get fields "services".toList with
    | .mapping [] => refusals ++ ["compose has no services".toList]
    | .mapping services =>
      refusals ++
      services.flatMap (fun service => serviceRefusals (keyText str_ service.1) service.2 params.profile) ++
      networkRefusals str_ (Doc.get fields "networks".toList) params.profile ++
      volumeRefusals str_ (Doc.get fields "volumes".toList) ++
      if params.profile = .spool then spoolRefusals document services else []
    | _ => refusals ++ ["compose has no services".toList]
  | _ => ["compose text is not a mapping".toList]

end Rules

/-- `ord(char) < 0x20 or ord(char) == 0x7F`. -/
def isControl (c : Char) : Bool := c.toNat < 32 || c.toNat == 127

/-- `[A-Z][A-Z0-9_]*`. -/
def isSecretName (key : Str) : Bool :=
  key.head?.any Char.isUpper && key.all fun c => c.isUpper || c.isDigit || c == '_'

/-- `SECRET_LINE_PATTERN.fullmatch(line)`: the key and the value. -/
def secretPair (line : Str) : Option (Str × Str) :=
  match line.dropWhile (· != '=') with
  | [] => none
  | _ :: value =>
    if isSecretName (line.takeWhile (· != '=')) then some (line.takeWhile (· != '='), value)
    else none

def ghostPrefix : Str := "GHOST_".toList

/-- `SECRET_KEY_PATTERN.fullmatch(key)`. -/
def isGhostKey (key : Str) : Bool :=
  startsWith key ghostPrefix && !(key.drop 6).isEmpty &&
    (key.drop 6).all fun c => c.isUpper || c.isDigit || c == '_'

/-- One line of a secrets file: the pairs and the refusals so far, and the line's number. -/
def readSecret (number : Nat) (line : Str) (read : List (Str × Str) × List Str) :
    List (Str × Str) × List Str :=
  let (pairs, refusals) := read
  if line.any isControl then
    (pairs, refusals ++ ["secrets line ".toList ++ decimal number ++
      " holds a control character".toList])
  else if line = [] ∨ line.head? = some '#' then (pairs, refusals)
  else match secretPair line with
    | none => (pairs, refusals ++ ["secrets line ".toList ++ decimal number ++
        " is not KEY=value".toList])
    | some (key, value) =>
      if !isGhostKey key then
        (pairs, refusals ++ ["secrets key ".toList ++ key ++
          " does not start with GHOST_".toList])
      else if (pairs.lookup key).isSome then
        (pairs, refusals ++ ["secrets key ".toList ++ key ++ " is given twice".toList])
      else (pairs ++ [(key, value)], refusals)

/-- The loop of `parse_secrets`, from a line number on. -/
def readSecrets : Nat → List Str → List (Str × Str) × List Str → List (Str × Str) × List Str
  | _, [], read => read
  | number, line :: lines, read => readSecrets (number + 1) lines (readSecret number line read)

def parseSecrets (text : Str) : List (Str × Str) × List Str :=
  readSecrets 1 (splitOnChar '\n' text) ([], [])

def secretRefusals (references : List Str) (text : Str) : List Str :=
  let (pairs, refusals) := parseSecrets text
  let wanted := sorted (references.filter fun name => startsWith name ghostPrefix)
  refusals ++
  (wanted.filter fun name => (pairs.lookup name).isNone).map (fun name =>
    "secrets file has no key ".toList ++ name) ++
  (wanted.filter fun name => pairs.lookup name = some []).map fun name =>
    "secrets key ".toList ++ name ++ " is empty".toList

/-- `_tenant_refusals`; a document that is no YAML is `None`. -/
def tenantRefusals (params : Params) (document : Doc) : List Str :=
  let references := referenceNames document
  let unknown := sorted (references.filter fun name =>
    decide (name ≠ "IMAGE".toList) && !startsWith name ghostPrefix)
  unknown.map (fun name => "compose refers to ".toList ++ name ++
    ", which no file supplies".toList) ++
  secretRefusals references params.secretsEnvText

section Judging

def imageEnvRefusals (text : Str) : Str × List Str :=
  match (splitOnChar '\n' text).filter (· ≠ []) with
  | [line] =>
    if startsWith line "IMAGE=".toList && isDigestReference (line.drop 6) then
      (line ++ ['\n'], [])
    else ([], ["image pin is not exactly one IMAGE=<name>@sha256:<64 hex digits> line".toList])
  | _ => ([], ["image pin is not exactly one IMAGE=<name>@sha256:<64 hex digits> line".toList])

/-- The images of the services that are mappings, where each can stand in a set. -/
def serviceImages : List (Scalar × Doc) → Except JudgeError (List Scalar)
  | [] => .ok []
  | (_, .mapping fields) :: services =>
    match Doc.get fields "image".toList with
    | .scalar image => (serviceImages services).map (image :: ·)
    | _ => .error .typeError
  | _ :: services => serviceImages services

def derivedImageEnv (document : Doc) : Except JudgeError Str :=
  match document with
  | .mapping fields =>
    match Doc.get fields "services".toList with
    | .mapping services =>
      (serviceImages services).map fun images =>
        match images.dedup with
        | [.text only] =>
          if isDigestReference only then "IMAGE=".toList ++ only ++ ['\n'] else []
        | _ => []
    | _ => .ok []
  | _ => .ok []

/-- `CLAIM_LINE_PATTERN.fullmatch(line)`. -/
def claimPair (line : Str) : Option (Str × Str) :=
  let name := line.takeWhile (· != '=')
  match line.dropWhile (· != '=') with
  | [] => none
  | _ :: number =>
    if name.head?.any Char.isLower && (name.all fun c => c.isLower || c.isDigit || c == '-') &&
        !number.isEmpty && number.all Char.isDigit then some (name, number)
    else none

/-- The claims of the lines that are not empty; `none` is a line that is not `slug=uid`. -/
def readClaims : List Str → List (Str × Nat) → Except JudgeError (Option (List (Str × Nat)))
  | [], claims => .ok (some claims)
  | line :: lines, claims =>
    if line = [] then readClaims lines claims
    else match claimPair line with
      | none => .ok none
      | some (name, number) =>
        match intOfDigits number with
        | none => .error .valueError
        | some uid => readClaims lines ((name, uid) :: claims.filter (·.1 ≠ name))

def claimState (params : Params) : Except JudgeError (Str × List Str) :=
  match params.claimsText, params.profile with
  | some claimsText, .tenant =>
    (readClaims (splitOnChar '\n' claimsText) []).map fun
      | none => ("conflict".toList,
          ["the volume program's claim list has a line that is not slug=uid".toList])
      | some claims =>
        match sorted ((claims.filter fun claim =>
            decide (some (claim.2 : Int) = params.uid) && decide (claim.1 ≠ params.slug)).map
              Prod.fst) with
        | holder :: _ => ("conflict".toList, ["uid ".toList ++
            (params.uid.map intText).getD "None".toList ++
            " is already claimed by ".toList ++ holder])
        | [] =>
          match claims.lookup params.slug with
          | none => ("unclaimed".toList, [])
          | some held =>
            if some (held : Int) ≠ params.uid then
              ("conflict".toList, [params.slug ++ " already holds uid ".toList ++
                decimal held ++ ", not ".toList ++
                (params.uid.map intText).getD "None".toList])
            else ("same".toList, [])
  | _, _ => .ok ("unchecked".toList, [])

/-- `SLUG_PATTERN.fullmatch(slug)`. -/
def isSlug (slug : Str) : Bool :=
  slug.head?.any Char.isLower && (slug.all fun c => c.isLower || c.isDigit || c == '-') &&
    slug.getLast?.any fun c => c.isLower || c.isDigit

def slugRefusals (params : Params) : List Str :=
  (if !isSlug params.slug || 26 < params.slug.length then
    ["slug is not lower-case letters, digits and hyphens, at most 26 characters".toList] else []) ++
  match params.profile with
  | .tenant =>
    (if params.slug = spoolSlug then
      ["slug ".toList ++ spoolSlug ++ " belongs to the mail spool".toList] else []) ++
    if params.uid.any fun uid => 30000 ≤ uid && uid ≤ 30999 then []
      else ["uid is not in 30000-30999".toList]
  | .spool =>
    if params.slug ≠ spoolSlug then ["the spool's slug is ".toList ++ spoolSlug] else []

variable (sha256 : Bytes → Str) (loadYaml : Option (Str → Option Doc)) (str_ : Scalar → Str)

/-- The text that is hashed. -/
def stampText (params : Params) : Str :=
  "\x7b\"compose\": ".toList ++ jsonString params.composeText ++ ", \"secrets\": ".toList ++
    jsonString params.secretsEnvText ++ ['}']

/-- The pin and the rules of the profile. -/
def profileVerdict (params : Params) (document : Doc) : Except JudgeError (Str × List Str) :=
  match params.profile with
  | .tenant =>
    let (imageEnv, imageRefusals) := imageEnvRefusals params.imageEnvText
    .ok (imageEnv, tenantRefusals params document ++ imageRefusals)
  | .spool =>
    (derivedImageEnv document).map fun imageEnv => (imageEnv,
      (if params.secretsEnvText ≠ [] then ["the spool takes no secrets file".toList] else []) ++
      if params.requireIsolation then
        isolationRefusals params.iptablesInputText params.iptablesDockerUserText
      else [])

/-- What is wrong with the document, whatever the profile. -/
def documentRefusals (params : Params) (document : Option Doc) : List Str :=
  slugRefusals params ++
    match document with
    | none => ["compose text is not valid YAML".toList]
    | some document => composeRefusals str_ params document

/-- The verdict, with what the profile and the claims add. -/
def verdictOf (params : Params) (document : Option Doc) (found claim : Str × List Str) : Verdict :=
  let refusals := documentRefusals str_ params document ++ found.2 ++ claim.2
  { refusals := refusals.map fun refusal => params.slug ++ ": ".toList ++ refusal
    stamp := sha256 (utf8Encode (stampText params))
    claimState := claim.1
    imageEnv := if refusals = [] then found.1 else [] }

def judge (params : Params) : Except JudgeError Verdict :=
  match loadYaml with
  | none => .error .yamlMissing
  | some load => do
    let document := load params.composeText
    let found ← profileVerdict params (document.getD Doc.none_)
    let claim ← claimState params
    pure (verdictOf sha256 str_ params document found claim)

end Judging

section Runs

variable {sha256 : Bytes → Str} {str_ : Scalar → Str} {p : Params} {v : Verdict}

theorem judge_ok (load : Str → Option Doc) (h : judge sha256 (some load) str_ p = .ok v) :
    ∃ found claim, profileVerdict p ((load p.composeText).getD Doc.none_) = .ok found ∧
      claimState p = .ok claim ∧ v = verdictOf sha256 str_ p (load p.composeText) found claim := by
  simp only [judge, bind, Except.bind] at h
  cases hfound : profileVerdict p ((load p.composeText).getD Doc.none_) with
  | error e =>
    rw [hfound] at h
    cases h
  | ok found =>
    rw [hfound] at h
    cases hclaim : claimState p with
    | error e =>
      rw [hclaim] at h
      cases h
    | ok claim =>
      rw [hclaim] at h
      exact ⟨found, claim, rfl, rfl, (Except.ok.inj h).symm⟩

end Runs

end SharedInfra.TenantCompose
