import SharedInfra.Python.Integers
import SharedInfra.Python.IpText
import SharedInfra.Sequences.LengthPrefixed
import SharedInfra.Python.Splitting

/-!
# What the jump role is given

The inputs of `ci_jump_authorized_keys.py` and what it makes of them: the checks
on the destinations (`checkDestinations`) and on the public keys (`checkKeys`),
and the key lines and the drop-in written of what they let through.

An option can hold any object; of one that is neither text nor a list only that
much is seen.  `Failure.valueError` is the `ValueError` of `int`, which no check
catches.
-/

namespace SharedInfra.CiJump

open Python Sequences

/-- An object an option can hold. -/
inductive Object (ω : Type) where
  | text (s : Str)
  | list (items : List (Object ω))
  | other (value : ω)

/-- `RefusalError`. -/
structure Refusal where
  code : Str
  words : Str
deriving DecidableEq

/-- What a check raises. -/
inductive Failure where
  | refusal (r : Refusal)
  | valueError
deriving DecidableEq

/-- `raise RefusalError(code, words)`. -/
def refuse {α : Type} (code words : Str) : Except Failure α := .error (.refusal ⟨code, words⟩)

/-- `PINNED_PORT`, as it is printed. -/
def pinnedPort : Str := "22".toList

def pinnedFixedOptions : List Str := ["restrict".toList, "port-forwarding".toList]

def pinnedCommand : Str := "/usr/sbin/nologin".toList

def keyFile : Str := "/etc/ssh/authorized_keys.d/branchleft-jump".toList

/-- `KEY_FIELDS`: the length of each field after the type, `none` for any length. -/
def keyFields : List (Str × List (Option Nat)) :=
  [("ssh-ed25519".toList, [some 32]),
    ("ssh-rsa".toList, [none, none]),
    ("ecdsa-sha2-nistp256".toList, [none, none]),
    ("ecdsa-sha2-nistp384".toList, [none, none]),
    ("ecdsa-sha2-nistp521".toList, [none, none]),
    ("sk-ssh-ed25519@openssh.com".toList, [some 32, none]),
    ("sk-ecdsa-sha2-nistp256@openssh.com".toList, [none, none, none])]

section Destinations

variable {ω : Type}

def isLabelChar (c : Char) : Bool := c.isAlphanum || c == '-'

/-- `HOST_LABEL.fullmatch`. -/
def isHostLabel : Str → Bool
  | [] => false
  | c :: cs =>
    c.isAlphanum && (cs.isEmpty || (cs.dropLast.all isLabelChar &&
      decide (cs.dropLast.length ≤ 61) && cs.getLast?.any Char.isAlphanum))

/-- `any(len(label) > 3 or int(label) > 255 for label in labels)`, with what `int` raises. -/
def anyTooLarge : List Str → Except Failure Bool
  | [] => pure false
  | label :: labels =>
    if label.length > 3 then pure true
    else match intOfDigits label with
      | none => throw .valueError
      | some n => if n > 255 then pure true else anyTooLarge labels

def destinationShape (t : CharTables) (entry : Str) (number : Nat) : Except Failure Unit := do
  let place := "destination ".toList ++ decimal number
  if '"' ∈ entry ∨ '\'' ∈ entry ∨ '\\' ∈ entry then
    refuse "E-DEST-QUOTE".toList (place ++ " holds a quote".toList)
  if '*' ∈ entry ∨ '?' ∈ entry then
    refuse "E-DEST-WILDCARD".toList (place ++ " holds a wildcard".toList)
  if ',' ∈ entry then
    refuse "E-DEST-COMMA".toList (place ++ " holds a comma".toList)
  if !entry.all t.isPrintable || entry.any isSpace then
    refuse "E-DEST-SPACE".toList (place ++ " holds a space or a control character".toList)
  if '[' ∈ entry ∨ ']' ∈ entry ∨ entry.count ':' > 1 then
    refuse "E-DEST-IPV6".toList (place ++ " is an IPv6 form, which the role does not take".toList)
  if ':' ∈ entry then
    refuse "E-DEST-PORT".toList
      (place ++ " holds a port; the role's own port is the only one".toList)
  let labels := splitOnChar '.' entry
  let notHost := refuse "E-DEST-SHAPE".toList
    (place ++ " is not an IPv4 address or a host name".toList)
  if labels.all isDigits then
    if labels.length ≠ 4 then notHost
    else if ← anyTooLarge labels then notHost
  else if entry.length > 253 ∨ ¬labels.all isHostLabel then notHost

/-- The loop of `check_destinations`; `found` holds the entries let through so far. -/
def scanDestinations (t : CharTables) : Nat → List Str → List (Object ω) → Except Failure (List Str)
  | _, found, [] => pure found
  | number, found, .text entry :: rest => do
    destinationShape t entry number
    if t.lower entry ∈ found.map t.lower then
      refuse "E-DEST-DUPLICATE".toList
        ("destination ".toList ++ decimal number ++ " repeats an earlier one".toList)
    scanDestinations t (number + 1) (found ++ [entry]) rest
  | number, _, _ :: _ =>
    refuse "E-DEST-TYPE".toList ("destination ".toList ++ decimal number ++ " is not text".toList)

def checkDestinations (t : CharTables) : Object ω → Except Failure (List Str)
  | .list (entry :: rest) => scanDestinations t 1 [] (entry :: rest)
  | _ =>
    refuse "E-DEST-EMPTY".toList
      "the destination list is empty and is never read as allow-all".toList

/-- `[A-Za-z0-9+/]`. -/
def isBase64Char (c : Char) : Bool := c.isAlphanum || c == '+' || c == '/'

/-- `BASE64_BODY.fullmatch`. -/
def isBase64Body (s : Str) : Bool :=
  let padding := s.dropWhile isBase64Char
  !(s.takeWhile isBase64Char).isEmpty && padding.all (· == '=') && padding.length ≤ 2

/-- `s.encode("ascii")`. -/
def asciiBytes (s : Str) : Bytes := s.map fun c => UInt8.ofNat c.toNat

/-- What `_key_parts` asks of the fields after the type. -/
def fieldsFit : List Bytes → List (Option Nat) → Bool
  | [], [] => true
  | piece :: pieces, size :: sizes =>
    !piece.isEmpty && (size.all fun n => piece.length == n) && fieldsFit pieces sizes
  | _, _ => false

/-- `"ecdsa-sha2-"`, before the name of the curve in a key type. -/
def ecdsaPrefix : Str := "ecdsa-sha2-".toList

def piecesFit (keyType : Str) (expected : List (Option Nat)) : List Bytes → Bool
  | [] => false
  | named :: fields =>
    decide (named = asciiBytes keyType) && fieldsFit fields expected &&
      (!startsWith keyType ecdsaPrefix ||
        decide (fields.head? = some (asciiBytes (keyType.drop ecdsaPrefix.length))))

def keyParts (key : Str) : Option (Str × Str) :=
  if !isAscii key || !key.all isPrintableAscii then none
  else match splitOnChar ' ' key with
    | keyType :: body :: _ => do
      let expected ← keyFields.lookup keyType
      if !isBase64Body body then none
      else
        let raw ← b64decode (asciiBytes body)
        let pieces ← readFields raw.length raw
        if piecesFit keyType expected pieces then some (keyType, body) else none
    | _ => none

/-- The loop of `check_keys`. -/
def scanKeys : Nat → List (Str × Str) → List (Object ω) → Except Failure (List (Str × Str))
  | _, found, [] => pure found
  | number, found, .text entry :: rest =>
    match keyParts entry with
    | none =>
      refuse "E-KEY-SHAPE".toList
        ("key ".toList ++ decimal number ++ " is not one public key of a known type".toList)
    | some parts =>
      if parts ∈ found then
        refuse "E-KEY-DUPLICATE".toList
          ("key ".toList ++ decimal number ++ " repeats an earlier one".toList)
      else scanKeys (number + 1) (found ++ [parts]) rest
  | number, _, _ :: _ =>
    refuse "E-KEY-TYPE".toList ("key ".toList ++ decimal number ++ " is not text".toList)

def checkKeys : Object ω → Except Failure (List (Str × Str))
  | .list (entry :: rest) => scanKeys 1 [] (entry :: rest)
  | _ => refuse "E-KEY-EMPTY".toList "the key list is empty and is never read as remove-all".toList

end Destinations

/-- `f"{item}:{PINNED_PORT}"`. -/
def permitted (item : Str) : Str := item ++ ':' :: pinnedPort

/-- `f'permitopen="{item}:{PINNED_PORT}"'`. -/
def permitOpenOption (item : Str) : Str := "permitopen=\"".toList ++ permitted item ++ ['"']

/-- `f'command="{PINNED_COMMAND}"'`. -/
def commandOption : Str := "command=\"".toList ++ pinnedCommand ++ ['"']

def wantedOptions (destinations : List Str) : Str :=
  joinWith [','] (pinnedFixedOptions ++ destinations.map permitOpenOption ++ [commandOption])

def wantedLines (destinations : List Str) (keys : List (Str × Str)) : List Str :=
  keys.map fun key => wantedOptions destinations ++ ' ' :: key.1 ++ ' ' :: key.2

/-!
# Reading key lines

The reader of `ci_jump_authorized_keys.py`: where the options of a line end
(`optionTokenEnd`), how they are split (`splitOptions`), and the key lines of a
file (`parseFile`).
-/

structure KeyLine where
  optionsText : Str
  options : List (Str × Option Str)
  keyType : Str
  body : Str
  text : Str
deriving DecidableEq

/-- The loop of `_split_options`; `current` holds the characters of the part so far. -/
def splitOptionsFrom : Bool → Bool → Str → Str → List Str
  | _, _, current, [] => [current]
  | inQuote, true, current, c :: rest => splitOptionsFrom inQuote false (current ++ [c]) rest
  | inQuote, false, current, c :: rest =>
    if c = '\\' ∧ inQuote then splitOptionsFrom inQuote true (current ++ [c]) rest
    else if c = '"' then splitOptionsFrom (!inQuote) false (current ++ [c]) rest
    else if c = ',' ∧ ¬inQuote then current :: splitOptionsFrom inQuote false [] rest
    else splitOptionsFrom inQuote false (current ++ [c]) rest

def splitOptions (text : Str) : List Str := splitOptionsFrom false false [] text

/-- The loop of `_option_token_end`: how many characters there are before the end. -/
def tokenEndFrom : Bool → Bool → Str → Nat
  | _, _, [] => 0
  | inQuote, true, _ :: rest => tokenEndFrom inQuote false rest + 1
  | inQuote, false, c :: rest =>
    if c = '\\' ∧ inQuote then tokenEndFrom inQuote true rest + 1
    else if c = '"' then tokenEndFrom (!inQuote) false rest + 1
    else if (c = ' ' ∨ c = '\t') ∧ ¬inQuote then 0
    else tokenEndFrom inQuote false rest + 1

def optionTokenEnd (line : Str) : Nat := tokenEndFrom false false line

/-- `value[1:-1] if value.startswith('"') and value.endswith('"') else value`. -/
def unquoted (value : Str) : Str :=
  if startsWith value ['"'] && endsWith value ['"'] then (value.drop 1).dropLast else value

/-- One option of a line; `none` where it has no name. -/
def readOption (t : CharTables) (part : Str) : Option (Str × Option Str) :=
  match partition '=' part with
  | (name, separator, value) =>
    if name = [] then none
    else some (t.lower name, if separator then some (unquoted value) else none)

/-- Whether a text is in `KEY_FIELDS`. -/
def isKeyType (s : Str) : Bool := (keyFields.lookup s).isSome

def optionsAndRest (stripped : Str) : Str × Str :=
  match splitMax 1 stripped with
  | first :: _ =>
    if isKeyType first then ([], stripped)
    else (stripped.take (optionTokenEnd stripped), strip (stripped.drop (optionTokenEnd stripped)))
  | [] => ([], stripped)

def parseLine (t : CharTables) (line : Str) : Option KeyLine :=
  let stripped := strip line
  if stripped = [] || startsWith stripped ['#'] then none
  else match splitMax 2 (optionsAndRest stripped).2 with
    | keyType :: body :: _ =>
      if !isKeyType keyType || !isBase64Body body then none
      else do
        let options ←
          if (optionsAndRest stripped).1 = [] then some []
          else (splitOptions (optionsAndRest stripped).1).mapM (readOption t)
        some ⟨(optionsAndRest stripped).1, options, keyType, body, stripped⟩
    | _ => none

/-- `parse_file`: the key lines, and the number of lines that were not understood. -/
def parseFile (t : CharTables) (text : Str) : List KeyLine × Nat :=
  let lines := (splitlines text).filter fun line =>
    !((strip line).isEmpty || startsWith (strip line) ['#'])
  (lines.filterMap (parseLine t), (lines.filter fun line => (parseLine t line).isNone).length)

def permitopenSet (line : KeyLine) : Finset Str :=
  (line.options.filterMap fun option =>
    if option.1 = "permitopen".toList then option.2.filter fun value => !value.isEmpty
    else none).toFinset

end SharedInfra.CiJump
