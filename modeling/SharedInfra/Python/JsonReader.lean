import SharedInfra.Python.IpText
import SharedInfra.Python.Json

/-!
# Reading JSON

`json.loads`: the tokens of a text and, token by token over a stack of open containers, the value
they make or what is raised.  Nesting beyond the recursion limit and integers beyond the limit of
digits raise something else than a `JSONDecodeError`.  An object of plain texts, as `json.dump`
writes it with an indent, is read back (`loads_dumpTexts`).
-/

namespace SharedInfra.Python

inductive JsonToken where
  | openObject
  | closeObject
  | openArray
  | closeArray
  | comma
  | colon
  | string (text : Str)
  | integer (literal : Str)
  | float (literal : Str)
  | constant (value : Json)
  | bad

/-- The space between tokens. -/
def isJsonSpace (c : Char) : Bool := c == ' ' || c == '\t' || c == '\n' || c == '\r'

/-- The character of a short escape. -/
def unescape (c : Char) : Option Nat :=
  if c = '"' ∨ c = '\\' ∨ c = '/' then some c.toNat
  else if c = 'b' then some 8 else if c = 'f' then some 12 else if c = 'n' then some 10
  else if c = 'r' then some 13 else if c = 't' then some 9 else none

/-- What has been read of an escape. -/
inductive Pending where
  | plain
  | escape
  | unicode (digits : List Nat)

def pushUnit (unit : Nat) : Option (List Nat × Nat) → Option (List Nat × Nat)
  | none => none
  | some (units, length) => some (unit :: units, length + 1)

/-- One more character of a string that is no unit of its own. -/
def passOver : Option (List Nat × Nat) → Option (List Nat × Nat)
  | none => none
  | some (units, length) => some (units, length + 1)

/-- The units of a string up to its closing quote, and the number of characters read. -/
def stringUnits : Pending → Str → Option (List Nat × Nat)
  | _, [] => none
  | .plain, c :: rest =>
    if c = '"' then some ([], 1)
    else if c = '\\' then passOver (stringUnits .escape rest)
    else if c.toNat < 32 then none
    else pushUnit c.toNat (stringUnits .plain rest)
  | .escape, c :: rest =>
    if c = 'u' then passOver (stringUnits (.unicode []) rest)
    else match unescape c with
      | some unit => pushUnit unit (stringUnits .plain rest)
      | none => none
  | .unicode digits, c :: rest =>
    match hexDigit c with
    | none => none
    | some digit =>
      if digits.length = 3 then
        pushUnit ((digits ++ [digit]).foldl (fun n d => n * 16 + d) 0) (stringUnits .plain rest)
      else passOver (stringUnits (.unicode (digits ++ [digit])) rest)

/-- The text of units; two surrogates make one character, and one alone is replaced. -/
def joinUnits : List Nat → Str
  | [] => []
  | [unit] => [Char.ofNat (if 0xd800 ≤ unit ∧ unit < 0xe000 then 0xfffd else unit)]
  | unit :: next :: rest =>
    if 0xd800 ≤ unit ∧ unit < 0xdc00 ∧ 0xdc00 ≤ next ∧ next < 0xe000 then
      Char.ofNat (0x10000 + (unit - 0xd800) * 0x400 + (next - 0xdc00)) :: joinUnits rest
    else
      Char.ofNat (if 0xd800 ≤ unit ∧ unit < 0xe000 then 0xfffd else unit) ::
        joinUnits (next :: rest)

/-- The digits at the start of a text, at least one, behind what is given. -/
def digitsAfter (front s : Str) : Str :=
  let digits := s.takeWhile Char.isDigit
  if digits.isEmpty then [] else front ++ digits

/-- The sign and the digits of a number; a `0` is a number of its own. -/
def integerAt (s : Str) : Str :=
  let sign := if s.head? = some '-' then ['-'] else []
  let rest := s.drop sign.length
  if rest.head? = some '0' then sign ++ ['0'] else digitsAfter sign rest

def fractionAt (s : Str) : Str :=
  if s.head? = some '.' then digitsAfter ['.'] s.tail else []

def exponentAt (s : Str) : Str :=
  match s with
  | e :: rest =>
    if e = 'e' ∨ e = 'E' then
      match rest with
      | sign :: rest' =>
        if sign = '+' ∨ sign = '-' then digitsAfter [e, sign] rest' else digitsAfter [e] rest
      | [] => []
    else []
  | [] => []

def numberAt (s : Str) : JsonToken × Nat :=
  let integer := integerAt s
  if integer.isEmpty then (.bad, 1)
  else
    let fraction := fractionAt (s.drop integer.length)
    let exponent := exponentAt (s.drop (integer.length + fraction.length))
    if fraction.isEmpty && exponent.isEmpty then (.integer integer, integer.length)
    else (.float (integer ++ fraction ++ exponent),
      integer.length + fraction.length + exponent.length)

/-- The words of JSON, with those that Python reads besides. -/
def jsonWords : List (Str × Json) :=
  [("null".toList, .null), ("true".toList, .bool true), ("false".toList, .bool false),
    ("NaN".toList, .number "NaN".toList), ("Infinity".toList, .number "Infinity".toList),
    ("-Infinity".toList, .number "-Infinity".toList)]

/-- The token at a character that is no space, and its length. -/
def tokenAt (c : Char) (rest : Str) : JsonToken × Nat :=
  if c = '"' then
    match stringUnits .plain rest with
    | some (units, length) => (.string (joinUnits units), length + 1)
    | none => (.bad, 1)
  else if c = '\x7b' then (.openObject, 1)
  else if c = '\x7d' then (.closeObject, 1)
  else if c = '[' then (.openArray, 1)
  else if c = ']' then (.closeArray, 1)
  else if c = ',' then (.comma, 1)
  else if c = ':' then (.colon, 1)
  else match jsonWords.find? fun word => startsWith (c :: rest) word.1 with
    | some (word, value) => (.constant value, word.length)
    | none => numberAt (c :: rest)

/-- The tokens of a text, after the characters of one that are still to be left out. -/
def tokensAfter : Nat → Str → List JsonToken
  | _, [] => []
  | skip + 1, _ :: rest => tokensAfter skip rest
  | 0, c :: rest =>
    if isJsonSpace c then tokensAfter 0 rest
    else (tokenAt c rest).1 :: tokensAfter ((tokenAt c rest).2 - 1) rest

inductive JsonFault where
  | decode
  | recursion
  | digits
deriving DecidableEq

/-- The limits of the interpreter: the nesting, and the digits of an integer. -/
structure JsonLimits where
  depth : Nat
  digits : Nat
  depth_pos : 0 < depth

/-- A container that is still open; an object with the name of its next member. -/
inductive Frame where
  | array (items : List Json)
  | object (members : List (Str × Json)) (name : Str)

inductive Expect where
  | value
  | valueOrEnd
  | nameOrEnd
  | name
  | colon
  | commaOrEnd
  | finished (value : Json)

structure Reading where
  stack : List Frame
  expect : Expect

/-- A value is complete. -/
def deliver (value : Json) : List Frame → Reading
  | [] => ⟨[], .finished value⟩
  | .array items :: rest => ⟨.array (items ++ [value]) :: rest, .commaOrEnd⟩
  | .object members name :: rest =>
    ⟨.object (members ++ [(name, value)]) name :: rest, .commaOrEnd⟩

/-- A container is opened. -/
def enter (limits : JsonLimits) (frame : Frame) (expect : Expect) (stack : List Frame) :
    Except JsonFault Reading :=
  if limits.depth ≤ stack.length then .error .recursion else .ok ⟨frame :: stack, expect⟩

/-- A token where a value is expected. -/
def readValue (limits : JsonLimits) (stack : List Frame) : JsonToken → Except JsonFault Reading
  | .openArray => enter limits (.array []) .valueOrEnd stack
  | .openObject => enter limits (.object [] []) .nameOrEnd stack
  | .string text => .ok (deliver (.string text) stack)
  | .integer literal =>
    if limits.digits < (literal.filter Char.isDigit).length then .error .digits
    else .ok (deliver (.number literal) stack)
  | .float literal => .ok (deliver (.number literal) stack)
  | .constant value => .ok (deliver value stack)
  | _ => .error .decode

/-- A token behind a value, or at the end of an empty container. -/
def closeOrGoOn (comma : Bool) (stack : List Frame) (token : JsonToken) :
    Except JsonFault Reading :=
  match stack, token with
  | .array items :: rest, .closeArray => .ok (deliver (.array items) rest)
  | .object members _ :: rest, .closeObject => .ok (deliver (.object members) rest)
  | .array _ :: _, .comma => if comma then .ok ⟨stack, .value⟩ else .error .decode
  | .object _ _ :: _, .comma => if comma then .ok ⟨stack, .name⟩ else .error .decode
  | _, _ => .error .decode

/-- The name of a member. -/
def readName (stack : List Frame) (text : Str) : Except JsonFault Reading :=
  match stack with
  | .object members _ :: rest => .ok ⟨.object members text :: rest, .colon⟩
  | _ => .error .decode

def readToken (limits : JsonLimits) (reading : Reading) (token : JsonToken) :
    Except JsonFault Reading :=
  match reading.expect, token with
  | .value, token => readValue limits reading.stack token
  | .valueOrEnd, .closeArray => closeOrGoOn false reading.stack .closeArray
  | .valueOrEnd, token => readValue limits reading.stack token
  | .nameOrEnd, .string text => readName reading.stack text
  | .nameOrEnd, token => closeOrGoOn false reading.stack token
  | .name, .string text => readName reading.stack text
  | .colon, .colon => .ok ⟨reading.stack, .value⟩
  | .commaOrEnd, token => closeOrGoOn true reading.stack token
  | _, _ => .error .decode

/-- `json.loads`. -/
def loads (limits : JsonLimits) (text : Str) : Except JsonFault Json := do
  let reading ← (tokensAfter 0 text).foldlM (readToken limits) ⟨[], .value⟩
  match reading.expect with
  | .finished value => .ok value
  | _ => .error .decode

example : (loads ⟨9, 9, by decide⟩
      "\x7b\"a\": [1, -2.5e3, true], \"b\": \"\\u0041\"\x7d ".toList).isOk ∧
    (loads ⟨9, 9, by decide⟩ "[1,]".toList).isOk = false ∧
    (loads ⟨1, 9, by decide⟩ "[[]]".toList).isOk = false := by
  decide

section Writing

/-- A member of an object, as `json.dump` writes it with an indent. -/
def dumpMember (entry : Str × Str) : Str :=
  jsonString entry.1 ++ ':' :: ' ' :: jsonString entry.2

/-- `json.dump(entries, indent=2)`, of texts. -/
def dumpTexts (entries : List (Str × Str)) : Str :=
  if entries = [] then ['\x7b', '\x7d']
  else '\x7b' :: '\n' :: ' ' :: ' ' ::
    (joinWith [',', '\n', ' ', ' '] (entries.map dumpMember) ++ ['\n', '\x7d'])

/-- A text that is written as it stands. -/
def IsPlainText (s : Str) : Prop := ∀ c ∈ s, 32 ≤ c.toNat ∧ c.toNat ≤ 126 ∧ c ≠ '"' ∧ c ≠ '\\'

instance (s : Str) : Decidable (IsPlainText s) :=
  decidable_of_iff (s.all (fun c => 32 ≤ c.toNat ∧ c.toNat ≤ 126 ∧ c ≠ '"' ∧ c ≠ '\\') = true)
    (by simp only [List.all_eq_true, decide_eq_true_iff, IsPlainText])

variable {s k v rest : Str} {entries : List (Str × Str)} {limits : JsonLimits}

theorem jsonString_plain (h : IsPlainText s) : jsonString s = '"' :: s ++ ['"'] := by
  have hescape : ∀ c ∈ s, jsonEscape c = [c] := by
    intro c hc
    obtain ⟨hlow, hhigh, hquote, hbackslash⟩ := h c hc
    have hne : ∀ d : Char, d.toNat < 32 → c ≠ d := by
      rintro d hd rfl
      omega
    have hshort : shortEscape c = none := by
      rw [shortEscape, if_neg hquote, if_neg hbackslash, if_neg (hne '\n' (by decide)),
        if_neg (hne '\r' (by decide)), if_neg (hne '\t' (by decide)), if_neg (by omega),
        if_neg (by omega)]
    rw [jsonEscape, hshort]
    exact if_pos ⟨hlow, hhigh⟩
  rw [jsonString, List.flatMap_congr hescape, List.flatMap_singleton']

theorem stringUnits_plain (h : IsPlainText s) :
    stringUnits .plain (s ++ '"' :: rest) = some (s.map Char.toNat, s.length + 1) := by
  induction s with
  | nil => rw [List.nil_append, stringUnits, if_pos rfl]; rfl
  | cons c s ih =>
    obtain ⟨⟨hlow, -, hquote, hbackslash⟩, hs⟩ := List.forall_mem_cons.mp h
    rw [List.cons_append, stringUnits, if_neg hquote, if_neg hbackslash,
      if_neg (Nat.not_lt.mpr hlow), ih hs]
    rfl

theorem joinUnits_toNat (s : Str) : joinUnits (s.map Char.toNat) = s := by
  have hone : ∀ c : Char, Char.ofNat (if 0xd800 ≤ c.toNat ∧ c.toNat < 0xe000 then 0xfffd else
      c.toNat) = c := fun c => by
    have := not_surrogate c
    rw [if_neg (by omega), Char.ofNat_toNat]
  induction s with
  | nil => rfl
  | cons c s ih =>
    cases s with
    | nil => exact congrArg (fun d => [d]) (hone c)
    | cons d s =>
      have := not_surrogate c
      rw [List.map_cons, List.map_cons] at *
      rw [joinUnits, if_neg (by omega), hone, ih]

theorem tokensAfter_skip (front rest : Str) :
    tokensAfter front.length (front ++ rest) = tokensAfter 0 rest := by
  induction front with
  | nil => rfl
  | cons c front ih => exact ih

theorem tokensAfter_string (h : IsPlainText s) :
    tokensAfter 0 (jsonString s ++ rest) = .string s :: tokensAfter 0 rest := by
  have htoken : tokenAt '"' (s ++ '"' :: rest) = (.string s, s.length + 2) := by
    rw [tokenAt, if_pos rfl, stringUnits_plain h]
    simp only [joinUnits_toNat]
  have hskip := tokensAfter_skip (s ++ ['"']) rest
  rw [List.length_append, List.append_assoc] at hskip
  rw [jsonString_plain h, List.append_assoc, List.cons_append, List.cons_append, List.nil_append,
    tokensAfter, if_neg (by decide), htoken]
  exact congrArg _ hskip

def memberTokens (entry : Str × Str) : List JsonToken := [.string entry.1, .colon, .string entry.2]

theorem tokensAfter_member (hk : IsPlainText k) (hv : IsPlainText v) :
    tokensAfter 0 (dumpMember (k, v) ++ rest) = memberTokens (k, v) ++ tokensAfter 0 rest := by
  rw [dumpMember, List.append_assoc, tokensAfter_string hk]
  change _ :: .colon :: tokensAfter 0 (jsonString v ++ rest) = _
  rw [tokensAfter_string hv]
  rfl

def moreTokens (entries : List (Str × Str)) : List JsonToken :=
  entries.flatMap fun entry => .comma :: memberTokens entry

theorem tokensAfter_members (h : ∀ entry ∈ entries, IsPlainText entry.1 ∧ IsPlainText entry.2)
    (hk : IsPlainText k) (hv : IsPlainText v) :
    tokensAfter 0 (joinWith [',', '\n', ' ', ' '] (dumpMember (k, v) :: entries.map dumpMember) ++
      rest) = memberTokens (k, v) ++ (moreTokens entries ++ tokensAfter 0 rest) := by
  induction entries generalizing k v with
  | nil => exact tokensAfter_member hk hv
  | cons entry entries ih =>
    obtain ⟨⟨hname, hvalue⟩, hentries⟩ := List.forall_mem_cons.mp h
    rw [List.map_cons, joinWith_cons_cons, List.append_assoc, List.append_assoc,
      tokensAfter_member hk hv]
    change memberTokens (k, v) ++ .comma :: tokensAfter 0
      (joinWith _ (dumpMember (entry.1, entry.2) :: _) ++ rest) = _
    have hmore : moreTokens (entry :: entries) =
        .comma :: (memberTokens (entry.1, entry.2) ++ moreTokens entries) := List.flatMap_cons
    rw [ih hentries hname hvalue, hmore, List.cons_append, List.append_assoc]

def textMembers (entries : List (Str × Str)) : List (Str × Json) :=
  entries.map fun entry => (entry.1, .string entry.2)

theorem foldlM_member (expect : Expect) (hexpect : expect = .name ∨ expect = .nameOrEnd)
    (members : List (Str × Json)) (name : Str) (tokens : List JsonToken) :
    (memberTokens (k, v) ++ tokens).foldlM (readToken limits)
        ⟨[.object members name], expect⟩ =
      tokens.foldlM (readToken limits)
        ⟨[.object (members ++ [(k, .string v)]) k], .commaOrEnd⟩ := by
  rcases hexpect with rfl | rfl <;> rfl

theorem foldlM_members (members : List (Str × Json)) (name : Str) :
    (moreTokens entries ++ [JsonToken.closeObject]).foldlM (readToken limits)
        ⟨[.object members name], .commaOrEnd⟩ =
      .ok ⟨[], .finished (.object (members ++ textMembers entries))⟩ := by
  induction entries generalizing members name with
  | nil =>
    rw [textMembers, List.map_nil, List.append_nil]
    rfl
  | cons entry entries ih =>
    rw [moreTokens, List.flatMap_cons, List.cons_append, List.cons_append, List.foldlM_cons,
      List.append_assoc]
    change (memberTokens (entry.1, entry.2) ++
      (moreTokens entries ++ [JsonToken.closeObject])).foldlM (readToken limits)
        ⟨[.object members name], .name⟩ = _
    rw [foldlM_member .name (Or.inl rfl), ih, List.append_assoc]
    rfl

theorem loads_dumpTexts (h : ∀ entry ∈ entries, IsPlainText entry.1 ∧ IsPlainText entry.2) :
    loads limits (dumpTexts entries ++ ['\n']) = .ok (.object (textMembers entries)) := by
  have henter : enter limits (.object [] []) .nameOrEnd [] = .ok ⟨[.object [] []], .nameOrEnd⟩ :=
    if_neg (Nat.not_le.mpr limits.depth_pos)
  cases entries with
  | nil =>
    have htokens : tokensAfter 0 (dumpTexts [] ++ ['\n']) =
        [JsonToken.openObject, JsonToken.closeObject] := rfl
    rw [loads, htokens, List.foldlM_cons]
    change (enter limits (.object [] []) .nameOrEnd [] >>= _) >>= _ = _
    rw [henter]
    rfl
  | cons entry entries =>
    obtain ⟨⟨hk, hv⟩, hentries⟩ := List.forall_mem_cons.mp h
    have htokens : tokensAfter 0 (dumpTexts (entry :: entries) ++ ['\n']) =
        .openObject :: (memberTokens (entry.1, entry.2) ++
          (moreTokens entries ++ [JsonToken.closeObject])) := by
      rw [dumpTexts, if_neg (List.cons_ne_nil _ _)]
      change .openObject :: tokensAfter 0 ((_ ++ ['\n', '\x7d']) ++ ['\n']) = _
      rw [List.append_assoc, List.map_cons, tokensAfter_members hentries hk hv]
      rfl
    rw [loads, htokens, List.foldlM_cons]
    change (enter limits (.object [] []) .nameOrEnd [] >>= _) >>= _ = _
    rw [henter]
    change ((memberTokens (entry.1, entry.2) ++ _).foldlM (readToken limits)
      ⟨[.object [] []], .nameOrEnd⟩ >>= _) = _
    rw [foldlM_member .nameOrEnd (Or.inr rfl), foldlM_members]
    rfl

theorem noReturn_dumpTexts (h : ∀ entry ∈ entries, IsPlainText entry.1 ∧ IsPlainText entry.2) :
    '\r' ∉ dumpTexts entries := by
  have hplain : ∀ s, IsPlainText s → '\r' ∉ jsonString s := by
    intro s hs hmem
    rw [jsonString_plain hs] at hmem
    simp only [List.cons_append, List.mem_cons, List.mem_append, List.not_mem_nil, or_false] at hmem
    rcases hmem with hquote | hmem | hquote
    · exact absurd hquote (by decide)
    · exact absurd (hs _ hmem).1 (by decide)
    · exact absurd hquote (by decide)
  have hmember : ∀ entry ∈ entries, '\r' ∉ dumpMember entry := by
    intro entry hentry hmem
    obtain ⟨hk, hv⟩ := h entry hentry
    rcases List.mem_append.mp hmem with hmem | hmem
    · exact hplain _ hk hmem
    · rcases List.mem_cons.mp hmem with hcolon | hmem
      · exact absurd hcolon (by decide)
      · rcases List.mem_cons.mp hmem with hspace | hmem
        · exact absurd hspace (by decide)
        · exact hplain _ hv hmem
  intro hmem
  rw [dumpTexts] at hmem
  split_ifs at hmem with hnil
  · exact absurd hmem (by decide)
  · have hends : '\r' ∈ joinWith [',', '\n', ' ', ' '] (entries.map dumpMember) := by
      simpa using hmem
    rcases mem_joinWith hends with hmem | ⟨piece, hpiece, hmem⟩
    · exact absurd hmem (by decide)
    · obtain ⟨entry, hentry, rfl⟩ := List.mem_map.mp hpiece
      exact hmember entry hentry hmem

theorem member_textMembers (h : ∀ text, (k, text) ∈ entries ↔ text = v) :
    Json.member (textMembers entries) k = some (.string v) := by
  have hsome : ((textMembers entries).reverse.find? (·.1 == k)).isSome := by
    rw [List.find?_isSome]
    refine ⟨(k, .string v), List.mem_reverse.mpr ?_, beq_self_eq_true k⟩
    exact List.mem_map.mpr ⟨(k, v), (h v).mpr rfl, rfl⟩
  obtain ⟨found, hfound⟩ := Option.isSome_iff_exists.mp hsome
  have hmem := List.mem_reverse.mp (List.mem_of_find?_eq_some hfound)
  obtain ⟨entry, hentry, rfl⟩ := List.mem_map.mp hmem
  have hname : entry.1 = k := by simpa using List.find?_some hfound
  have htext : entry.2 = v := (h entry.2).mp (hname ▸ hentry)
  rw [Json.member, hfound, Option.map_some, htext]

end Writing

end SharedInfra.Python
