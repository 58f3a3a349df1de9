import Mathlib.Data.List.DropRight
import SharedInfra.Formats.YamlScan

/-!
# The settings of a text

A YAML text of block mappings and sequences, as the list of its lines: the
indentation, whether the line starts an item, the key and the value.  The lines
determine the mappings and sequences.  What a line holds of a quoted scalar is
moved and never looked at (`readSettings_fill`), and every quoted scalar is in
the settings, in order (`scalars_readSettings`).
-/

namespace SharedInfra.Yaml

inductive Value where
  | none
  | plain (s : List Char)
  | quoted (s : List Char)
  /-- A flow sequence of quoted scalars. -/
  | flow (items : List (List Char))
  deriving DecidableEq

structure Setting where
  indent : Nat
  item : Bool
  key : Option (List Char)
  value : Value
  deriving DecidableEq

def isSpaceToken (token : Token) : Bool := token == .char ' '

def consToken (token : Token) : List (List Token) → List (List Token)
  | [] => [[token]]
  | line :: lines => (token :: line) :: lines

def splitLines : List Token → List (List Token)
  | [] => [[]]
  | token :: rest =>
    if token = .char '\n' then [] :: splitLines rest else consToken token (splitLines rest)

/-- The key of a line and what follows it: the colon ends the line or is before a space. -/
def splitKey : List Token → Option (List Char × List Token)
  | [] => none
  | .quoted _ :: _ => none
  | .char c :: rest =>
    if c = ':' ∧ rest.head?.all isSpaceToken then some ([], rest.tail)
    else (splitKey rest).map fun found => (c :: found.1, found.2)

/-- The scalars of a flow sequence, from where the next one is due or from behind one. -/
def readItems : Bool → List Token → Option (List (List Char))
  | _, [] => none
  | true, .quoted s :: rest => (readItems false rest).map (s :: ·)
  | false, .quoted _ :: _ => none
  | true, .char c :: rest => if c = ' ' then readItems true rest else none
  | false, .char c :: rest =>
    if c = ',' then readItems true rest
    else if c = ' ' then readItems false rest
    else if c = ']' ∧ rest = [] then some []
    else none

def readChars : List Token → Option (List Char)
  | [] => some []
  | .char c :: rest => (readChars rest).map (c :: ·)
  | .quoted _ :: _ => none

def readValue : List Token → Option Value
  | [] => some .none
  | .quoted s :: rest => if rest = [] then some (.quoted s) else none
  | .char c :: rest =>
    if c = '[' then (readItems true rest).map .flow
    else (readChars rest).map fun s => .plain (c :: s)

/-- What follows the indentation of a line. -/
def readBody (indent : Nat) (item : Bool) (body : List Token) : Option Setting :=
  match splitKey body with
  | some (key, rest) =>
    (readValue (rest.dropWhile isSpaceToken)).map (Setting.mk indent item (some key))
  | none => (readValue body).map (Setting.mk indent item none)

/-- What follows the dash of an item. -/
def itemBody : List Token → Option (List Token)
  | [] => none
  | .quoted _ :: _ => none
  | .char c :: rest =>
    if c = '-' ∧ rest.head?.all isSpaceToken then some (rest.dropWhile isSpaceToken) else none

/-- A line, or nothing for an empty one. -/
def readLine (line : List Token) : Option (Option Setting) :=
  let indent := (line.takeWhile isSpaceToken).length
  let body := (line.dropWhile isSpaceToken).rdropWhile isSpaceToken
  if body = [] then some none
  else
    match itemBody body with
    | some rest => (readBody indent true rest).map some
    | none => (readBody indent false body).map some

def readLines : List (List Token) → Option (List Setting)
  | [] => some []
  | line :: lines =>
    (readLine line).bind fun setting =>
      (readLines lines).map fun settings => setting.toList ++ settings

def readSettings (tokens : List Token) : Option (List Setting) := readLines (splitLines tokens)

/-- The settings of a text, or `none` for a text that is not taken. -/
def readYaml (text : List Char) : Option (List Setting) :=
  if text.all isPrintable then (scan .start text).bind readSettings else none

section Filling

variable (g : List Char → List Char)

def Token.fill : Token → Token
  | .char c => .char c
  | .quoted s => .quoted (g s)

def Value.fill : Value → Value
  | .none => .none
  | .plain s => .plain s
  | .quoted s => .quoted (g s)
  | .flow items => .flow (items.map g)

/-- A setting with other quoted scalars. -/
def Setting.fill (setting : Setting) : Setting :=
  { setting with value := setting.value.fill g }

@[simp] theorem isSpaceToken_fill (token : Token) :
    isSpaceToken (token.fill g) = isSpaceToken token := by
  cases token <;> rfl

theorem fill_eq_char {token : Token} {c : Char} : token.fill g = .char c ↔ token = .char c := by
  cases token <;> simp [Token.fill]

theorem takeWhile_fill (tokens : List Token) :
    (tokens.map (Token.fill g)).takeWhile isSpaceToken =
      (tokens.takeWhile isSpaceToken).map (Token.fill g) := by
  rw [List.takeWhile_map]
  congr 1
  exact congrArg (List.takeWhile · tokens) (funext (isSpaceToken_fill g))

theorem dropWhile_fill (tokens : List Token) :
    (tokens.map (Token.fill g)).dropWhile isSpaceToken =
      (tokens.dropWhile isSpaceToken).map (Token.fill g) := by
  rw [List.dropWhile_map]
  congr 1
  exact congrArg (List.dropWhile · tokens) (funext (isSpaceToken_fill g))

theorem rdropWhile_fill (tokens : List Token) :
    (tokens.map (Token.fill g)).rdropWhile isSpaceToken =
      (tokens.rdropWhile isSpaceToken).map (Token.fill g) := by
  rw [List.rdropWhile, List.rdropWhile, ← List.map_reverse, dropWhile_fill, List.map_reverse]

theorem splitLines_fill (tokens : List Token) :
    splitLines (tokens.map (Token.fill g)) =
      (splitLines tokens).map (List.map (Token.fill g)) := by
  induction tokens with
  | nil => rfl
  | cons token rest ih =>
    rw [List.map_cons, splitLines, splitLines, ih]
    simp only [fill_eq_char]
    split_ifs
    · rfl
    · cases splitLines rest <;> rfl

theorem splitKey_fill (tokens : List Token) :
    splitKey (tokens.map (Token.fill g)) =
      (splitKey tokens).map fun found => (found.1, found.2.map (Token.fill g)) := by
  induction tokens with
  | nil => rfl
  | cons token rest ih =>
    cases token with
    | quoted s => rfl
    | char c =>
      have hhead : (rest.map (Token.fill g)).head?.all isSpaceToken =
          rest.head?.all isSpaceToken := by
        cases rest <;> simp
      rw [List.map_cons, Token.fill, splitKey, splitKey, hhead, ih]
      split_ifs
      · cases rest <;> rfl
      · cases splitKey rest <;> rfl

theorem readItems_fill (due : Bool) (tokens : List Token) :
    readItems due (tokens.map (Token.fill g)) = (readItems due tokens).map (List.map g) := by
  induction tokens generalizing due with
  | nil => cases due <;> rfl
  | cons token rest ih =>
    have hrest : rest.map (Token.fill g) = [] ↔ rest = [] := List.map_eq_nil_iff
    cases token with
    | quoted s =>
      cases due with
      | false => rfl
      | true =>
        simp only [List.map_cons, Token.fill, readItems, ih]
        cases readItems false rest <;> rfl
    | char c =>
      cases due with
      | false =>
        simp only [List.map_cons, Token.fill, readItems, ih, hrest]
        split_ifs <;> rfl
      | true =>
        simp only [List.map_cons, Token.fill, readItems, ih]
        split_ifs <;> rfl

theorem readChars_fill (tokens : List Token) :
    readChars (tokens.map (Token.fill g)) = readChars tokens := by
  induction tokens with
  | nil => rfl
  | cons token rest ih =>
    cases token with
    | quoted s => rfl
    | char c =>
      rw [List.map_cons, Token.fill, readChars, readChars, ih]

theorem readValue_fill (tokens : List Token) :
    readValue (tokens.map (Token.fill g)) = (readValue tokens).map (Value.fill g) := by
  cases tokens with
  | nil => rfl
  | cons token rest =>
    cases token with
    | quoted s =>
      simp only [List.map_cons, Token.fill, readValue, List.map_eq_nil_iff]
      split_ifs <;> rfl
    | char c =>
      simp only [List.map_cons, Token.fill, readValue, readItems_fill, readChars_fill]
      split_ifs
      · cases readItems true rest <;> rfl
      · cases readChars rest <;> rfl

theorem readBody_fill (indent : Nat) (item : Bool) (body : List Token) :
    readBody indent item (body.map (Token.fill g)) =
      (readBody indent item body).map (Setting.fill g) := by
  rw [readBody, readBody, splitKey_fill]
  rcases splitKey body with _ | ⟨key, rest⟩
  · simp only [Option.map_none, readValue_fill]
    cases readValue body <;> rfl
  · simp only [Option.map_some, dropWhile_fill, readValue_fill]
    cases readValue (rest.dropWhile isSpaceToken) <;> rfl

theorem itemBody_fill (body : List Token) :
    itemBody (body.map (Token.fill g)) = (itemBody body).map (List.map (Token.fill g)) := by
  cases body with
  | nil => rfl
  | cons token rest =>
    cases token with
    | quoted s => rfl
    | char c =>
      have hhead : (rest.map (Token.fill g)).head?.all isSpaceToken =
          rest.head?.all isSpaceToken := by
        cases rest <;> simp
      simp only [List.map_cons, Token.fill, itemBody, hhead, dropWhile_fill]
      split_ifs <;> rfl

theorem readLine_fill (line : List Token) :
    readLine (line.map (Token.fill g)) = (readLine line).map (Option.map (Setting.fill g)) := by
  simp only [readLine, takeWhile_fill, dropWhile_fill, rdropWhile_fill, List.length_map,
    List.map_eq_nil_iff, itemBody_fill]
  split_ifs
  · rfl
  · cases itemBody ((line.dropWhile isSpaceToken).rdropWhile isSpaceToken) with
    | none =>
      simp only [Option.map_none, readBody_fill]
      cases readBody (line.takeWhile isSpaceToken).length false
        ((line.dropWhile isSpaceToken).rdropWhile isSpaceToken) <;> rfl
    | some rest =>
      simp only [Option.map_some, readBody_fill]
      cases readBody (line.takeWhile isSpaceToken).length true rest <;> rfl

theorem readLines_fill (lines : List (List Token)) :
    readLines (lines.map (List.map (Token.fill g))) =
      (readLines lines).map (List.map (Setting.fill g)) := by
  induction lines with
  | nil => rfl
  | cons line lines ih =>
    simp only [List.map_cons, readLines, readLine_fill, ih]
    rcases readLine line with _ | setting
    · rfl
    · rcases readLines lines with _ | settings
      · rfl
      · cases setting <;> simp

theorem readSettings_fill (tokens : List Token) :
    readSettings (tokens.map (Token.fill g)) =
      (readSettings tokens).map (List.map (Setting.fill g)) := by
  rw [readSettings, splitLines_fill, readLines_fill]
  rfl

end Filling

section Scalars

variable {tokens : List Token}

def Value.scalars : Value → List (List Char)
  | .none => []
  | .plain _ => []
  | .quoted s => [s]
  | .flow items => items

/-- The quoted scalars of the settings, in order. -/
def settingScalars (settings : List Setting) : List (List Char) :=
  settings.flatMap fun setting => setting.value.scalars

@[simp] theorem scalars_nil : scalars [] = [] := rfl

@[simp] theorem scalars_char (c : Char) (rest : List Token) :
    scalars (.char c :: rest) = scalars rest := rfl

@[simp] theorem scalars_quoted (s : List Char) (rest : List Token) :
    scalars (.quoted s :: rest) = s :: scalars rest := rfl

@[simp] theorem scalars_append (left right : List Token) :
    scalars (left ++ right) = scalars left ++ scalars right := by
  simp [scalars]

theorem scalars_of_spaces (h : ∀ token ∈ tokens, isSpaceToken token = true) :
    scalars tokens = [] := by
  induction tokens with
  | nil => rfl
  | cons token rest ih =>
    cases token with
    | quoted s => exact absurd (h _ List.mem_cons_self) (by simp [isSpaceToken])
    | char c => exact ih fun other hother => h other (List.mem_cons_of_mem _ hother)

@[simp] theorem scalars_dropWhile (tokens : List Token) :
    scalars (tokens.dropWhile isSpaceToken) = scalars tokens := by
  conv_rhs => rw [← List.takeWhile_append_dropWhile (p := isSpaceToken) (l := tokens)]
  rw [scalars_append, scalars_of_spaces fun token htoken => List.mem_takeWhile_imp htoken,
    List.nil_append]

theorem scalars_reverse (tokens : List Token) :
    scalars tokens.reverse = (scalars tokens).reverse := by
  simp [scalars]

@[simp] theorem scalars_rdropWhile (tokens : List Token) :
    scalars (tokens.rdropWhile isSpaceToken) = scalars tokens := by
  rw [List.rdropWhile, scalars_reverse, scalars_dropWhile, scalars_reverse, List.reverse_reverse]

theorem scalars_splitLines (tokens : List Token) :
    (splitLines tokens).flatMap scalars = scalars tokens := by
  induction tokens with
  | nil => rfl
  | cons token rest ih =>
    rw [splitLines]
    split_ifs with h
    · rw [h]
      exact ih
    · rw [← List.singleton_append, scalars_append, ← ih]
      cases splitLines rest with
      | nil => simp [consToken]
      | cons line lines =>
        rw [consToken, List.flatMap_cons, List.flatMap_cons, ← List.append_assoc, ← scalars_append]
        rfl

theorem scalars_readChars {s : List Char} (h : readChars tokens = some s) :
    scalars tokens = [] := by
  induction tokens generalizing s with
  | nil => rfl
  | cons token rest ih =>
    cases token with
    | quoted s => cases h
    | char c =>
      obtain ⟨more, hmore, -⟩ := Option.map_eq_some_iff.mp h
      exact ih hmore

theorem scalars_readItems {due : Bool} {items : List (List Char)}
    (h : readItems due tokens = some items) : scalars tokens = items := by
  induction tokens generalizing due items with
  | nil => cases due <;> cases h
  | cons token rest ih =>
    cases token with
    | quoted s =>
      cases due with
      | false => cases h
      | true =>
        obtain ⟨more, hmore, rfl⟩ := Option.map_eq_some_iff.mp h
        rw [scalars_quoted, ih hmore]
    | char c =>
      cases due with
      | false =>
        simp only [readItems] at h
        split_ifs at h with h1 h2 h3
        · exact ih h
        · exact ih h
        · rw [h3.2, ← Option.some.inj h]
          rfl
      | true =>
        simp only [readItems] at h
        split_ifs at h
        exact ih h

theorem scalars_readValue {value : Value}
    (h : readValue tokens = some value) : value.scalars = scalars tokens := by
  cases tokens with
  | nil =>
    obtain rfl := Option.some.inj h
    rfl
  | cons token rest =>
    cases token with
    | quoted s =>
      simp only [readValue] at h
      split_ifs at h with hrest
      rw [← Option.some.inj h, hrest]
      rfl
    | char c =>
      simp only [readValue] at h
      split_ifs at h
      · obtain ⟨items, hitems, rfl⟩ := Option.map_eq_some_iff.mp h
        exact (scalars_readItems hitems).symm
      · obtain ⟨s, hs, rfl⟩ := Option.map_eq_some_iff.mp h
        exact (scalars_readChars hs).symm

theorem scalars_splitKey {tokens rest : List Token} {key : List Char}
    (h : splitKey tokens = some (key, rest)) : scalars rest = scalars tokens := by
  induction tokens generalizing key with
  | nil => cases h
  | cons token more ih =>
    cases token with
    | quoted s => cases h
    | char c =>
      rw [splitKey] at h
      split_ifs at h with hcolon
      · obtain ⟨-, rfl⟩ := Prod.mk.inj (Option.some.inj h)
        cases more with
        | nil => rfl
        | cons space more =>
          have hspace : isSpaceToken space = true := by simpa using hcolon.2
          cases space with
          | quoted s => cases hspace
          | char c => rfl
      · obtain ⟨⟨key', rest'⟩, hmore, heq⟩ := Option.map_eq_some_iff.mp h
        obtain ⟨-, rfl⟩ := Prod.mk.inj heq
        exact ih hmore

theorem scalars_readBody {indent : Nat} {item : Bool} {body : List Token} {setting : Setting}
    (h : readBody indent item body = some setting) : setting.value.scalars = scalars body := by
  rw [readBody] at h
  split at h
  · next key rest hkey =>
      obtain ⟨value, hvalue, rfl⟩ := Option.map_eq_some_iff.mp h
      rw [← scalars_splitKey hkey, ← scalars_dropWhile rest]
      exact scalars_readValue hvalue
  · obtain ⟨value, hvalue, rfl⟩ := Option.map_eq_some_iff.mp h
    exact scalars_readValue hvalue

theorem scalars_itemBody {body rest : List Token} (h : itemBody body = some rest) :
    scalars rest = scalars body := by
  cases body with
  | nil => cases h
  | cons token more =>
    cases token with
    | quoted s => cases h
    | char c =>
      rw [itemBody] at h
      split_ifs at h
      rw [← Option.some.inj h, scalars_dropWhile, scalars_char]

theorem scalars_readLine {line : List Token} {setting : Option Setting}
    (h : readLine line = some setting) : settingScalars setting.toList = scalars line := by
  have hbody : scalars ((line.dropWhile isSpaceToken).rdropWhile isSpaceToken) = scalars line := by
    rw [scalars_rdropWhile, scalars_dropWhile]
  simp only [readLine] at h
  split_ifs at h with hempty
  · rw [← Option.some.inj h, ← hbody, hempty]
    rfl
  · split at h
    · next rest hrest =>
        obtain ⟨found, hfound, rfl⟩ := Option.map_eq_some_iff.mp h
        rw [← hbody, ← scalars_itemBody hrest, ← scalars_readBody hfound]
        simp [settingScalars]
    · obtain ⟨found, hfound, rfl⟩ := Option.map_eq_some_iff.mp h
      rw [← hbody, ← scalars_readBody hfound]
      simp [settingScalars]

theorem scalars_readSettings {settings : List Setting}
    (h : readSettings tokens = some settings) : settingScalars settings = scalars tokens := by
  have hlines : ∀ (lines : List (List Token)) (settings : List Setting),
      readLines lines = some settings → settingScalars settings = lines.flatMap scalars := by
    intro lines
    induction lines with
    | nil =>
      intro settings h
      obtain rfl := Option.some.inj h
      rfl
    | cons line lines ih =>
      intro settings h
      obtain ⟨setting, hline, h⟩ := Option.bind_eq_some_iff.mp h
      obtain ⟨more, hmore, rfl⟩ := Option.map_eq_some_iff.mp h
      rw [List.flatMap_cons, ← scalars_readLine hline, ← ih more hmore]
      simp [settingScalars]
  rw [hlines _ _ h, scalars_splitLines]

end Scalars

end SharedInfra.Yaml
