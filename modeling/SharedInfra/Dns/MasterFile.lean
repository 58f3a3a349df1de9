import SharedInfra.Python.Lines

/-!
# Zone files

The text of a zone as RFC 1035 reads it: entries of items and quoted strings, with comments,
parentheses and backslashes (`entriesOf`), and the resource records of the entries (`readZone`).
Lines of plain items and plain quoted strings are read back as they were written
(`entriesOf_lines`).
-/

namespace SharedInfra.Dns
namespace MasterFile

open Python

/-- An octet of an item or a string; one behind a backslash has no meaning of its own. -/
structure Letter where
  char : Char
  escaped : Bool
deriving DecidableEq

inductive Place where
  | item
  | text
deriving DecidableEq

structure Token where
  place : Place
  letters : List Letter
deriving DecidableEq

inductive Mode where
  | start
  | gap
  | within (place : Place)
  | slash (place : Place)
  | digits (place : Place) (before : Str)
  | comment
deriving DecidableEq

/-- An entry of the file; one that is indented has the owner of the entry before it. -/
structure Entry where
  indented : Bool
  tokens : List Token
deriving DecidableEq

structure Reading where
  mode : Mode
  letters : List Letter
  depth : Nat
  entry : Entry
  entries : List Entry

/-- Before an entry. -/
def Reading.at (entries : List Entry) : Reading := ⟨.start, [], 0, ⟨false, []⟩, entries⟩

def isBlank (c : Char) : Bool := c = ' ' || c = '\t'

def endsItem (c : Char) : Bool := isBlank c || c = '\n' || c = ';' || c = '(' || c = ')'

def Reading.endEntry (r : Reading) : Reading :=
  .at (if r.entry.tokens = [] then r.entries else r.entries ++ [r.entry])

def Reading.push (r : Reading) (place : Place) (letter : Letter) : Reading :=
  { r with mode := .within place, letters := r.letters ++ [letter] }

def Reading.close (r : Reading) (place : Place) : Reading :=
  { r with mode := .gap, letters := [], entry :=
      { r.entry with tokens := r.entry.tokens ++ [⟨place, r.letters⟩] } }

/-- A character between tokens; inside parentheses a line break is a blank. -/
def Reading.between (r : Reading) (c : Char) : Option Reading :=
  if c = '\n' then some (if r.depth = 0 then r.endEntry else { r with mode := .gap })
  else if isBlank c then
    some { r with mode := .gap, entry :=
      { r.entry with indented := r.entry.indented || r.mode = .start } }
  else if c = ';' then some { r with mode := .comment }
  else if c = '(' then some { r with mode := .gap, depth := r.depth + 1 }
  else if c = ')' then
    if r.depth = 0 then none else some { r with mode := .gap, depth := r.depth - 1 }
  else if c = '"' then some { r with mode := .within .text }
  else if c = '\\' then some { r with mode := .slash .item }
  else some (r.push .item ⟨c, false⟩)

def octetOf (digits : Str) : Nat := digits.foldl (fun n c => n * 10 + (c.toNat - 48)) 0

def Reading.step (r : Reading) (c : Char) : Option Reading :=
  if 128 ≤ c.toNat then none
  else
    match r.mode with
    | .start | .gap => r.between c
    | .comment => if c = '\n' then r.between c else some r
    | .within .item =>
      if endsItem c then (r.close .item).between c
      else if c = '\\' then some { r with mode := .slash .item }
      else some (r.push .item ⟨c, false⟩)
    | .within .text =>
      if c = '"' then some (r.close .text)
      else if c = '\\' then some { r with mode := .slash .text }
      else some (r.push .text ⟨c, false⟩)
    | .slash place =>
      if c.isDigit then some { r with mode := .digits place [c] }
      else some (r.push place ⟨c, true⟩)
    | .digits place before =>
      if !c.isDigit then none
      else if before.length < 2 then some { r with mode := .digits place (before ++ [c]) }
      else if 255 < octetOf (before ++ [c]) then none
      else some (r.push place ⟨Char.ofNat (octetOf (before ++ [c])), true⟩)

/-- The entries of a text; its last line may be without a line break. -/
def entriesOf (text : Str) : Option (List Entry) := do
  let r ← text.foldlM Reading.step (.at [])
  let r ← r.step '\n'
  if r.mode = .start then some r.entries else none

/-- The labels of a name, without the root. -/
abbrev Name := List Str

def splitDots : List Letter → List Str
  | [] => [[]]
  | letter :: rest =>
    if letter = ⟨'.', false⟩ then [] :: splitDots rest
    else consLine letter.char (splitDots rest)

/-- The octets that a name takes in a message. -/
def wireLength (name : Name) : Nat := (name.map fun label => label.length + 1).sum + 1

def isName (name : Name) : Bool :=
  name.all (fun label => 0 < label.length && label.length ≤ 63) && wireLength name ≤ 255

/-- A name; without a dot at its end it is relative to the origin. -/
def nameOf (origin : Option Name) (letters : List Letter) : Option Name :=
  if letters = [⟨'@', false⟩] then origin
  else if letters = [⟨'.', false⟩] then some []
  else
    let labels := splitDots letters
    let name := if labels.getLast? = some [] then some labels.dropLast
      else origin.map (labels ++ ·)
    name.filter isName

inductive Rdata where
  | txt (strings : List Str)
  | mx (preference : Nat) (exchange : Name)
  | named (type : Str) (target : Name)
deriving DecidableEq

structure Resource where
  owner : Name
  ttl : Nat
  recordClass : Str
  data : Rdata
deriving DecidableEq

def Token.word (token : Token) : Option Str :=
  if token.place = .item ∧ ∀ letter ∈ token.letters, letter.escaped = false then
    some (token.letters.map Letter.char)
  else none

def numberOf (token : Token) : Option Nat :=
  token.word.bind fun word =>
    if word ≠ [] ∧ ∀ c ∈ word, c.isDigit = true then some (octetOf word) else none

def classes : List Str := ["IN".toList, "CS".toList, "CH".toList, "HS".toList]

def classOf (token : Token) : Option Str :=
  (token.word.map fun word => word.map Char.toUpper).filter fun word => decide (word ∈ classes)

def leading {α : Type} (read : Token → Option α) : List Token → Option α × List Token
  | [] => (none, [])
  | token :: rest =>
    match read token with
    | some value => (some value, rest)
    | none => (none, token :: rest)

/-- The number of seconds and the class, in either order. -/
def headOf (tokens : List Token) : Option Nat × Option Str × List Token :=
  match leading numberOf tokens with
  | (some ttl, rest) => (some ttl, leading classOf rest)
  | (none, tokens) =>
    let (recordClass, rest) := leading classOf tokens
    let (ttl, rest) := leading numberOf rest
    (ttl, recordClass, rest)

/-- A character-string. -/
def stringOf (token : Token) : Option Str :=
  if token.letters.length ≤ 255 then some (token.letters.map Letter.char) else none

def dataOf (origin : Option Name) (type : Str) (args : List Token) : Option Rdata :=
  if type = "TXT".toList then
    if args = [] then none else (args.mapM stringOf).map Rdata.txt
  else if type = "MX".toList then
    match args with
    | [preference, exchange] => do
      let preference ← numberOf preference
      let exchange ← nameOf origin exchange.letters
      if preference < 65536 then some (.mx preference exchange) else none
    | _ => none
  else if type = "NS".toList ∨ type = "CNAME".toList ∨ type = "PTR".toList then
    match args with
    | [target] => (nameOf origin target.letters).map (Rdata.named type)
    | _ => none
  else none

/-- What an entry leaves to the entries behind it. -/
structure Context where
  origin : Option Name
  owner : Option Name
  ttl : Option Nat
  recordClass : Option Str

/-- `[<TTL>] [<class>] <type> <RDATA>`, in either order. -/
def recordOf (context : Context) (owner : Name) (tokens : List Token) :
    Option (Context × List Resource) :=
  let (ttl, recordClass, rest) := headOf tokens
  match rest with
  | [] => none
  | type :: args => do
    let ttl ← ttl.or context.ttl
    let recordClass ← recordClass.or context.recordClass
    let type ← type.word
    let data ← dataOf context.origin (type.map Char.toUpper) args
    some (⟨context.origin, some owner, some ttl, some recordClass⟩,
      [⟨owner, ttl, recordClass, data⟩])

def readEntry (context : Context) (entry : Entry) : Option (Context × List Resource) :=
  if entry.indented then context.owner.bind fun owner => recordOf context owner entry.tokens
  else
    match entry.tokens with
    | [] => some (context, [])
    | first :: rest =>
      if first.word = some "$ORIGIN".toList then
        match rest with
        | [origin] =>
          (nameOf context.origin origin.letters).map fun name =>
            ({ context with origin := some name }, [])
        | _ => none
      else if first.word = some "$INCLUDE".toList then none
      else (nameOf context.origin first.letters).bind fun owner => recordOf context owner rest

def readEntries (context : Context) : List Entry → Option (List Resource)
  | [] => some []
  | entry :: rest => do
    let (context, records) ← readEntry context entry
    let more ← readEntries context rest
    some (records ++ more)

def readZone (text : Str) : Option (List Resource) :=
  (entriesOf text).bind (readEntries ⟨none, none, none, none⟩)

section Lines

/-- A token as it is written without a backslash. -/
inductive Spelling where
  | word (w : Str)
  | quoted (w : Str)

def plainLetters (w : Str) : List Letter := w.map fun c => ⟨c, false⟩

namespace Spelling

def text : Spelling → Str
  | word w => w
  | quoted w => '"' :: w ++ ['"']

def token : Spelling → Token
  | word w => ⟨.item, plainLetters w⟩
  | quoted w => ⟨.text, plainLetters w⟩

/-- The token is read as it is written. -/
def Plain : Spelling → Prop
  | word w => w ≠ [] ∧ ∀ c ∈ w, c.toNat < 128 ∧ endsItem c = false ∧ c ≠ '"' ∧ c ≠ '\\'
  | quoted w => ∀ c ∈ w, c.toNat < 128 ∧ c ≠ '"' ∧ c ≠ '\\'

end Spelling

variable {w rest : Str} {r : Reading} {tokens : List Token} {entries : List Entry} {c : Char}
  {letters : List Letter} {line : List Spelling}

/-- Between two tokens of an entry. -/
def Reading.gapAt (tokens : List Token) (entries : List Entry) : Reading :=
  ⟨.gap, [], 0, ⟨false, tokens⟩, entries⟩

theorem step_item (hc : c.toNat < 128 ∧ endsItem c = false ∧ c ≠ '"' ∧ c ≠ '\\')
    (hmode : r.mode = .start ∨ r.mode = .gap ∨ r.mode = .within .item) :
    r.step c = some (r.push .item ⟨c, false⟩) := by
  obtain ⟨hascii, hends, hquote, hslash⟩ := hc
  have hends' := hends
  simp only [endsItem, Bool.or_eq_false_iff, decide_eq_false_iff_not] at hends'
  obtain ⟨⟨⟨⟨hblank, hnewline⟩, hcomment⟩, hopen⟩, hclose⟩ := hends'
  have hbetween : r.between c = some (r.push .item ⟨c, false⟩) := by
    rw [Reading.between, if_neg hnewline, if_neg (by rw [hblank]; exact Bool.false_ne_true),
      if_neg hcomment, if_neg hopen, if_neg hclose, if_neg hquote, if_neg hslash]
  rw [Reading.step, if_neg (by omega)]
  rcases hmode with hmode | hmode | hmode
  · rw [hmode]
    exact hbetween
  · rw [hmode]
    exact hbetween
  · rw [hmode]
    dsimp only
    rw [hends, if_neg Bool.false_ne_true, if_neg hslash]

theorem foldlM_item (hmode : r.mode = .start ∨ r.mode = .gap ∨ r.mode = .within .item)
    (hw : ∀ c ∈ w, c.toNat < 128 ∧ endsItem c = false ∧ c ≠ '"' ∧ c ≠ '\\') (hne : w ≠ []) :
    w.foldlM Reading.step r =
      some { r with mode := .within .item, letters := r.letters ++ plainLetters w } := by
  induction w generalizing r with
  | nil => exact absurd rfl hne
  | cons c w ih =>
    rw [List.foldlM_cons, step_item (hw c List.mem_cons_self) hmode]
    cases w with
    | nil => rfl
    | cons d w =>
      simp only [Option.bind_eq_bind, Option.bind_some]
      rw [ih (Or.inr (Or.inr rfl)) (fun e he => hw e (List.mem_cons_of_mem _ he))
        (List.cons_ne_nil _ _)]
      simp [Reading.push, plainLetters]

theorem foldlM_text (hmode : r.mode = .within .text)
    (hw : ∀ c ∈ w, c.toNat < 128 ∧ c ≠ '"' ∧ c ≠ '\\') :
    w.foldlM Reading.step r = some { r with letters := r.letters ++ plainLetters w } := by
  induction w generalizing r with
  | nil => simp [plainLetters]
  | cons c w ih =>
    obtain ⟨hascii, hquote, hslash⟩ := hw c List.mem_cons_self
    have hstep : r.step c = some (r.push .text ⟨c, false⟩) := by
      rw [Reading.step, if_neg (by omega), hmode]
      dsimp only
      rw [if_neg hquote, if_neg hslash]
    rw [List.foldlM_cons, hstep]
    simp only [Option.bind_eq_bind, Option.bind_some]
    rw [ih rfl fun e he => hw e (List.mem_cons_of_mem _ he)]
    simp [Reading.push, plainLetters, hmode]

def Reading.Before (r : Reading) (tokens : List Token) (entries : List Entry) : Prop :=
  r = .gapAt tokens entries ∨ (tokens = [] ∧ r = .at entries)

theorem Reading.Before.fields (h : r.Before tokens entries) :
    (r.mode = .start ∨ r.mode = .gap) ∧ r.letters = [] ∧ r.depth = 0 ∧
      r.entry = ⟨false, tokens⟩ ∧ r.entries = entries := by
  obtain rfl | ⟨rfl, rfl⟩ := h
  · exact ⟨Or.inr rfl, rfl, rfl, rfl, rfl⟩
  · exact ⟨Or.inl rfl, rfl, rfl, rfl, rfl⟩

theorem foldlM_token {sp : Spelling} (hplain : sp.Plain) (h : r.Before tokens entries) {c : Char}
    (hc : c = ' ' ∨ c = '\n') :
    (sp.text ++ [c]).foldlM Reading.step r =
      (Reading.gapAt (tokens ++ [sp.token]) entries).between c := by
  obtain ⟨hmode, hletters, hdepth, hentry, hentries⟩ := h.fields
  rw [List.foldlM_append]
  have hascii : ¬ 128 ≤ c.toNat := by
    rcases hc with rfl | rfl
    · decide
    · decide
  cases sp with
  | word w =>
    have hitem : r.mode = .start ∨ r.mode = .gap ∨ r.mode = .within .item := by
      rcases hmode with hmode | hmode
      · exact Or.inl hmode
      · exact Or.inr (Or.inl hmode)
    have hends : endsItem c = true := by
      rcases hc with rfl | rfl
      · decide
      · decide
    rw [Spelling.text, foldlM_item hitem hplain.2 hplain.1]
    simp only [Option.bind_eq_bind, Option.bind_some, List.foldlM_cons, List.foldlM_nil]
    rw [Reading.step, if_neg hascii]
    dsimp only
    rw [if_pos hends, Reading.close, hletters, hdepth, hentry, hentries, List.nil_append]
    simp [Reading.gapAt, Spelling.token]
  | quoted w =>
    have hopen : r.step '"' = some { r with mode := .within .text } := by
      rw [Reading.step, if_neg (by decide)]
      have hbetween : r.between '"' = some { r with mode := .within .text } := by
        rw [Reading.between, if_neg (by decide), if_neg (by decide), if_neg (by decide),
          if_neg (by decide), if_neg (by decide), if_pos rfl]
      rcases hmode with hmode | hmode
      · rw [hmode]
        exact hbetween
      · rw [hmode]
        exact hbetween
    rw [Spelling.text, List.cons_append, List.foldlM_cons, hopen]
    simp only [Option.bind_eq_bind, Option.bind_some]
    rw [List.foldlM_append, foldlM_text rfl hplain]
    simp only [Option.bind_eq_bind, Option.bind_some, List.foldlM_cons, List.foldlM_nil]
    have hclose : ∀ r : Reading, r.mode = .within .text → r.step '"' = some (r.close .text) := by
      intro r hr
      rw [Reading.step, if_neg (by decide), hr]
      rfl
    have hafter : ∀ r : Reading, r.mode = .gap → r.step c = r.between c := by
      intro r hr
      rw [Reading.step, if_neg hascii, hr]
    have hgap : Reading.close
        { r with mode := .within .text, letters := r.letters ++ plainLetters w } .text =
          .gapAt (tokens ++ [(Spelling.quoted w).token]) entries := by
      rw [Reading.close, hletters, hdepth, hentry, hentries]
      rfl
    rw [hclose _ rfl, hgap]
    show ((Reading.gapAt _ _).step c).bind some = _
    rw [hafter _ rfl, Option.bind_fun_some]

theorem between_space (tokens : List Token) (entries : List Entry) :
    (Reading.gapAt tokens entries).between ' ' = some (Reading.gapAt tokens entries) := rfl

theorem between_newline (hne : tokens ≠ []) (entries : List Entry) :
    (Reading.gapAt tokens entries).between '\n' = some (.at (entries ++ [⟨false, tokens⟩])) := by
  rw [Reading.between, if_pos rfl]
  have hend : (Reading.gapAt tokens entries).endEntry = .at (entries ++ [⟨false, tokens⟩]) :=
    congrArg Reading.at (if_neg hne)
  rw [← hend]
  rfl

def lineText (line : List Spelling) : Str := joinWith [' '] (line.map Spelling.text)

def lineEntry (line : List Spelling) : Entry := ⟨false, line.map Spelling.token⟩

theorem foldlM_line (hline : ∀ sp ∈ line, sp.Plain) (hne : line ≠ [])
    (h : r.Before tokens entries) : (lineText line ++ ['\n']).foldlM Reading.step r =
      some (.at (entries ++ [⟨false, tokens ++ line.map Spelling.token⟩])) := by
  induction line generalizing r tokens with
  | nil => exact absurd rfl hne
  | cons sp line ih =>
    have hplain := hline sp List.mem_cons_self
    cases line with
    | nil =>
      rw [lineText, List.map_singleton, joinWith, foldlM_token hplain h (Or.inr rfl),
        between_newline (by simp)]
      rfl
    | cons sp' line =>
      have htext : lineText (sp :: sp' :: line) ++ ['\n'] =
          (sp.text ++ [' ']) ++ (lineText (sp' :: line) ++ ['\n']) := by
        rw [lineText, List.map_cons, List.map_cons, joinWith_cons_cons]
        simp [lineText]
      rw [htext, List.foldlM_append, foldlM_token hplain h (Or.inl rfl), between_space]
      simp only [Option.bind_eq_bind, Option.bind_some]
      rw [ih (fun sp hsp => hline sp (List.mem_cons_of_mem _ hsp)) (List.cons_ne_nil _ _)
        (Or.inl rfl)]
      simp

theorem foldlM_lines {lines : List (List Spelling)}
    (hlines : ∀ line ∈ lines, line ≠ [] ∧ ∀ sp ∈ line, sp.Plain) (hne : lines ≠ []) :
    (joinWith ['\n'] (lines.map lineText) ++ ['\n']).foldlM Reading.step (.at entries) =
      some (.at (entries ++ lines.map lineEntry)) := by
  induction lines generalizing entries with
  | nil => exact absurd rfl hne
  | cons line lines ih =>
    obtain ⟨hline, hplain⟩ := hlines line List.mem_cons_self
    cases lines with
    | nil =>
      rw [List.map_singleton, joinWith, foldlM_line hplain hline (Or.inr ⟨rfl, rfl⟩)]
      rfl
    | cons line' lines =>
      have htext : joinWith ['\n'] ((line :: line' :: lines).map lineText) ++ ['\n'] =
          (lineText line ++ ['\n']) ++
            (joinWith ['\n'] ((line' :: lines).map lineText) ++ ['\n']) := by
        rw [List.map_cons, List.map_cons, joinWith_cons_cons]
        simp
      rw [htext, List.foldlM_append, foldlM_line hplain hline (Or.inr ⟨rfl, rfl⟩)]
      simp only [Option.bind_eq_bind, Option.bind_some]
      rw [ih (fun line hmem => hlines line (List.mem_cons_of_mem _ hmem))
        (List.cons_ne_nil _ _)]
      simp [lineEntry]

theorem entriesOf_lines {lines : List (List Spelling)}
    (hlines : ∀ line ∈ lines, line ≠ [] ∧ ∀ sp ∈ line, sp.Plain) (hne : lines ≠ []) :
    entriesOf (joinWith ['\n'] (lines.map lineText)) = some (lines.map lineEntry) := by
  have hread : (joinWith ['\n'] (lines.map lineText) ++ ['\n']).foldlM Reading.step (.at []) =
      some (.at ([] ++ lines.map lineEntry)) := foldlM_lines hlines hne
  rw [List.foldlM_append] at hread
  obtain ⟨r, hr, hlast⟩ := Option.bind_eq_some_iff.mp hread
  obtain ⟨r', hstep, hdone⟩ := Option.bind_eq_some_iff.mp hlast
  cases hdone
  rw [entriesOf, hr]
  simp only [Option.bind_eq_bind, Option.bind_some]
  rw [hstep]
  rfl

end Lines

section Names

variable {s : Str} {origin : Option Name}

theorem splitDots_plainLetters (s : Str) : splitDots (plainLetters s) = splitOnChar '.' s := by
  induction s with
  | nil => rfl
  | cons c s ih =>
    show (if (⟨c, false⟩ : Letter) = ⟨'.', false⟩ then [] :: splitDots (plainLetters s)
      else consLine c (splitDots (plainLetters s))) = _
    rw [splitOnChar, ih]
    by_cases hc : c = '.'
    · rw [if_pos (by rw [hc]), if_pos hc]
    · rw [if_neg (fun hbad => hc (Letter.mk.inj hbad).1), if_neg hc]

theorem wireLength_splitOnChar (s : Str) : wireLength (splitOnChar '.' s) = s.length + 2 := by
  have hsum : ((splitOnChar '.' s).map fun label => label.length + 1).sum = s.length + 1 := by
    induction s with
    | nil => rfl
    | cons c s ih =>
      rw [splitOnChar]
      split_ifs
      · rw [List.map_cons, List.sum_cons, ih, List.length_cons, List.length_nil]
        omega
      · obtain ⟨label, labels, hlabels⟩ :=
          List.exists_cons_of_ne_nil (splitOnChar_ne_nil '.' s)
        rw [hlabels] at ih ⊢
        rw [List.map_cons, List.sum_cons] at ih
        rw [consLine, List.map_cons, List.sum_cons, List.length_cons, List.length_cons]
        omega
  rw [wireLength, hsum]

theorem nameOf_absolute (hs : s ≠ []) (origin : Option Name) :
    nameOf origin (plainLetters (s ++ ['.'])) = (some (splitOnChar '.' s)).filter isName := by
  have hlabels : splitDots (plainLetters (s ++ ['.'])) = splitOnChar '.' s ++ [[]] := by
    rw [splitDots_plainLetters, splitOnChar_append]
    rfl
  have hlong : (plainLetters (s ++ ['.'])).length ≠ 1 := by
    rw [plainLetters, List.length_map, List.length_append, List.length_singleton]
    have hpos := List.length_pos_iff.mpr hs
    omega
  rw [nameOf, if_neg fun hbad => hlong (by rw [hbad]; rfl),
    if_neg fun hbad => hlong (by rw [hbad]; rfl), hlabels]
  dsimp only
  rw [List.getLast?_concat, if_pos rfl, List.dropLast_concat]

theorem isName_splitOnChar (s : Str) : isName (splitOnChar '.' s) = true ↔
    (∀ label ∈ splitOnChar '.' s, 0 < label.length ∧ label.length ≤ 63) ∧ s.length ≤ 253 := by
  rw [isName, wireLength_splitOnChar, Bool.and_eq_true, List.all_eq_true]
  simp

theorem dataOf_txt {args : List Token} (hne : args ≠ []) (origin : Option Name) :
    dataOf origin "TXT".toList args = (args.mapM stringOf).map Rdata.txt := by
  unfold dataOf
  rw [if_pos rfl, if_neg hne]

end Names

end MasterFile
end SharedInfra.Dns
