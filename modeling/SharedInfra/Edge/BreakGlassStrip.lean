import SharedInfra.Edge.Caddyfile
import SharedInfra.Python.Splitting
import SharedInfra.Sequences.Pattern
import SharedInfra.Python.IpRoundTrip

/-!
# The break-glass token at the edge

The patterns of `breakGlassStripMatcher` and `logDirective` in `render.ts`, as Caddy matches them:
the expression that strips the token from a request target (`strips`) and the filter that redacts
it in a log field (`redactLog`).  `paramName` is `paramNamePattern` as a pattern.
-/

namespace SharedInfra.Edge

open Python Sequences Pattern

/-- The letters that a letter of a pattern stands for; `(?i)` takes the simple foldings of Unicode,
which add the long s and the Kelvin sign. -/
def exactly (c d : Char) : Bool := d == c

def ignoringCase (c d : Char) : Bool :=
  c.toLower == d.toLower || (c.toLower == 's' && d == 'ſ') || (c.toLower == 'k' && d == '\u212A')

/-- The percent form of a letter, with either hex case of each digit. -/
def percentForm (same : Char → Char → Bool) (c : Char) : Pattern Char :=
  seq (one (same '%')) <| ((Nat.toDigits 16 c.toNat).map Char.toUpper).foldr
      (fun digit rest => seq (one fun d => same digit d || same digit.toLower d) rest) done

def spelledLetter (same : Char → Char → Bool) (c : Char) : Pattern Char :=
  alt (one (same c)) (percentForm same c)

def spelled (same : Char → Char → Bool) (name : Str) : Pattern Char :=
  name.foldr (fun c rest => seq (spelledLetter same c) rest) done

def paramName : Pattern Char := spelled exactly breakGlassParam

/-- The name in the pattern of the log filter. -/
def loggedName : Pattern Char := spelled ignoringCase breakGlassParam

def anything : Pattern Char := star (one fun _ => true)

/-- `hasToken`; `$` is where nothing follows, and a match without it goes on as it likes. -/
def hasToken : Pattern Char :=
  seq (star (one (· != '?'))) <| seq (one (· == '?')) <| seq (fields '&') <|
      seq paramName (alt (seq (one fun c => c == '=' || c == '&') anything) done)

def onGhost : Pattern Char :=
  seq (literal "/ghost".toList) (alt (seq (one fun c => c == '/' || c == '?') anything) done)

def dotForm : Pattern Char :=
  alt (one (· == '.')) (seq (literal ['%', '2']) (one fun c => c == 'E' || c == 'e'))

def dotSegment : Pattern Char :=
  seq (star (one (· != '?'))) (seq dotForm (seq dotForm anything))

/-- The expression of `@break_glass_strip` on the request target. -/
def strips (target : Str) : Bool :=
  hasToken.fullMatch target && (!onGhost.fullMatch target || dotSegment.fullMatch target)

/-- The shortest front of a text that a pattern matches, and what is behind it. -/
def frontMatch (p : Pattern Char) (s : Str) : Option (Str × Str) :=
  (s.inits.find? p.fullMatch).map fun front => (front, s.drop front.length)

def redactedValue : Str := "=REDACTED"

def endsValue (c : Char) : Bool := c == '&' || c == '#'

/-- The matches of the log filter, from the left, each replaced by its group and `=REDACTED`. -/
def redactFrom : Nat → Str → Str
  | 0, s => s
  | _ + 1, [] => []
  | turns + 1, c :: rest =>
    if c = '?' ∨ c = '&' then
      match frontMatch loggedName rest with
      | some (name, after) =>
        c :: (name ++ (redactedValue ++ redactFrom turns (after.dropWhile fun d => !endsValue d)))
      | none => c :: redactFrom turns rest
    else c :: redactFrom turns rest

/-- The `regexp` filter of `logDirective` on a field. -/
def redactLog (field : Str) : Str := redactFrom field.length field

example : redactLog "/ghost/?a=1&BL_break%5Fglass[]=x.y&b=2#c".toList =
    "/ghost/?a=1&BL_break%5Fglass=REDACTED&b=2#c".toList := by decide

/-- A request target: what is before the first question mark, and the pairs behind it. -/
def pathOf (target : Str) : Str := target.takeWhile (· != '?')

def pairsOf (target : Str) : List Str :=
  match target.dropWhile (· != '?') with
  | [] => []
  | _ :: query => splitOnChar '&' query

def pairName (pair : Str) : Str := pair.takeWhile (· != '=')

/-- One percent-decoding, a byte to a character. -/
def decodeOnce : Str → Str
  | '%' :: high :: low :: rest =>
    match hexDigit high, hexDigit low with
    | some h, some l => Char.ofNat (h * 16 + l) :: decodeOnce rest
    | _, _ => '%' :: decodeOnce (high :: low :: rest)
  | c :: rest => c :: decodeOnce rest
  | [] => []

def IsToken (pair : Str) : Prop := decodeOnce (pairName pair) = breakGlassParam

def UnderGhost (path : Str) : Prop := path = "/ghost".toList ∨ "/ghost/".toList <+: path

def IsDot (s : Str) : Prop := s = ['.'] ∨ s = ['%', '2', 'E'] ∨ s = ['%', '2', 'e']

def TwoDots (path : Str) : Prop :=
  ∃ front u v back, path = front ++ (u ++ (v ++ back)) ∧ IsDot u ∧ IsDot v

/-- The strip expression is true exactly of the targets the token is to be stripped from. -/
def StripsRightly (target : Str) : Prop :=
  strips target = true ↔ (∃ pair ∈ pairsOf target, IsToken pair) ∧
    (¬ UnderGhost (pathOf target) ∨ TwoDots (pathOf target))

/-!
# Where the token is stripped

`spelled` matches the percent spellings of a name and no others (`decodeOnce_eq_iff`), so the strip
expression finds the token's name among the pairs of the target: `stripsRightly`.
-/

section Spellings

variable {same : Char → Char → Bool} {c d h l : Char} {s u rest : Str}

/-- How a pattern is to read the letters of a percent form. -/
structure ReadsForms (same : Char → Char → Bool) : Prop where
  percent : ∀ d, same '%' d = true ↔ d = '%'
  digit : ∀ x < 16, ∀ d, (same x.digitChar.toUpper d ||
    same x.digitChar.toUpper.toLower d) = true ↔ hexDigit d = some x

/-- A letter that can stand in a name of ours. -/
def isNameLetter (c : Char) : Bool := c != '%' && 16 ≤ c.toNat && c.toNat < 128

theorem breakGlassParam_letters : ∀ c ∈ breakGlassParam, isNameLetter c = true :=
  List.all_eq_true.mp rfl

theorem hexDigit_eq_iff {x : Nat} (hx : x < 16) :
    hexDigit d = some x ↔ d = x.digitChar.toUpper ∨ d = x.digitChar.toUpper.toLower := by
  constructor
  · intro hd
    have hbound : d.toNat < 128 := by
      rw [hexDigit] at hd
      split_ifs at hd with hdigit hlower hupper
      · have := toNat_of_isDigit hdigit
        omega
      · exact Nat.lt_of_le_of_lt hlower.2 (by decide)
      · exact Nat.lt_of_le_of_lt hupper.2 (by decide)
    have hall : ∀ n < 128, ∀ x < 16, hexDigit (Char.ofNat n) = some x →
        Char.ofNat n = x.digitChar.toUpper ∨ Char.ofNat n = x.digitChar.toUpper.toLower := by
      decide +kernel
    have := hall d.toNat hbound x hx
    rw [Char.ofNat_toNat] at this
    exact this hd
  · have hall : ∀ x < 16, hexDigit x.digitChar.toUpper = some x ∧
        hexDigit x.digitChar.toUpper.toLower = some x := by decide
    rintro (rfl | rfl)
    · exact (hall x hx).1
    · exact (hall x hx).2

theorem readsForms_exactly : ReadsForms exactly where
  percent d := by simp [exactly]
  digit x hx d := by
    rw [hexDigit_eq_iff hx]
    simp [exactly]

theorem mem_percentForm (hsame : ReadsForms same) (hc : isNameLetter c = true) :
    u ∈ (percentForm same c).lang ↔ ∃ h l, u = ['%', h, l] ∧
      hexDigit h = some (c.toNat / 16) ∧ hexDigit l = some (c.toNat % 16) := by
  simp only [isNameLetter, Bool.and_eq_true, decide_eq_true_eq] at hc
  have hdigits : Nat.toDigits 16 c.toNat =
      [(c.toNat / 16).digitChar, (c.toNat % 16).digitChar] := by
    rw [Nat.toDigits_of_base_le (by decide) hc.1.2, Nat.toDigits_of_lt_base (by omega)]
    rfl
  have hhigh := hsame.digit (c.toNat / 16) (by omega)
  have hlow := hsame.digit (c.toNat % 16) (by omega)
  rw [percentForm, hdigits]
  simp only [List.map_cons, List.map_nil, List.foldr_cons, List.foldr_nil, mem_seq, mem_one,
    mem_done, hsame.percent, hhigh, hlow]
  constructor
  · rintro ⟨_, ⟨p, rfl, rfl⟩, _, ⟨_, ⟨h, hh, rfl⟩, _, ⟨_, ⟨l, hl, rfl⟩, _, rfl, rfl⟩, rfl⟩, rfl⟩
    exact ⟨h, l, rfl, hh, hl⟩
  · rintro ⟨h, l, rfl, hh, hl⟩
    exact ⟨['%'], ⟨'%', rfl, rfl⟩, [h, l],
      ⟨[h], ⟨h, hh, rfl⟩, [l], ⟨[l], ⟨l, hl, rfl⟩, [], rfl, rfl⟩, rfl⟩, rfl⟩

theorem mem_spelledLetter (hsame : ReadsForms same) (hc : isNameLetter c = true) :
    u ∈ (spelledLetter same c).lang ↔ (∃ d, same c d = true ∧ u = [d]) ∨ ∃ h l, u = ['%', h, l] ∧
      hexDigit h = some (c.toNat / 16) ∧ hexDigit l = some (c.toNat % 16) := by
  rw [spelledLetter, mem_alt, mem_percentForm hsame hc, mem_one]

theorem letters_of_spelled {name : Str} (hsame : ReadsForms same)
    (hname : ∀ c ∈ name, isNameLetter c = true) (hu : u ∈ (spelled same name).lang) :
    ∀ d ∈ u, d = '%' ∨ (hexDigit d).isSome = true ∨ ∃ c ∈ name, same c d = true := by
  induction name generalizing u with
  | nil =>
    rw [spelled, List.foldr_nil, mem_done] at hu
    simp [hu]
  | cons c name ih =>
    obtain ⟨hc, hname⟩ := List.forall_mem_cons.mp hname
    rw [spelled, List.foldr_cons, mem_seq] at hu
    obtain ⟨v, hv, w, hw, rfl⟩ := hu
    intro d hd
    rcases List.mem_append.mp hd with hd | hd
    · rcases (mem_spelledLetter hsame hc).mp hv with ⟨e, he, rfl⟩ | ⟨h, l, rfl, hh, hl⟩
      · rw [List.mem_singleton.mp hd]
        exact Or.inr (Or.inr ⟨c, List.mem_cons_self, he⟩)
      · simp only [List.mem_cons, List.not_mem_nil, or_false] at hd
        rcases hd with rfl | rfl | rfl
        · exact Or.inl rfl
        · exact Or.inr (Or.inl (by simp [hh]))
        · exact Or.inr (Or.inl (by simp [hl]))
    · rcases ih hname hw d hd with h | h | ⟨e, he, hsame⟩
      · exact Or.inl h
      · exact Or.inr (Or.inl h)
      · exact Or.inr (Or.inr ⟨e, List.mem_cons_of_mem c he, hsame⟩)

def separators : Str := ['?', '&', '=', '#']

theorem not_mem_of_spelled (hsame : ReadsForms same)
    (hother : (separators.all fun d => breakGlassParam.all fun c => !same c d) = true)
    (hu : u ∈ (spelled same breakGlassParam).lang) (hd : d ∈ separators) : d ∉ u := by
  intro hmem
  have hplain : (separators.all fun d => d != '%' && !(hexDigit d).isSome) = true := rfl
  have hd' := List.all_eq_true.mp hplain d hd
  rw [Bool.and_eq_true, bne_iff_ne, Bool.not_eq_true'] at hd'
  rcases letters_of_spelled hsame breakGlassParam_letters hu d hmem with h | h | ⟨c, hc, h⟩
  · exact hd'.1 h
  · exact Bool.false_ne_true (hd'.2.symm.trans h)
  · have := List.all_eq_true.mp (List.all_eq_true.mp hother d hd) c hc
    rw [h] at this
    cases this

end Spellings

section Decoding

variable {c d h l : Char} {s name rest : Str}

theorem decodeOnce_plain (hc : c ≠ '%') : decodeOnce (c :: rest) = c :: decodeOnce rest := by
  rw [decodeOnce]
  rintro _ _ _ rfl
  exact absurd rfl hc

theorem decodeOnce_form {x y : Nat} (hh : hexDigit h = some x) (hl : hexDigit l = some y) :
    decodeOnce ('%' :: h :: l :: rest) = Char.ofNat (x * 16 + y) :: decodeOnce rest := by
  rw [decodeOnce, hh, hl]

theorem decodeOnce_eq_cons (hc : isNameLetter c = true) :
    decodeOnce s = c :: name ↔
      ∃ u ∈ (spelledLetter exactly c).lang, ∃ v, u ++ v = s ∧ decodeOnce v = name := by
  have hne : c ≠ '%' := by
    rintro rfl
    cases hc
  simp only [mem_spelledLetter readsForms_exactly hc, exactly, beq_iff_eq]
  constructor
  · intro hs
    cases s with
    | nil => cases hs
    | cons d rest =>
      by_cases hd : d = '%'
      · subst hd
        cases rest with
        | nil => exact absurd (List.cons.inj hs).1.symm hne
        | cons h rest =>
          cases rest with
          | nil => exact absurd (List.cons.inj hs).1.symm hne
          | cons l rest =>
            rw [decodeOnce] at hs
            split at hs
            next x y hh hl =>
              obtain ⟨hx, hrest⟩ := List.cons.inj hs
              have hxlt := hexDigit_lt hh
              have hylt := hexDigit_lt hl
              have hvalue : c.toNat = x * 16 + y := by
                rw [← hx, Char.toNat_ofNat, if_pos]
                exact Or.inl (by omega)
              refine ⟨['%', h, l], Or.inr ⟨h, l, rfl, ?_, ?_⟩, rest, rfl, hrest⟩
              · rw [hh, hvalue]
                congr 1
                omega
              · rw [hl, hvalue]
                congr 1
                omega
            next => exact absurd (List.cons.inj hs).1.symm hne
      · rw [decodeOnce_plain hd] at hs
        obtain ⟨rfl, hrest⟩ := List.cons.inj hs
        exact ⟨[d], Or.inl ⟨d, rfl, rfl⟩, rest, rfl, hrest⟩
  · rintro ⟨_, ⟨d, rfl, rfl⟩ | ⟨h, l, rfl, hh, hl⟩, v, rfl, rfl⟩
    · exact decodeOnce_plain hne
    · rw [List.cons_append, List.cons_append, List.cons_append, List.nil_append,
        decodeOnce_form hh hl, Nat.div_add_mod' c.toNat 16, Char.ofNat_toNat]

theorem decodeOnce_eq_iff (hname : ∀ c ∈ name, isNameLetter c = true) :
    decodeOnce s = name ↔ s ∈ (spelled exactly name).lang := by
  induction name generalizing s with
  | nil =>
    rw [spelled, List.foldr_nil, mem_done]
    constructor
    · intro hs
      match s, hs with
      | [], _ => rfl
      | d :: rest, hs =>
        rw [decodeOnce.eq_def] at hs
        split at hs
        next => split at hs <;> cases hs
        next => cases hs
        next h => cases h
    · rintro rfl
      rfl
  | cons c name ih =>
    obtain ⟨hc, hname⟩ := List.forall_mem_cons.mp hname
    rw [decodeOnce_eq_cons hc, spelled, List.foldr_cons, mem_seq]
    constructor
    · rintro ⟨u, hu, v, huv, hv⟩
      exact ⟨u, hu, v, (ih hname).mp hv, huv⟩
    · rintro ⟨u, hu, v, hv, huv⟩
      exact ⟨u, hu, v, huv, (ih hname).mpr hv⟩

theorem isToken_iff : IsToken s ↔ pairName s ∈ paramName.lang :=
  decodeOnce_eq_iff breakGlassParam_letters

end Decoding

section Pairs

variable {sep : Char} {s piece path query name target : Str}

theorem mem_splitOnChar_iff : piece ∈ splitOnChar sep s ↔ sep ∉ piece ∧
    ∃ front back, s = front ++ (piece ++ back) ∧ (front = [] ∨ ∃ f, front = f ++ [sep]) ∧
      (back = [] ∨ ∃ b, back = sep :: b) := by
  constructor
  · intro hpiece
    refine ⟨not_mem_of_mem_splitOnChar piece hpiece, ?_⟩
    induction hn : s.length using Nat.strong_induction_on generalizing s with
    | _ n ih =>
      by_cases hmem : sep ∈ s
      · obtain ⟨first, rest, rfl, hfirst⟩ := List.eq_append_cons_of_mem hmem
        rw [splitOnChar_append, splitOnChar_of_not_mem hfirst, List.singleton_append,
          List.mem_cons] at hpiece
        rcases hpiece with rfl | hpiece
        · exact ⟨[], sep :: rest, rfl, Or.inl rfl, Or.inr ⟨rest, rfl⟩⟩
        · have hlt : rest.length < n := by
            rw [← hn, List.length_append, List.length_cons]
            omega
          obtain ⟨front, back, rfl, hfront, hback⟩ := ih _ hlt hpiece rfl
          refine ⟨first ++ sep :: front, back, by simp, Or.inr ?_, hback⟩
          rcases hfront with rfl | ⟨f, rfl⟩
          · exact ⟨first, rfl⟩
          · exact ⟨first ++ sep :: f, by simp⟩
      · rw [splitOnChar_of_not_mem hmem, List.mem_singleton] at hpiece
        exact ⟨[], [], by simp [hpiece], Or.inl rfl, Or.inl rfl⟩
  · rintro ⟨hsep, front, back, rfl, hfront, hback⟩
    have hbehind : piece ∈ splitOnChar sep (piece ++ back) := by
      rcases hback with rfl | ⟨b, rfl⟩
      · rw [List.append_nil, splitOnChar_of_not_mem hsep]
        exact List.mem_singleton_self piece
      · rw [splitOnChar_append, splitOnChar_of_not_mem hsep]
        exact List.mem_cons_self
    rcases hfront with rfl | ⟨f, rfl⟩
    · exact hbehind
    · rw [List.append_assoc, List.singleton_append, splitOnChar_append]
      exact List.mem_append_right _ hbehind

theorem pathOf_append (hpath : '?' ∉ path) : pathOf (path ++ '?' :: query) = path := by
  have hall : ∀ c ∈ path, (c != '?') = true := by
    intro c hc
    rw [bne_iff_ne]
    rintro rfl
    exact hpath hc
  rw [pathOf, List.takeWhile_append_of_pos hall]
  simp

theorem pairsOf_append (hpath : '?' ∉ path) :
    pairsOf (path ++ '?' :: query) = splitOnChar '&' query := by
  have hall : ∀ c ∈ path, (c != '?') = true := by
    intro c hc
    rw [bne_iff_ne]
    rintro rfl
    exact hpath hc
  rw [pairsOf, List.dropWhile_append_of_pos hall]
  simp

theorem pairsOf_none (htarget : '?' ∉ target) : pairsOf target = [] := by
  have hdrop : target.dropWhile (· != '?') = [] := by
    rw [List.dropWhile_eq_nil_iff]
    intro c hc
    rw [bne_iff_ne]
    rintro rfl
    exact htarget hc
  rw [pairsOf, hdrop]

theorem pairName_eq_iff (hname : '=' ∉ name) {pair : Str} : pairName pair = name ↔
    ∃ value, pair = name ++ value ∧ (value = [] ∨ ∃ v, value = '=' :: v) := by
  constructor
  · rintro rfl
    refine ⟨pair.dropWhile (· != '='), List.takeWhile_append_dropWhile.symm, ?_⟩
    cases hdrop : pair.dropWhile (· != '=') with
    | nil => exact Or.inl rfl
    | cons c v =>
      have hc := List.head?_dropWhile_not (· != '=') pair
      rw [hdrop] at hc
      obtain rfl : c = '=' := by simpa using hc
      exact Or.inr ⟨v, rfl⟩
  · have hall : ∀ c ∈ name, (c != '=') = true := by
      intro c hc
      rw [bne_iff_ne]
      rintro rfl
      exact hname hc
    rintro ⟨value, rfl, rfl | ⟨v, rfl⟩⟩
    · rw [List.append_nil, pairName, List.takeWhile_eq_self_iff]
      exact hall
    · rw [pairName, List.takeWhile_append_of_pos hall]
      simp

end Pairs

section Expression

variable {s path query name target : Str}

theorem mem_anything : s ∈ anything.lang ↔ True := by
  simp [anything, mem_star_one]

theorem not_mem_paramName {c : Char} (hc : c ∈ separators) (hname : name ∈ paramName.lang) :
    c ∉ name := not_mem_of_spelled readsForms_exactly rfl hname hc

theorem mem_hasToken : target ∈ hasToken.lang ↔ ∃ path front name back,
    target = path ++ '?' :: (front ++ (name ++ back)) ∧ '?' ∉ path ∧
      (front = [] ∨ ∃ f, front = f ++ ['&']) ∧ name ∈ paramName.lang ∧
      (back = [] ∨ ∃ c b, back = c :: b ∧ (c = '=' ∨ c = '&')) := by
  simp only [hasToken, mem_seq, mem_star_one, mem_one, mem_fields, mem_alt, mem_done, mem_anything,
    bne_iff_ne, beq_iff_eq, Bool.or_eq_true]
  constructor
  · rintro ⟨path, hpath, _, ⟨_, ⟨_, rfl, rfl⟩, _, ⟨front, hfront, _,
      ⟨name, hname, back, hback, rfl⟩, rfl⟩, rfl⟩, rfl⟩
    refine ⟨path, front, name, back, rfl, fun hmem => hpath _ hmem rfl, hfront, hname, ?_⟩
    rcases hback with ⟨_, ⟨c, hc, rfl⟩, b, -, rfl⟩ | rfl
    · exact Or.inr ⟨c, b, rfl, hc⟩
    · exact Or.inl rfl
  · rintro ⟨path, front, name, back, rfl, hpath, hfront, hname, hback⟩
    refine ⟨path, fun c hc heq => hpath (heq ▸ hc), _, ⟨['?'], ⟨'?', rfl, rfl⟩, _,
      ⟨front, hfront, _, ⟨name, hname, back, ?_, rfl⟩, rfl⟩, rfl⟩, rfl⟩
    rcases hback with rfl | ⟨c, b, rfl, hc⟩
    · exact Or.inr rfl
    · exact Or.inl ⟨[c], ⟨c, hc, rfl⟩, b, trivial, rfl⟩

theorem token_mem_iff : (∃ pair ∈ splitOnChar '&' query, IsToken pair) ↔
    ∃ front name back, query = front ++ (name ++ back) ∧
      (front = [] ∨ ∃ f, front = f ++ ['&']) ∧ name ∈ paramName.lang ∧
      (back = [] ∨ ∃ c b, back = c :: b ∧ (c = '=' ∨ c = '&')) := by
  constructor
  · rintro ⟨pair, hpair, htoken⟩
    obtain ⟨-, front, back, rfl, hfront, hback⟩ := mem_splitOnChar_iff.mp hpair
    have hname := isToken_iff.mp htoken
    obtain ⟨value, hsplit, hvalue⟩ :=
      (pairName_eq_iff (not_mem_paramName (by decide) hname)).mp (rfl : pairName pair = _)
    refine ⟨front, pairName pair, value ++ back, ?_, hfront, hname, ?_⟩
    · rw [← List.append_assoc (pairName pair), ← hsplit]
    · rcases hvalue with rfl | ⟨v, rfl⟩
      · exact hback.imp_right fun ⟨b, hb⟩ => ⟨'&', b, hb, Or.inr rfl⟩
      · exact Or.inr ⟨'=', v ++ back, rfl, Or.inl rfl⟩
  · rintro ⟨front, name, back, rfl, hfront, hname, hback⟩
    have hamp : '&' ∉ name := not_mem_paramName (by decide) hname
    have heq : '=' ∉ name := not_mem_paramName (by decide) hname
    -- the value is what stands before the next separator
    have hvalue : ∃ value rest, back = value ++ rest ∧ '&' ∉ value ∧
        (value = [] ∨ ∃ v, value = '=' :: v) ∧ (rest = [] ∨ ∃ b, rest = '&' :: b) := by
      rcases hback with rfl | ⟨c, b, rfl, rfl | rfl⟩
      · exact ⟨[], [], rfl, by simp, Or.inl rfl, Or.inl rfl⟩
      · by_cases hmem : '&' ∈ b
        · obtain ⟨v, rest, rfl, hv⟩ := List.eq_append_cons_of_mem hmem
          exact ⟨'=' :: v, '&' :: rest, rfl, by simp [hv], Or.inr ⟨v, rfl⟩, Or.inr ⟨rest, rfl⟩⟩
        · exact ⟨'=' :: b, [], by simp, by simp [hmem], Or.inr ⟨b, rfl⟩, Or.inl rfl⟩
      · exact ⟨[], '&' :: b, rfl, by simp, Or.inl rfl, Or.inr ⟨b, rfl⟩⟩
    obtain ⟨value, rest, rfl, hclean, hvalue, hrest⟩ := hvalue
    refine ⟨name ++ value, mem_splitOnChar_iff.mpr ⟨by simp [hamp, hclean], front, rest, by simp,
      hfront, hrest⟩, isToken_iff.mpr ?_⟩
    rw [(pairName_eq_iff heq).mpr ⟨value, rfl, hvalue⟩]
    exact hname

theorem hasToken_iff :
    hasToken.fullMatch target = true ↔ ∃ pair ∈ pairsOf target, IsToken pair := by
  rw [fullMatch_iff, mem_hasToken]
  by_cases hmem : '?' ∈ target
  · obtain ⟨path, query, rfl, hpath⟩ := List.eq_append_cons_of_mem hmem
    rw [pairsOf_append hpath, token_mem_iff]
    constructor
    · rintro ⟨path', front, name, back, heq, hpath', h⟩
      have hsame : path = path' ∧ query = front ++ (name ++ back) := by
        have hpaths := congrArg pathOf heq
        rw [pathOf_append hpath, pathOf_append hpath'] at hpaths
        subst hpaths
        exact ⟨rfl, (List.cons.inj (List.append_cancel_left heq)).2⟩
      exact ⟨front, name, back, hsame.2, h⟩
    · rintro ⟨front, name, back, rfl, h⟩
      exact ⟨path, front, name, back, rfl, hpath, h⟩
  · rw [pairsOf_none hmem]
    constructor
    · rintro ⟨path, front, name, back, rfl, -⟩
      simp at hmem
    · simp

theorem onGhost_iff : onGhost.fullMatch target = true ↔ UnderGhost (pathOf target) := by
  rw [fullMatch_iff]
  simp only [onGhost, mem_seq, mem_literal, mem_alt, mem_one, mem_anything, mem_done, UnderGhost,
    Bool.or_eq_true, beq_iff_eq]
  have hghost : ∀ c ∈ "/ghost".toList, (c != '?') = true := List.all_eq_true.mp rfl
  have hpath : pathOf target <+: target := List.takeWhile_prefix _
  constructor
  · rintro ⟨_, rfl, _, ⟨_, ⟨c, rfl | rfl, rfl⟩, b, -, rfl⟩ | rfl, rfl⟩
    · right
      rw [pathOf, List.takeWhile_append_of_pos hghost]
      exact ⟨b.takeWhile (· != '?'), by simp⟩
    · left
      rw [pathOf, List.takeWhile_append_of_pos hghost]
      simp
    · left
      rfl
  · rintro (heq | hbelow)
    · obtain ⟨rest, rfl⟩ : "/ghost".toList <+: target := heq ▸ hpath
      refine ⟨_, rfl, rest, ?_, rfl⟩
      rw [pathOf, List.takeWhile_append_of_pos hghost] at heq
      replace heq := List.append_cancel_left (heq.trans (List.append_nil _).symm)
      cases rest with
      | nil => exact Or.inr rfl
      | cons c b =>
        refine Or.inl ⟨[c], ⟨c, Or.inr ?_, rfl⟩, b, trivial, rfl⟩
        by_contra hc
        rw [List.takeWhile_cons_of_pos (by simpa using hc)] at heq
        cases heq
    · obtain ⟨b, rfl⟩ := hbelow.trans hpath
      exact ⟨_, rfl, '/' :: b, Or.inl ⟨['/'], ⟨'/', Or.inl rfl, rfl⟩, b, trivial, rfl⟩, rfl⟩

theorem mem_dotForm : s ∈ dotForm.lang ↔ IsDot s := by
  simp only [dotForm, mem_alt, mem_one, mem_seq, mem_literal, IsDot, beq_iff_eq, Bool.or_eq_true]
  constructor
  · rintro (⟨c, rfl, rfl⟩ | ⟨_, rfl, _, ⟨c, rfl | rfl, rfl⟩, rfl⟩)
    · exact Or.inl rfl
    · exact Or.inr (Or.inl rfl)
    · exact Or.inr (Or.inr rfl)
  · rintro (rfl | rfl | rfl)
    · exact Or.inl ⟨'.', rfl, rfl⟩
    · exact Or.inr ⟨_, rfl, ['E'], ⟨'E', Or.inl rfl, rfl⟩, rfl⟩
    · exact Or.inr ⟨_, rfl, ['e'], ⟨'e', Or.inr rfl, rfl⟩, rfl⟩

theorem not_mem_of_isDot (h : IsDot s) : '?' ∉ s := by
  rcases h with rfl | rfl | rfl <;> decide

theorem dotSegment_iff : dotSegment.fullMatch target = true ↔ TwoDots (pathOf target) := by
  rw [fullMatch_iff]
  simp only [dotSegment, mem_seq, mem_star_one, mem_dotForm, mem_anything, TwoDots, bne_iff_ne]
  constructor
  · rintro ⟨front, hfront, _, ⟨u, hu, _, ⟨v, hv, back, -, rfl⟩, rfl⟩, rfl⟩
    refine ⟨front, u, v, back.takeWhile (· != '?'), ?_, hu, hv⟩
    have hall : ∀ c ∈ front ++ (u ++ v), (c != '?') = true := by
      intro c hc
      rw [bne_iff_ne]
      rintro rfl
      rcases List.mem_append.mp hc with hc | hc
      · exact hfront _ hc rfl
      · rcases List.mem_append.mp hc with hc | hc
        · exact not_mem_of_isDot hu hc
        · exact not_mem_of_isDot hv hc
    have hsplit : front ++ (u ++ (v ++ back)) = (front ++ (u ++ v)) ++ back := by simp
    rw [hsplit, pathOf, List.takeWhile_append_of_pos hall]
    simp
  · rintro ⟨front, u, v, back, hpath, hu, hv⟩
    have htarget : target = pathOf target ++ target.dropWhile (· != '?') :=
      List.takeWhile_append_dropWhile.symm
    refine ⟨front, fun c hc => ?_, u ++ (v ++ (back ++ target.dropWhile (· != '?'))),
      ⟨u, hu, _, ⟨v, hv, _, trivial, rfl⟩, rfl⟩, ?_⟩
    · have hmem : c ∈ pathOf target := hpath ▸ List.mem_append_left _ hc
      simpa using List.mem_takeWhile_imp hmem
    · conv_rhs => rw [htarget, hpath]
      simp

theorem stripsRightly (target : Str) : StripsRightly target := by
  rw [StripsRightly, strips, Bool.and_eq_true, Bool.or_eq_true, Bool.not_eq_true', hasToken_iff,
    dotSegment_iff, ← Bool.not_eq_true, onGhost_iff]

end Expression

end SharedInfra.Edge
