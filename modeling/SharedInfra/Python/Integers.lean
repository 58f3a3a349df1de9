import SharedInfra.Python.Lines

/-!
# Decimal digits and `int`

The characters `\d` takes in a pattern over text, their values, and `int` of a
run of them, which the interpreter refuses beyond `maxStrDigits` digits.
-/

namespace SharedInfra.Python

/-- The zeros of the decimal digits of Unicode 15; the other nine digits follow each. -/
def digitZeros : List Nat :=
  [0x30, 0x660, 0x6f0, 0x7c0, 0x966, 0x9e6, 0xa66, 0xae6, 0xb66, 0xbe6, 0xc66, 0xce6, 0xd66, 0xde6,
    0xe50, 0xed0, 0xf20, 0x1040, 0x1090, 0x17e0, 0x1810, 0x1946, 0x19d0, 0x1a80, 0x1a90, 0x1b50,
    0x1bb0, 0x1c40, 0x1c50, 0xa620, 0xa8d0, 0xa900, 0xa9d0, 0xa9f0, 0xaa50, 0xabf0, 0xff10, 0x104a0,
    0x10d30, 0x11066, 0x110f0, 0x11136, 0x111d0, 0x112f0, 0x11450, 0x114d0, 0x11650, 0x116c0,
    0x11730, 0x118e0, 0x11950, 0x11c50, 0x11d50, 0x11da0, 0x11f50, 0x16a60, 0x16ac0, 0x16b50,
    0x1d7ce, 0x1d7d8, 0x1d7e2, 0x1d7ec, 0x1d7f6, 0x1e140, 0x1e2f0, 0x1e4f0, 0x1e950, 0x1fbf0]

def digitValue (c : Char) : Option Nat :=
  (digitZeros.find? fun z => decide (z ≤ c.toNat ∧ c.toNat < z + 10)).map (c.toNat - ·)

/-- `str.isdecimal` of one character, which is what `\d` takes. -/
def isDecimal (c : Char) : Bool := (digitValue c).isSome

/-- `sys.int_info.default_max_str_digits`. -/
def maxStrDigits : Nat := 4300

/-- `str(n)` of an integer. -/
def intText (n : Int) : Str := if n < 0 then '-' :: decimal n.natAbs else decimal n.natAbs

/-- `int(text)` for a run of digits; `none` is a `ValueError`. -/
def intOfDigits (text : Str) : Option Nat :=
  if text = [] ∨ maxStrDigits < text.length then none
  else do
    let values ← text.mapM digitValue
    some (values.foldl (fun n d => 10 * n + d) 0)

theorem digitValue_of_isDigit {c : Char} (h : c.isDigit = true) :
    digitValue c = some (c.toNat - 48) := by
  obtain ⟨hlo, hhi⟩ := toNat_of_isDigit h
  have hzero : digitZeros.find? (fun z => decide (z ≤ c.toNat ∧ c.toNat < z + 10)) = some 0x30 := by
    rw [digitZeros, List.find?_cons_of_pos]
    exact decide_eq_true ⟨hlo, Nat.lt_succ_of_le hhi⟩
  rw [digitValue, hzero]
  rfl

theorem isDecimal_of_isDigit {c : Char} (h : c.isDigit = true) : isDecimal c = true := by
  rw [isDecimal, digitValue_of_isDigit h]
  rfl

theorem isDecimal_of_mem_decimal {n : Nat} {c : Char} (h : c ∈ decimal n) : isDecimal c = true :=
  isDecimal_of_isDigit (Nat.isDigit_of_mem_toDigits (by decide) (by decide) h)

theorem mapM_digitValue {text : Str} (h : ∀ c ∈ text, c.isDigit = true) :
    text.mapM digitValue = some (text.map fun c => c.toNat - 48) := by
  induction text with
  | nil => rfl
  | cons c text ih =>
    obtain ⟨hc, htext⟩ := List.forall_mem_cons.mp h
    rw [List.mapM_cons, digitValue_of_isDigit hc, ih htext]
    rfl

theorem intOfDigits_decimal {n : Nat} (h : (decimal n).length ≤ maxStrDigits) :
    intOfDigits (decimal n) = some n := by
  have hdigits : ∀ c ∈ decimal n, c.isDigit = true := fun _ hc =>
    Nat.isDigit_of_mem_toDigits (by decide) (by decide) hc
  have hne : decimal n ≠ [] := Nat.toDigits_ne_nil
  rw [intOfDigits, if_neg (not_or.mpr ⟨hne, Nat.not_lt.mpr h⟩), mapM_digitValue hdigits]
  have hread : Nat.ofDigitChars 10 (decimal n) 0 = n :=
    Nat.ofDigitChars_toDigits (by decide) (by decide)
  rw [Nat.ofDigitChars_eq_foldl] at hread
  simpa [List.foldl_map] using hread

theorem intOfDigits_long {text : Str} (h : maxStrDigits < text.length) : intOfDigits text = none :=
  if_pos (Or.inr h)

/-!
# Characters beyond ASCII

`str.isdigit`, which takes more than the decimal digits `int` reads, and the two
tables that follow the Unicode version of the interpreter: which characters are
printable and how a text is lowered.  Of these a `CharTables` keeps what every
version says of ASCII and of the digits.
-/

/-- The ranges of the digits that are not decimal: superscripts, subscripts, circled ones. -/
def otherDigits : List (Nat × Nat) :=
  [(0xb2, 0xb3), (0xb9, 0xb9), (0x1369, 0x1371), (0x19da, 0x19da), (0x2070, 0x2070),
    (0x2074, 0x2079), (0x2080, 0x2089), (0x2460, 0x2468), (0x2474, 0x247c), (0x2488, 0x2490),
    (0x24ea, 0x24ea), (0x24f5, 0x24fd), (0x24ff, 0x24ff), (0x2776, 0x277e), (0x2780, 0x2788),
    (0x278a, 0x2792), (0x10a40, 0x10a43), (0x10e60, 0x10e68), (0x11052, 0x1105a),
    (0x1f100, 0x1f10a)]

/-- `str.isdigit` of one character. -/
def isDigitChar (c : Char) : Bool :=
  isDecimal c || otherDigits.any fun range => decide (range.1 ≤ c.toNat ∧ c.toNat ≤ range.2)

/-- `str.isdigit`. -/
def isDigits (s : Str) : Bool := !s.isEmpty && s.all isDigitChar

/-- `str.isascii`. -/
def isAscii (s : Str) : Bool := s.all fun c => decide (c.toNat < 128)

/-- An ASCII character that prints, the space included. -/
def isPrintableAscii (c : Char) : Bool := decide (32 ≤ c.toNat ∧ c.toNat < 127)

/-- `str.isprintable` of a character and `str.lower`, as far as every version agrees. -/
structure CharTables where
  isPrintable : Char → Bool
  lower : Str → Str
  isPrintable_ascii : ∀ c, c.toNat < 128 → isPrintable c = isPrintableAscii c
  isPrintable_digit : ∀ c, isDigitChar c = true → isPrintable c = true
  lower_plain : ∀ s, (∀ c ∈ s, c.toNat < 128 ∨ isDigitChar c = true) → lower s = s.map Char.toLower

theorem ascii_cases {p : Char → Prop} (h : ∀ n < 128, p (Char.ofNat n)) {c : Char}
    (hc : c.toNat < 128) : p c := by
  have := h c.toNat hc
  rwa [Char.ofNat_toNat] at this

theorem isDigitChar_ascii {c : Char} (h : c.toNat < 128) : isDigitChar c = c.isDigit :=
  ascii_cases (p := fun c => isDigitChar c = c.isDigit) (by decide) h

/-- Tables that print every character beyond ASCII and lower no letter there. -/
def latinTables : CharTables where
  isPrintable c := if c.toNat < 128 then isPrintableAscii c else true
  lower s := s.map Char.toLower
  isPrintable_ascii _ h := if_pos h
  isPrintable_digit c h := by
    by_cases hascii : c.toNat < 128
    · rw [isDigitChar_ascii hascii] at h
      have := toNat_of_isDigit h
      rw [if_pos hascii, isPrintableAscii, decide_eq_true_eq]
      omega
    · exact if_neg hascii
  lower_plain _ _ := rfl

end SharedInfra.Python
