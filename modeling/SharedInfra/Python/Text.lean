import Mathlib

/-!
# Python text

The parts of Python's `str` the modelled programs rely on, over lists of
characters: `splitlines`, `split` with and without a separator, `strip`,
`removesuffix` and the universal-newline translation of text-mode reads.

`splitlines` breaks at more characters than the newline (`isLineBreak`), which
several of the programs do not allow for.  `newlineLines` is the reading of a
program that splits at the newline only, and `splitlines_eq_newlineLines` says
when the two agree.
-/

namespace SharedInfra.Python

/-- A Python `str` as its characters. -/
abbrev Str := List Char

theorem toList_literal (l : Str) : String.toList (no_index (String.ofList l)) = l :=
  String.toList_ofList

instance : Coe String Str := ⟨String.toList⟩

instance instLawfulBEqStr : LawfulBEq Str := inferInstance

/-- The characters `str.isspace` accepts, which `split()` and `strip()` use. -/
def isSpace (c : Char) : Bool :=
  let n := c.toNat
  (9 ≤ n && n ≤ 13) || (28 ≤ n && n ≤ 32) || n == 0x85 || n == 0xa0 || n == 0x1680 ||
    (0x2000 ≤ n && n ≤ 0x200a) || n == 0x2028 || n == 0x2029 || n == 0x202f ||
    n == 0x205f || n == 0x3000

/-- The characters `str.splitlines` ends a line at. -/
def isLineBreak (c : Char) : Bool :=
  let n := c.toNat
  (10 ≤ n && n ≤ 13) || (28 ≤ n && n ≤ 30) || n == 0x85 || n == 0x2028 || n == 0x2029

/-- Put one character in front of the first line. -/
def consLine (c : Char) : List Str → List Str
  | [] => [[c]]
  | l :: ls => (c :: l) :: ls

/-- `str.splitlines()`: a carriage return and newline pair counts once. -/
def splitlines : Str → List Str
  | [] => []
  | '\r' :: '\n' :: rest => [] :: splitlines rest
  | c :: rest =>
    if isLineBreak c then [] :: splitlines rest
    else consLine c (splitlines rest)

def newlineLines : Str → List Str
  | [] => []
  | c :: rest =>
    if c = '\n' then [] :: newlineLines rest
    else consLine c (newlineLines rest)

/-- `"".join(f"{line}\n" for line in lines)`. -/
def unlines : List Str → Str
  | [] => []
  | l :: ls => l ++ '\n' :: unlines ls

/-- `str.split()`: the maximal runs of characters that are not white space. -/
def splitWords : Str → List Str
  | [] => []
  | c :: rest =>
    if isSpace c then splitWords rest
    else match rest with
      | [] => [[c]]
      | d :: _ => if isSpace d then [c] :: splitWords rest else consLine c (splitWords rest)

/-- `str.split(sep)` for a one-character separator. -/
def splitOnChar (sep : Char) : Str → List Str
  | [] => [[]]
  | c :: rest =>
    if c = sep then [] :: splitOnChar sep rest
    else consLine c (splitOnChar sep rest)

theorem splitOnChar_ne_nil (sep : Char) (s : Str) : splitOnChar sep s ≠ [] := by
  cases s with
  | nil => simp [splitOnChar]
  | cons c cs =>
    rw [splitOnChar]
    split_ifs
    · simp
    · cases splitOnChar sep cs <;> simp [consLine]

/-- `str.lstrip()`. -/
def lstrip (s : Str) : Str := s.dropWhile isSpace

/-- `str.rstrip()`. -/
def rstrip (s : Str) : Str := s.rdropWhile isSpace

/-- `str.strip()`. -/
def strip (s : Str) : Str := rstrip (lstrip s)

/-- `str.startswith`. -/
def startsWith (s p : Str) : Bool := p.isPrefixOf s

/-- `str.endswith`. -/
def endsWith (s p : Str) : Bool := p.isSuffixOf s

/-- `str.removesuffix`. -/
def removeSuffix (s p : Str) : Str :=
  if endsWith s p then s.take (s.length - p.length) else s

/-- `sep.join(words)`. -/
def joinWith (sep : Str) : List Str → Str
  | [] => []
  | [w] => w
  | w :: ws => w ++ sep ++ joinWith sep ws

theorem joinWith_cons_cons (sep w v : Str) (ws : List Str) :
    joinWith sep (w :: v :: ws) = w ++ sep ++ joinWith sep (v :: ws) := rfl

/-- What a text-mode read makes of a file: `\r\n` and `\r` become `\n`. -/
def universalNewlines : Str → Str
  | [] => []
  | '\r' :: '\n' :: rest => '\n' :: universalNewlines rest
  | c :: rest => (if c = '\r' then '\n' else c) :: universalNewlines rest

/-- `sorted(s)` of a set of texts. -/
def sortedSet (s : Finset Str) : List Str := s.sort (· ≤ ·)

/-- `sorted(xs)` of texts. -/
def sorted (xs : List Str) : List Str := xs.mergeSort fun a b => decide (a ≤ b)

/-- The decimal digits of a number, as `str(n)` prints them. -/
def decimal (n : Nat) : Str := Nat.toDigits 10 n

section Lines

variable {c : Char} {l rest : Str}

theorem splitlines_cons (h : isLineBreak c = false) :
    splitlines (c :: rest) = consLine c (splitlines rest) := by
  have hc : c ≠ '\r' := by
    rintro rfl
    exact absurd h (by decide)
  rw [splitlines.eq_3 c rest (fun _ hr _ => hc hr), if_neg (by simp [h])]

theorem splitlines_append_newline (h : ∀ c ∈ l, isLineBreak c = false) :
    splitlines (l ++ '\n' :: rest) = l :: splitlines rest := by
  induction l with
  | nil =>
    rw [List.nil_append, splitlines.eq_3 _ _ (by simp), if_pos (by decide)]
  | cons c l ih =>
    rw [List.cons_append, splitlines_cons (h c (by simp)),
      ih fun d hd => h d (List.mem_cons_of_mem _ hd)]
    rfl

theorem splitlines_unlines {lines : List Str}
    (h : ∀ line ∈ lines, ∀ c ∈ line, isLineBreak c = false) :
    splitlines (unlines lines) = lines := by
  induction lines with
  | nil => rfl
  | cons line lines ih =>
    rw [unlines, splitlines_append_newline (h line (by simp)),
      ih fun l hl => h l (List.mem_cons_of_mem _ hl)]

theorem splitlines_eq_newlineLines {s : Str}
    (h : ∀ c ∈ s, c ≠ '\n' → isLineBreak c = false) : splitlines s = newlineLines s := by
  induction s with
  | nil => rfl
  | cons c s ih =>
    have hs := ih fun d hd => h d (List.mem_cons_of_mem _ hd)
    rw [newlineLines]
    split_ifs with hc
    · subst hc
      rw [splitlines.eq_3 _ _ (by simp), if_pos (by decide), hs]
    · rw [splitlines_cons (h c (by simp) hc), hs]

end Lines

end SharedInfra.Python
