import SharedInfra.Python.IpText
import SharedInfra.Python.Splitting
import SharedInfra.Python.Utf8

/-!
# The query of a URL

`urllib.parse`: the query that `urlsplit` finds, `unquote` and the values of `parse_qsl`.
-/

namespace SharedInfra.Python

/-- The tabs and line breaks that `urlsplit` takes out. -/
def isUnsafeUrlChar (c : Char) : Bool := c == '\t' || c == '\r' || c == '\n'

/-- The query of a URL that `urlsplit` takes apart: what is behind the first question mark and
before the fragment. -/
def queryOf (url : Str) : Str :=
  let whole := (url.filter fun c => !isUnsafeUrlChar c).takeWhile (· != '#')
  (partition '?' whole).2.2

/-- `urlsplit(url).query`; a host in brackets, or one that changes when it is normalised, may be
refused with a `ValueError`. -/
def urlsplitQuery (refused : Str → Bool) (url : Str) : Option Str :=
  if refused url then none else some (queryOf url)

/-- `unquote_to_bytes`, of ASCII text. -/
def unquoteToBytes : Str → Bytes
  | '%' :: high :: low :: rest =>
    match hexDigit high, hexDigit low with
    | some h, some l => UInt8.ofNat (h * 16 + l) :: unquoteToBytes rest
    | _, _ => UInt8.ofNat '%'.toNat :: unquoteToBytes (high :: low :: rest)
  | c :: rest => UInt8.ofNat c.toNat :: unquoteToBytes rest
  | [] => []

/-- `unquote` behind a run of ASCII text. -/
def unquoteAfter (run : Str) : Str → Str
  | [] => utf8DecodeReplace (unquoteToBytes run)
  | c :: rest =>
    if c.toNat < 128 then unquoteAfter (run ++ [c]) rest
    else utf8DecodeReplace (unquoteToBytes run) ++ c :: unquoteAfter [] rest

def unquote (s : Str) : Str := unquoteAfter [] s

/-- `raw_pair.partition("=")[2]` for each pair. -/
def rawValues (query : Str) : List Str :=
  (splitOnChar '&' query).map fun pair => (partition '=' pair).2.2

/-- The values of `parse_qsl(query, keep_blank_values=False)`. -/
def parseQsl (query : Str) : List Str :=
  ((rawValues query).filter fun value => value != []).map fun value =>
    unquote (value.map fun c => if c = '+' then ' ' else c)

example : parseQsl "a=b%2Fc+d&e=&f".toList = ["b/c d".toList] := by decide

section Lengths

variable {s url run : Str} {value : Str}

theorem length_utf8ReplaceFrom (skip : Nat) (data : Bytes) :
    (utf8ReplaceFrom skip data).length ≤ data.length := by
  induction data generalizing skip with
  | nil => simp [utf8ReplaceFrom]
  | cons b data ih =>
    cases skip with
    | succ skip =>
      rw [utf8ReplaceFrom, List.length_cons]
      exact (ih skip).trans (Nat.le_succ _)
    | zero =>
      rw [utf8ReplaceFrom]
      split
      · exact Nat.succ_le_succ (ih _)
      · exact Nat.succ_le_succ (ih _)

theorem length_unquoteToBytes (s : Str) : (unquoteToBytes s).length ≤ s.length := by
  induction s using unquoteToBytes.induct with
  | case1 high low rest h l hhigh hlow ih =>
    rw [unquoteToBytes, hhigh, hlow]
    simp only [List.length_cons]
    omega
  | case2 high low rest hnot ih =>
    rw [unquoteToBytes]
    split
    next h l hhigh hlow => exact absurd hlow (hnot h l hhigh)
    next => simpa using ih
  | case3 c rest hnot ih =>
    rw [unquoteToBytes]
    · simpa using ih
    · exact hnot
  | case4 => simp [unquoteToBytes]

theorem length_unquoteAfter (run s : Str) :
    (unquoteAfter run s).length ≤ run.length + s.length := by
  have hrun : ∀ run, (utf8DecodeReplace (unquoteToBytes run)).length ≤ run.length := fun run =>
    (length_utf8ReplaceFrom 0 _).trans (length_unquoteToBytes run)
  induction s generalizing run with
  | nil => exact hrun run
  | cons c rest ih =>
    rw [unquoteAfter]
    split_ifs with hascii
    · have hrest := ih (run ++ [c])
      simp only [List.length_append, List.length_cons, List.length_nil] at hrest ⊢
      omega
    · have hrest := ih []
      have hhead := hrun run
      simp only [List.length_append, List.length_cons, List.length_nil] at hrest ⊢
      omega

theorem length_unquote (s : Str) : (unquote s).length ≤ s.length := by
  have h := length_unquoteAfter [] s
  rwa [List.length_nil, Nat.zero_add] at h

theorem length_of_mem_splitOnChar {sep : Char} {piece : Str} (h : piece ∈ splitOnChar sep s) :
    piece.length ≤ s.length := by
  induction s generalizing piece with
  | nil =>
    rw [splitOnChar, List.mem_singleton] at h
    rw [h]
  | cons c rest ih =>
    rw [splitOnChar] at h
    rw [List.length_cons]
    split_ifs at h with hsep
    · rcases List.mem_cons.mp h with rfl | h
      · exact Nat.zero_le _
      · exact (ih h).trans (Nat.le_succ _)
    · cases hpieces : splitOnChar sep rest with
      | nil => exact absurd hpieces (splitOnChar_ne_nil sep rest)
      | cons first more =>
        rw [hpieces, consLine] at h
        rcases List.mem_cons.mp h with rfl | h
        · exact Nat.succ_le_succ (ih (hpieces ▸ List.mem_cons_self))
        · exact (ih (hpieces ▸ List.mem_cons_of_mem _ h)).trans (Nat.le_succ _)

theorem length_partition {sep : Char} (hne : (partition sep s).2.2 ≠ []) :
    (partition sep s).2.2.length < s.length := by
  rw [partition] at hne ⊢
  have hlength := (List.dropWhile_suffix (l := s) (· != sep)).length_le
  cases hdrop : s.dropWhile (· != sep) with
  | nil =>
    rw [hdrop] at hne
    exact absurd rfl hne
  | cons c after =>
    rw [hdrop, List.length_cons] at hlength
    exact hlength

theorem length_rawValues (h : value ∈ rawValues (queryOf url)) (hne : value ≠ []) :
    value.length < url.length := by
  obtain ⟨pair, hpair, rfl⟩ := List.mem_map.mp h
  have hquery : (queryOf url).length ≤ url.length := by
    rw [queryOf]
    by_cases hnil : (partition '?' ((url.filter fun c => !isUnsafeUrlChar c).takeWhile
        (· != '#'))).2.2 = []
    · rw [hnil]
      exact Nat.zero_le _
    · exact (length_partition hnil).le.trans (((List.takeWhile_prefix _).length_le).trans
        (List.length_filter_le _ _))
  exact (length_partition hne).trans_le ((length_of_mem_splitOnChar hpair).trans hquery)

end Lengths

end SharedInfra.Python
