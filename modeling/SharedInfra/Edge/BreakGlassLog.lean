import SharedInfra.Edge.BreakGlassStrip

/-!
# What the log filter leaves

The token's name shows where it ends (`selfDelimiting_loggedName`), so the filter is read one
letter at a time (`redactLog_token`, `redactLog_other`), and by itself on both sides of the end of a
value (`redactLog_cut`).
-/

namespace SharedInfra.Edge

open Python Sequences Pattern

section Names

variable {same : Char → Char → Bool} {c d : Char} {name s rest after : Str}

theorem toLower_of_nonascii (h : 128 ≤ d.toNat) : d.toLower = d := by
  rw [Char.toLower, dif_neg]
  rintro ⟨-, hle⟩
  have hle : d.toNat ≤ 'Z'.toNat := hle
  have hvalue : 'Z'.toNat = 90 := rfl
  omega

theorem readsForms_ignoringCase : ReadsForms ignoringCase where
  percent d := by
    by_cases hd : d.toNat < 128
    · have hall : ∀ n < 128, ignoringCase '%' (Char.ofNat n) = true ↔ Char.ofNat n = '%' := by
        decide +kernel
      simpa only [Char.ofNat_toNat] using hall d.toNat hd
    · have hs : ('%'.toLower == 's') = false := rfl
      have hk : ('%'.toLower == 'k') = false := rfl
      have hpercent : '%'.toLower = '%' := rfl
      rw [ignoringCase, hs, hk, hpercent, toLower_of_nonascii (Nat.le_of_not_lt hd),
        Bool.false_and, Bool.false_and, Bool.or_false, Bool.or_false, beq_iff_eq, eq_comm]
  digit x hx d := by
    by_cases hd : d.toNat < 128
    · have hall : ∀ n < 128, ∀ x < 16, (ignoringCase x.digitChar.toUpper (Char.ofNat n) ||
          ignoringCase x.digitChar.toUpper.toLower (Char.ofNat n)) = true ↔
            hexDigit (Char.ofNat n) = some x := by
        decide +kernel
      simpa only [Char.ofNat_toNat] using hall d.toNat hd x hx
    · have hlower := toLower_of_nonascii (Nat.le_of_not_lt hd)
      have hall : ∀ x < 16, x.digitChar.toUpper.toNat < 128 ∧
          x.digitChar.toUpper.toLower.toNat < 128 ∧ x.digitChar.toUpper.toLower ≠ 's' ∧
            x.digitChar.toUpper.toLower ≠ 'k' ∧
              x.digitChar.toUpper.toLower.toLower = x.digitChar.toUpper.toLower := by
        decide +kernel
      obtain ⟨hupper, hascii, hs, hk, htwice⟩ := hall x hx
      rw [hexDigit_eq_iff hx]
      generalize x.digitChar.toUpper = digit at *
      have hne : digit.toLower ≠ d := by
        rintro rfl
        exact hd hascii
      have hne' : d ≠ digit := by
        rintro rfl
        exact hd hupper
      simp only [ignoringCase, htwice, hlower, Bool.or_eq_true, Bool.and_eq_true, beq_iff_eq, hne,
        hne', hs, hk, Ne.symm hne, false_and, or_false]

theorem not_mem_loggedName (hc : c ∈ separators) (hname : name ∈ loggedName.lang) : c ∉ name :=
  not_mem_of_spelled readsForms_ignoringCase rfl hname hc

theorem selfDelimiting_percentForm : (percentForm same c).SelfDelimiting := by
  rw [percentForm]
  refine selfDelimiting_seq selfDelimiting_one ?_
  induction (Nat.toDigits 16 c.toNat).map Char.toUpper with
  | nil => exact selfDelimiting_done
  | cons digit rest ih => exact selfDelimiting_seq selfDelimiting_one ih

theorem selfDelimiting_spelledLetter (hsame : ReadsForms same) (hc : isNameLetter c = true)
    (hplain : same c '%' = false) : (spelledLetter same c).SelfDelimiting := by
  refine selfDelimiting_alt (· ≠ '%') selfDelimiting_one selfDelimiting_percentForm ?_ ?_
  · rintro _ ⟨d, hd, rfl⟩
    refine ⟨d, rfl, ?_⟩
    rintro rfl
    rw [hplain] at hd
    cases hd
  · intro u hu
    obtain ⟨h, l, rfl, -, -⟩ := (mem_percentForm hsame hc).mp hu
    exact ⟨'%', rfl, by simp⟩

theorem selfDelimiting_spelled (hsame : ReadsForms same)
    (hname : ∀ c ∈ name, isNameLetter c = true ∧ same c '%' = false) :
    (spelled same name).SelfDelimiting := by
  induction name with
  | nil => exact selfDelimiting_done
  | cons c name ih =>
    obtain ⟨hc, hname⟩ := List.forall_mem_cons.mp hname
    exact selfDelimiting_seq (selfDelimiting_spelledLetter hsame hc.1 hc.2) (ih hname)

theorem selfDelimiting_loggedName : loggedName.SelfDelimiting := by
  have hplain : (breakGlassParam.all fun c => !ignoringCase c '%') = true := rfl
  refine selfDelimiting_spelled readsForms_ignoringCase fun c hc =>
    ⟨breakGlassParam_letters c hc, ?_⟩
  simpa using List.all_eq_true.mp hplain c hc

/-- The text begins with a spelling of the token's name. -/
def StartsWithName (s : Str) : Prop := ∃ name ∈ loggedName.lang, name <+: s

theorem frontMatch_token (hname : name ∈ loggedName.lang) :
    frontMatch loggedName (name ++ after) = some (name, after) := by
  rw [frontMatch]
  cases hfind : (name ++ after).inits.find? loggedName.fullMatch with
  | none =>
    have hnone := List.find?_eq_none.mp hfind name
      ((List.mem_inits name (name ++ after)).mpr (List.prefix_append name after))
    exact absurd (fullMatch_iff.mpr hname) hnone
  | some front =>
    have hfront := fullMatch_iff.mp (List.find?_some hfind)
    obtain ⟨behind, hbehind⟩ :=
      (List.mem_inits front (name ++ after)).mp (List.mem_of_find?_eq_some hfind)
    obtain rfl := selfDelimiting_loggedName front hfront name hname behind after hbehind
    simp

theorem frontMatch_none (h : ¬ StartsWithName s) : frontMatch loggedName s = none := by
  rw [frontMatch, Option.map_eq_none_iff, List.find?_eq_none]
  intro front hfront hmatch
  exact h ⟨front, fullMatch_iff.mp hmatch, (List.mem_inits front s).mp hfront⟩

end Names

section Steps

variable {c : Char} {s rest name after : Str}

def isMark (c : Char) : Prop := c = '?' ∨ c = '&'

theorem redactFrom_other {turns : Nat} (h : ¬ (isMark c ∧ StartsWithName rest)) :
    redactFrom (turns + 1) (c :: rest) = c :: redactFrom turns rest := by
  rw [redactFrom]
  split_ifs with hc
  · rw [frontMatch_none fun hrest => h ⟨hc, hrest⟩]
  · rfl

theorem redactFrom_token {turns : Nat} (hc : isMark c) (hname : name ∈ loggedName.lang) :
    redactFrom (turns + 1) (c :: (name ++ after)) = c :: (name ++ (redactedValue ++
        redactFrom turns (after.dropWhile fun d => !endsValue d))) := by
  rw [redactFrom, if_pos (show c = '?' ∨ c = '&' from hc), frontMatch_token hname]

theorem length_dropWhile_le (p : Char → Bool) (s : Str) : (s.dropWhile p).length ≤ s.length :=
  (List.dropWhile_suffix p).length_le

theorem redactFrom_enough {n m : Nat} (hn : s.length ≤ n) (hm : s.length ≤ m) :
    redactFrom n s = redactFrom m s := by
  induction n generalizing m s with
  | zero =>
    obtain rfl := List.length_eq_zero_iff.mp (Nat.le_zero.mp hn)
    cases m <;> rfl
  | succ n ih =>
    cases s with
    | nil => cases m <;> rfl
    | cons c rest =>
      rw [List.length_cons] at hn hm
      obtain ⟨m, rfl⟩ := Nat.exists_eq_succ_of_ne_zero (by omega : m ≠ 0)
      by_cases h : isMark c ∧ StartsWithName rest
      · obtain ⟨hc, name, hname, after, rfl⟩ := h
        have hdrop := length_dropWhile_le (fun d => !endsValue d) after
        rw [List.length_append] at hn hm
        rw [redactFrom_token hc hname, redactFrom_token hc hname, ih (m := m) (by omega) (by omega)]
      · rw [redactFrom_other h, redactFrom_other h, ih (m := m) (by omega) (by omega)]

@[simp] theorem redactLog_nil : redactLog [] = [] := rfl

theorem redactLog_other (h : ¬ (isMark c ∧ StartsWithName rest)) :
    redactLog (c :: rest) = c :: redactLog rest := redactFrom_other h

theorem redactLog_token (hc : isMark c) (hname : name ∈ loggedName.lang) :
    redactLog (c :: (name ++ after)) =
      c :: (name ++ (redactedValue ++ redactLog (after.dropWhile fun d => !endsValue d))) := by
  have hdrop := length_dropWhile_le (fun d => !endsValue d) after
  rw [redactLog, List.length_cons, redactFrom_token hc hname, redactLog,
    redactFrom_enough (by rw [List.length_append]; omega) le_rfl]

theorem redactLog_unmarked (h : ∀ c ∈ s, ¬ isMark c) :
    redactLog (s ++ rest) = s ++ redactLog rest := by
  induction s with
  | nil => rfl
  | cons c s ih =>
    obtain ⟨hc, hs⟩ := List.forall_mem_cons.mp h
    rw [List.cons_append, redactLog_other fun hmark => hc hmark.1, ih hs, List.cons_append]

theorem redactLog_still
    (h : ∀ front c back, s = front ++ c :: back → isMark c → ¬ StartsWithName back) :
    redactLog s = s := by
  induction s with
  | nil => rfl
  | cons c s ih =>
    rw [redactLog_other fun hmark => h [] c s rfl hmark.1 hmark.2, ih]
    intro front d back heq
    exact h (c :: front) d back (by rw [heq]; rfl)

theorem redactLog_plain (h : ∀ c ∈ s, ¬ isMark c) : redactLog s = s :=
  redactLog_still fun _ c _ heq hc _ => h c (by simp [heq]) hc

end Steps

section Cuts

variable {c d e : Char} {s t name after : Str}

theorem dropWhile_stop (he : endsValue e = true) :
    (s ++ e :: t).dropWhile (fun d => !endsValue d) =
      s.dropWhile (fun d => !endsValue d) ++ e :: t := by
  induction s with
  | nil => rw [List.nil_append, List.dropWhile_cons_of_neg (by simp [he])]; rfl
  | cons c s ih =>
    by_cases hc : endsValue c = true
    · rw [List.cons_append, List.dropWhile_cons_of_neg (by simp [hc]),
        List.dropWhile_cons_of_neg (by simp [hc])]
      rfl
    · rw [List.cons_append, List.dropWhile_cons_of_pos (by simp [hc]),
        List.dropWhile_cons_of_pos (by simp [hc]), ih]

theorem endsValue_separators (he : endsValue e = true) : e ∈ separators := by
  rw [endsValue, Bool.or_eq_true, beq_iff_eq, beq_iff_eq] at he
  rcases he with rfl | rfl <;> decide

theorem startsWithName_append (hd : d ∈ separators) :
    StartsWithName (s ++ d :: t) ↔ StartsWithName s := by
  constructor
  · rintro ⟨name, hname, behind, heq⟩
    rcases List.append_eq_append_iff.mp heq with ⟨more, rfl, -⟩ | ⟨more, rfl, hmore⟩
    · exact ⟨name, hname, List.prefix_append name more⟩
    · cases more with
      | nil => exact ⟨_, hname, by simp⟩
      | cons c more =>
        obtain rfl : d = c := (List.cons.inj hmore).1
        exact absurd (List.mem_append_right s List.mem_cons_self) (not_mem_loggedName hd hname)
  · rintro ⟨name, hname, hle⟩
    exact ⟨name, hname, hle.trans (List.prefix_append s _)⟩

theorem redactLog_cut (he : endsValue e = true) :
    redactLog (s ++ e :: t) = redactLog s ++ redactLog (e :: t) := by
  induction hn : s.length using Nat.strong_induction_on generalizing s with
  | _ n ih =>
    cases s with
    | nil => rfl
    | cons c s =>
      rw [List.length_cons] at hn
      by_cases h : isMark c ∧ StartsWithName s
      · obtain ⟨hc, name, hname, after, rfl⟩ := h
        have hdrop := length_dropWhile_le (fun d => !endsValue d) after
        rw [List.length_append] at hn
        rw [List.cons_append, List.append_assoc, redactLog_token hc hname,
          redactLog_token hc hname, dropWhile_stop he,
          ih _ (by omega) rfl]
        simp
      · have h' : ¬ (isMark c ∧ StartsWithName (s ++ e :: t)) := by
          rw [startsWithName_append (endsValue_separators he)]
          exact h
        rw [List.cons_append, redactLog_other h, redactLog_other h', ih _ (by omega) rfl]
        rfl

end Cuts

end SharedInfra.Edge
