import SharedInfra.Edge.BreakGlassLog

/-!
# The token in the log of a URL

A URL is logged as its path, the pairs of its query and its fragment (`LoggedUrl`).  Each pair is
redacted by itself (`redactsPair`, `redactLog_behind`) unless the path swallows the first one
(`redactLog_path`).  No text is left behind a spelling of the token's name but the redacted value:
`redactLog_shows`.
-/

namespace SharedInfra.Edge

open Python Sequences Pattern

section Urls

variable {c d : Char} {s t name pair value front rest : Str}

/-- What the filter makes of a pair behind a mark. -/
def redactPair (pair : Str) : Str := (redactLog ('&' :: pair)).tail

structure LoggedUrl where
  path : Str
  pairs : List Str
  fragment : Str
  path_clean : '?' ∉ path ∧ '#' ∉ path
  pairs_ne : pairs ≠ []
  pairs_clean : ∀ pair ∈ pairs, '&' ∉ pair ∧ '#' ∉ pair
  fragment_starts : fragment = [] ∨ ∃ f, fragment = '#' :: f

def LoggedUrl.text (u : LoggedUrl) : Str :=
  u.path ++ '?' :: (joinWith ['&'] u.pairs ++ u.fragment)

/-- The name of the pair, decoded, begins with the token's name up to case. -/
def NameStartsWithToken (pair : Str) : Prop :=
  ∃ begun more, decodeOnce (pairName pair) = begun ++ more ∧
    List.Forall₂ (fun c d => ignoringCase c d = true) breakGlassParam begun

def HoldsMark (pair : Str) : Prop :=
  ∃ front back, pair = front ++ '?' :: back ∧ StartsWithName back

/-- The last ampersand of the path has a spelling of the token's name behind it. -/
def LoggedUrl.SwallowsFirst (u : LoggedUrl) : Prop :=
  ∃ front back, u.path = front ++ '&' :: back ∧ '&' ∉ back ∧ StartsWithName back

structure RedactsPair (pair out : Str) : Prop where
  token : IsToken pair → out = pairName pair ++ redactedValue
  other : ¬ NameStartsWithToken pair → ¬ HoldsMark pair → out = pair

theorem decodeOnce_spelled {w : Str} (rest : Str)
    (hw : ∀ c ∈ w, isNameLetter c = true ∧ ignoringCase c '%' = false)
    (hname : name ∈ (spelled ignoringCase w).lang) : ∃ begun,
      decodeOnce (name ++ rest) = begun ++ decodeOnce rest ∧
        List.Forall₂ (fun c d => ignoringCase c d = true) w begun := by
  induction w generalizing name with
  | nil =>
    rw [spelled, List.foldr_nil, mem_done] at hname
    exact ⟨[], by rw [hname]; rfl, List.Forall₂.nil⟩
  | cons c w ih =>
    obtain ⟨⟨hc, hplain⟩, hw⟩ := List.forall_mem_cons.mp hw
    rw [spelled, List.foldr_cons, mem_seq] at hname
    obtain ⟨u, hu, v, hv, rfl⟩ := hname
    obtain ⟨begun, hbegun, hfold⟩ := ih hw hv
    rcases (mem_spelledLetter readsForms_ignoringCase hc).mp hu with
      ⟨d, hd, rfl⟩ | ⟨h, l, rfl, hh, hl⟩
    · have hne : d ≠ '%' := by
        rintro rfl
        rw [hplain] at hd
        cases hd
      refine ⟨d :: begun, ?_, List.Forall₂.cons hd hfold⟩
      rw [List.append_assoc, List.singleton_append, decodeOnce_plain hne, hbegun]
      rfl
    · refine ⟨c :: begun, ?_, List.Forall₂.cons (by simp [ignoringCase]) hfold⟩
      rw [List.append_assoc, List.cons_append, List.cons_append, List.cons_append,
        List.nil_append, decodeOnce_form hh hl, Nat.div_add_mod' c.toNat 16,
        Char.ofNat_toNat, hbegun]
      rfl

theorem breakGlassParam_plain :
    ∀ c ∈ breakGlassParam, isNameLetter c = true ∧ ignoringCase c '%' = false := by
  have hplain : (breakGlassParam.all fun c => isNameLetter c && !ignoringCase c '%') = true := rfl
  simpa using List.all_eq_true.mp hplain

theorem nameStartsWithToken_of (h : StartsWithName pair) : NameStartsWithToken pair := by
  obtain ⟨name, hname, rest, rfl⟩ := h
  have hall : ∀ c ∈ name, (c != '=') = true := by
    intro c hc
    rw [bne_iff_ne]
    rintro rfl
    exact not_mem_loggedName (by decide) hname hc
  obtain ⟨begun, hbegun, hfold⟩ := decodeOnce_spelled (pairName rest) breakGlassParam_plain hname
  refine ⟨begun, decodeOnce (pairName rest), ?_, hfold⟩
  rw [pairName, List.takeWhile_append_of_pos hall]
  exact hbegun

theorem spelled_ignoringCase {w : Str} (hw : ∀ c ∈ w, isNameLetter c = true)
    (hname : name ∈ (spelled exactly w).lang) : name ∈ (spelled ignoringCase w).lang := by
  induction w generalizing name with
  | nil => exact hname
  | cons c w ih =>
    obtain ⟨hc, hw⟩ := List.forall_mem_cons.mp hw
    rw [spelled, List.foldr_cons, mem_seq] at hname ⊢
    obtain ⟨u, hu, v, hv, rfl⟩ := hname
    refine ⟨u, ?_, v, ih hw hv, rfl⟩
    rw [mem_spelledLetter readsForms_exactly hc] at hu
    rw [mem_spelledLetter readsForms_ignoringCase hc]
    refine hu.imp_left ?_
    rintro ⟨d, hd, rfl⟩
    exact ⟨d, by simp [ignoringCase, eq_of_beq hd], rfl⟩

theorem endsValue_eq_false (h : '&' ∉ s ∧ '#' ∉ s) : ∀ c ∈ s, endsValue c = false := by
  intro c hc
  rw [endsValue, Bool.or_eq_false_iff, beq_eq_false_iff_ne, beq_eq_false_iff_ne]
  constructor
  · rintro rfl
    exact h.1 hc
  · rintro rfl
    exact h.2 hc

def GoesOn (t : Str) : Prop := t = [] ∨ ∃ e rest, t = e :: rest ∧ endsValue e = true

theorem dropWhile_value (hs : ∀ c ∈ s, endsValue c = false) (ht : GoesOn t) :
    (s ++ t).dropWhile (fun d => !endsValue d) = t := by
  rw [List.dropWhile_append_of_pos (by simpa using hs)]
  rcases ht with rfl | ⟨e, rest, rfl, he⟩
  · rfl
  · rw [List.dropWhile_cons_of_neg (by simp [he])]

theorem redactLog_goesOn (ht : GoesOn t) : redactLog (s ++ t) = redactLog s ++ redactLog t := by
  rcases ht with rfl | ⟨e, rest, rfl, he⟩
  · simp
  · exact redactLog_cut he

theorem redactLog_mark (hc : isMark c) : redactLog (c :: s) = c :: redactPair s := by
  have hamp : isMark '&' := Or.inr rfl
  rw [redactPair]
  by_cases h : StartsWithName s
  · obtain ⟨name, hname, after, rfl⟩ := h
    rw [redactLog_token hc hname, redactLog_token hamp hname, List.tail_cons]
  · rw [redactLog_other fun hmark => h hmark.2, redactLog_other fun hmark => h hmark.2,
      List.tail_cons]

theorem redactPair_token (hname : name ∈ loggedName.lang) (h : ∀ c ∈ value, endsValue c = false) :
    redactPair (name ++ value) = name ++ redactedValue := by
  have hdrop : value.dropWhile (fun d => !endsValue d) = [] := by
    simpa using dropWhile_value h (Or.inl rfl)
  rw [redactPair, redactLog_token (Or.inr rfl) hname, hdrop, redactLog_nil, List.append_nil,
    List.tail_cons]

theorem redactsPair (h : '&' ∉ pair ∧ '#' ∉ pair) : RedactsPair pair (redactPair pair) where
  token := by
    intro htoken
    have hname := spelled_ignoringCase breakGlassParam_letters (isToken_iff.mp htoken)
    have hsplit : pairName pair ++ pair.dropWhile (· != '=') = pair :=
      List.takeWhile_append_dropWhile
    have hvalue : ∀ c ∈ pair.dropWhile (· != '='), endsValue c = false := fun c hc =>
      endsValue_eq_false h c ((List.dropWhile_suffix _).subset hc)
    conv_lhs => rw [← hsplit]
    exact redactPair_token hname hvalue
  other := by
    intro hstarts hmark
    rw [redactPair, redactLog_other fun hname => hstarts (nameStartsWithToken_of hname.2),
      List.tail_cons]
    refine redactLog_still fun front c back heq hc hback => ?_
    rcases hc with rfl | rfl
    · exact hmark ⟨front, back, heq, hback⟩
    · exact h.1 (by simp [heq])

def behind (pairs : List Str) : Str := pairs.flatMap fun pair => '&' :: pair

theorem joinWith_cons (pair : Str) (pairs : List Str) :
    joinWith ['&'] (pair :: pairs) = pair ++ behind pairs := by
  induction pairs generalizing pair with
  | nil => exact (List.append_nil pair).symm
  | cons next pairs ih => rw [joinWith_cons_cons, ih, behind, behind]; simp

theorem goesOn_behind (pairs : List Str) : GoesOn t → GoesOn (behind pairs ++ t) := by
  intro ht
  cases pairs with
  | nil => exact ht
  | cons pair pairs => exact Or.inr ⟨'&', pair ++ (behind pairs ++ t), by simp [behind], rfl⟩

theorem redactLog_behind (pairs : List Str) (ht : GoesOn t) :
    redactLog (behind pairs ++ t) = behind (pairs.map redactPair) ++ redactLog t := by
  induction pairs with
  | nil => rfl
  | cons pair pairs ih =>
    have hcons : behind (pair :: pairs) ++ t = ('&' :: pair) ++ (behind pairs ++ t) := by
      simp [behind]
    rw [hcons, redactLog_goesOn (goesOn_behind pairs ht), redactLog_mark (Or.inr rfl), ih]
    simp [behind]

theorem redactLog_path {path first : Str} (hpath : '?' ∉ path ∧ '#' ∉ path)
    (hfirst : '&' ∉ first ∧ '#' ∉ first) (ht : GoesOn t) :
    ((¬ ∃ front back, path = front ++ '&' :: back ∧ '&' ∉ back ∧ StartsWithName back) →
      redactLog (path ++ '?' :: (first ++ t)) =
        redactLog path ++ '?' :: (redactPair first ++ redactLog t)) ∧
    ((∃ front back, path = front ++ '&' :: back ∧ '&' ∉ back ∧ StartsWithName back) →
      redactLog (path ++ '?' :: (first ++ t)) = redactLog path ++ redactLog t) := by
  have hquery : redactLog ('?' :: (first ++ t)) = '?' :: (redactPair first ++ redactLog t) := by
    rw [← List.cons_append, redactLog_goesOn ht, redactLog_mark (Or.inl rfl), List.cons_append]
  constructor
  · intro hnone
    by_cases hmem : '&' ∈ path
    · obtain ⟨front, back, rfl, hback⟩ : ∃ front back,
          path = front ++ '&' :: back ∧ '&' ∉ back := by
        obtain ⟨back, front, heq, hback⟩ :=
          List.eq_append_cons_of_mem (List.mem_reverse.mpr hmem)
        refine ⟨front.reverse, back.reverse, ?_, by simpa using hback⟩
        rw [← List.reverse_reverse path, heq]
        simp
      have hname : ¬ StartsWithName back := fun h => hnone ⟨front, back, rfl, hback, h⟩
      have hname' : ¬ StartsWithName (back ++ '?' :: (first ++ t)) := by
        rw [startsWithName_append (by decide)]
        exact hname
      have hplain : ∀ c ∈ back, ¬ isMark c := by
        rintro c hc (rfl | rfl)
        · exact hpath.1 (by simp [hc])
        · exact hback hc
      have hcopy : redactLog back = back := redactLog_plain hplain
      rw [List.append_assoc, List.cons_append, redactLog_cut rfl, redactLog_cut rfl,
        redactLog_other fun h => hname' h.2, redactLog_other fun h => hname h.2,
        redactLog_unmarked hplain, hquery, hcopy]
      simp
    · have hplain : ∀ c ∈ path, ¬ isMark c := by
        rintro c hc (rfl | rfl)
        · exact hpath.1 hc
        · exact hmem hc
      have hcopy : redactLog path = path := redactLog_plain hplain
      rw [redactLog_unmarked hplain, hquery, hcopy]
  · rintro ⟨front, _, rfl, hback, name, hname, more, rfl⟩
    have hmore : '&' ∉ more ∧ '#' ∉ more :=
      ⟨fun h => hback (List.mem_append_right _ h), fun h => hpath.2 (by simp [h])⟩
    have hall : ∀ c ∈ more ++ '?' :: first, endsValue c = false := by
      refine List.forall_mem_append.mpr ⟨endsValue_eq_false hmore, ?_⟩
      exact List.forall_mem_cons.mpr ⟨rfl, endsValue_eq_false hfirst⟩
    have hlong := dropWhile_value hall ht
    have hshort : more.dropWhile (fun d => !endsValue d) = [] := by
      simpa using dropWhile_value (endsValue_eq_false hmore) (Or.inl rfl)
    have hsplit : (front ++ '&' :: (name ++ more)) ++ '?' :: (first ++ t) =
        front ++ '&' :: (name ++ ((more ++ '?' :: first) ++ t)) := by simp
    rw [hsplit, redactLog_cut rfl, redactLog_cut rfl, redactLog_token (Or.inr rfl) hname,
      redactLog_token (Or.inr rfl) hname, hlong, hshort]
    simp

end Urls

section Shown

variable {c : Char} {s front rest name : Str} {mark : Char}

/-- What stands behind a name in the log: the redacted value, up to where a value ends. -/
def Redacted (rest : Str) : Prop := ∃ more, rest = redactedValue ++ more ∧ GoesOn more

theorem redactLog_copies {u v : Str} (hu : ∀ c ∈ u, ¬ isMark c) (h : redactLog s = u ++ v) :
    u <+: s := by
  induction u generalizing s with
  | nil => exact List.nil_prefix
  | cons c u ih =>
    obtain ⟨hc, htail⟩ := List.forall_mem_cons.mp hu
    cases s with
    | nil => cases h
    | cons d s =>
      by_cases hd : isMark d ∧ StartsWithName s
      · obtain ⟨hd, name, hname, after, rfl⟩ := hd
        rw [redactLog_token hd hname, List.cons_append] at h
        exact absurd ((List.cons.inj h).1 ▸ hd) hc
      · rw [redactLog_other hd, List.cons_append] at h
        obtain ⟨rfl, heq⟩ := List.cons.inj h
        exact List.cons_prefix_cons.mpr ⟨rfl, ih htail heq⟩

theorem isMark_separators (h : isMark mark) : mark ∈ separators := by
  rcases h with rfl | rfl <;> decide

theorem unmarked_name (hname : name ∈ loggedName.lang) : ∀ c ∈ name, ¬ isMark c := fun _ hc hmark =>
  not_mem_loggedName (isMark_separators hmark) hname hc

theorem goesOn_redactLog (h : GoesOn s) : GoesOn (redactLog s) := by
  rcases h with rfl | ⟨e, rest, rfl, he⟩
  · exact Or.inl rfl
  · by_cases hmark : isMark e
    · rw [redactLog_mark hmark]
      exact Or.inr ⟨e, _, rfl, he⟩
    · rw [redactLog_other fun h => hmark h.1]
      exact Or.inr ⟨e, _, rfl, he⟩

theorem goesOn_dropWhile (s : Str) : GoesOn (s.dropWhile fun d => !endsValue d) := by
  cases hdrop : s.dropWhile fun d => !endsValue d with
  | nil => exact Or.inl rfl
  | cons e rest =>
    have he := List.head?_dropWhile_not (fun d => !endsValue d) s
    rw [hdrop] at he
    exact Or.inr ⟨e, rest, rfl, by simpa using he⟩

def ShowsNoValue (field : Str) : Prop :=
  ∀ front name rest mark, isMark mark → name ∈ loggedName.lang →
    redactLog field = front ++ mark :: (name ++ rest) → Redacted rest

theorem redactLog_shows (hmark : isMark mark) (hname : name ∈ loggedName.lang)
    (h : redactLog s = front ++ mark :: (name ++ rest)) : Redacted rest := by
  induction hn : s.length using Nat.strong_induction_on generalizing s front with
  | _ n ih =>
    cases s with
    | nil => simp at h
    | cons c s =>
      rw [List.length_cons] at hn
      by_cases hc : isMark c ∧ StartsWithName s
      · obtain ⟨hc, first, hfirst, after, rfl⟩ := hc
        have hdrop := length_dropWhile_le (fun d => !endsValue d) after
        have hlt : (after.dropWhile fun d => !endsValue d).length < n := by
          rw [List.length_append] at hn
          omega
        rw [redactLog_token hc hfirst] at h
        cases front with
        | nil =>
          have h := (List.cons.inj h).2
          obtain rfl := selfDelimiting_loggedName first hfirst name hname _ _ h
          exact ⟨_, (List.append_cancel_left h).symm, goesOn_redactLog (goesOn_dropWhile after)⟩
        | cons d front =>
          have h := (List.cons.inj h).2
          rw [← List.append_assoc] at h
          have hclean : ∀ c ∈ first ++ redactedValue, ¬ isMark c := by
            refine List.forall_mem_append.mpr ⟨unmarked_name hfirst, ?_⟩
            have hall : (redactedValue.all fun c => c != '?' && c != '&') = true := rfl
            rintro c hc (rfl | rfl) <;> cases List.all_eq_true.mp hall _ hc
          rcases List.append_eq_append_iff.mp h with ⟨more, -, hmore⟩ | ⟨more, heq, hmore⟩
          · exact ih _ hlt hmore rfl
          · cases more with
            | nil =>
              have hstart : redactLog (after.dropWhile fun d => !endsValue d) =
                  [] ++ mark :: (name ++ rest) := hmore.symm
              exact ih _ hlt hstart rfl
            | cons e more =>
              obtain rfl := (List.cons.inj hmore).1
              exact absurd hmark (hclean _ (by rw [heq]; simp))
      · rw [redactLog_other hc] at h
        cases front with
        | nil =>
          obtain ⟨rfl, heq⟩ := List.cons.inj h
          exact absurd ⟨hmark, name, hname, redactLog_copies (unmarked_name hname) heq⟩ hc
        | cons d front => exact ih _ (by omega) (List.cons.inj h).2 rfl

end Shown

section Urls

theorem exists_loggedUrl {s : Str} (h : '?' ∈ s.takeWhile (· != '#')) :
    ∃ u : LoggedUrl, u.text = s ∧ u.pairs = pairsOf (s.takeWhile (· != '#')) := by
  obtain ⟨path, query, heq, hpath⟩ := List.eq_append_cons_of_mem h
  have hclean : ∀ c ∈ path ++ '?' :: query, c ≠ '#' := by
    intro c hc
    rw [← heq] at hc
    simpa using List.mem_takeWhile_imp hc
  refine ⟨⟨path, splitOnChar '&' query, s.dropWhile (· != '#'), ?_, splitOnChar_ne_nil '&' query,
    ?_, ?_⟩, ?_, ?_⟩
  · exact ⟨hpath, fun hc => hclean '#' (by simp [hc]) rfl⟩
  · intro pair hpair
    refine ⟨not_mem_of_mem_splitOnChar pair hpair, fun hc => hclean '#' ?_ rfl⟩
    simp [mem_of_mem_piece hpair hc]
  · cases hdrop : s.dropWhile (· != '#') with
    | nil => exact Or.inl rfl
    | cons c f =>
      have hc := List.head?_dropWhile_not (· != '#') s
      rw [hdrop] at hc
      obtain rfl : c = '#' := by simpa using hc
      exact Or.inr ⟨f, rfl⟩
  · show path ++ '?' :: (joinWith ['&'] (splitOnChar '&' query) ++ s.dropWhile (· != '#')) = s
    rw [joinWith_splitOnChar, ← List.cons_append, ← List.append_assoc, ← heq,
      List.takeWhile_append_dropWhile]
  · rw [heq, pairsOf_append hpath]

variable (u : LoggedUrl)

theorem LoggedUrl.goesOn_fragment : GoesOn u.fragment :=
  u.fragment_starts.imp_right fun ⟨f, hf⟩ => ⟨'#', f, hf, rfl⟩

structure LoggedUrl.Redacts (outs : List Str) : Prop where
  pairs : List.Forall₂ RedactsPair u.pairs outs
  kept : ¬ u.SwallowsFirst →
    redactLog u.text = redactLog u.path ++ '?' :: (joinWith ['&'] outs ++ redactLog u.fragment)
  swallowed : u.SwallowsFirst →
    redactLog u.text = redactLog u.path ++ (behind outs.tail ++ redactLog u.fragment)

theorem LoggedUrl.redacts : u.Redacts (u.pairs.map redactPair) := by
  obtain ⟨first, more, hpairs⟩ := List.exists_cons_of_ne_nil u.pairs_ne
  have hfirst : '&' ∉ first ∧ '#' ∉ first := u.pairs_clean first (by simp [hpairs])
  have htext : u.text = u.path ++ '?' :: (first ++ (behind more ++ u.fragment)) := by
    rw [LoggedUrl.text, hpairs, joinWith_cons, List.append_assoc]
  have hlast : redactLog (behind more ++ u.fragment) =
      behind (more.map redactPair) ++ redactLog u.fragment :=
    redactLog_behind more u.goesOn_fragment
  obtain ⟨hkept, hgone⟩ := redactLog_path u.path_clean hfirst (goesOn_behind more u.goesOn_fragment)
  refine ⟨?_, fun h => ?_, fun h => ?_⟩
  · rw [List.forall₂_map_right_iff, List.forall₂_same]
    exact fun pair hpair => redactsPair (u.pairs_clean pair hpair)
  · rw [htext, hkept h, hlast, hpairs, List.map_cons, joinWith_cons, List.append_assoc]
  · rw [htext, hgone h, hlast, hpairs, List.map_cons, List.tail_cons]

/-- The token is stripped from a target exactly where a pair has its name outside `/ghost`, and in
the log each such pair shows the redacted value alone; no other pair changes unless its name begins
like the token's or a spelling of the name stands behind a mark in front of its end. -/
theorem stripped_and_redacted : (∀ target, StripsRightly target) ∧
    (∀ u : LoggedUrl, ∃ outs, u.Redacts outs) ∧ ∀ field, ShowsNoValue field := by
  refine ⟨stripsRightly, fun u => ⟨u.pairs.map redactPair, u.redacts⟩, ?_⟩
  intro field front name rest mark hmark hname h
  exact redactLog_shows hmark hname h

/-- A pair of another name loses its value where the name stands behind a question mark in it, or
behind an ampersand of the path. -/
theorem other_pair_changes :
    (¬ NameStartsWithToken "a=1?bl_break_glass=2".toList ∧ IsToken "bl_break_glass=3".toList ∧
      pairsOf "/x?a=1?bl_break_glass=2&bl_break_glass=3".toList =
        ["a=1?bl_break_glass=2".toList, "bl_break_glass=3".toList] ∧
      redactLog "/x?a=1?bl_break_glass=2&bl_break_glass=3".toList =
        "/x?a=1?bl_break_glass=REDACTED&bl_break_glass=REDACTED".toList) ∧
    (¬ NameStartsWithToken "a=1".toList ∧
      pairsOf "/&bl_break_glass?a=1&bl_break_glass=3".toList =
        ["a=1".toList, "bl_break_glass=3".toList] ∧
      redactLog "/&bl_break_glass?a=1&bl_break_glass=3".toList =
        "/&bl_break_glass=REDACTED&bl_break_glass=REDACTED".toList) := by
  have hother : ∀ pair : Str, pairName pair = ['a'] → ¬ NameStartsWithToken pair := by
    rintro pair hpair ⟨begun, more, hdecode, hfold⟩
    rw [hpair] at hdecode
    have hlength := congrArg List.length hdecode
    rw [List.length_append, ← hfold.length_eq] at hlength
    have hone : (decodeOnce ['a']).length = 1 := rfl
    have hname : breakGlassParam.length = 14 := rfl
    omega
  refine ⟨⟨hother _ rfl, ?_, rfl, ?_⟩, hother _ rfl, rfl, ?_⟩
  · rfl
  · decide
  · decide

end Urls

end SharedInfra.Edge
