import SharedInfra.Dns.Message
import SharedInfra.Python.LastLine

/-!
# Records that compare equal

When two values of one type are spelled alike by `normalise_rdata` exactly if they stand for
the same data (`comparesData_iff`).  A name and an address have one spelling.  Numbers,
hexadecimal digits, the strings of a `TXT` record and service bindings are copied as they were
written, and blanks inside a quoted value are lost.
-/

namespace SharedInfra.Dns
namespace ZoneCheck

open Python

variable (tables : CharTables) (paramOctets : List Str → List Nat)

/-- Two values have one spelling exactly when they have the same data, and each spelling is its
own. -/
def ComparesData (rtype a b : Str) : Prop :=
  ∃ m n, normaliseRdata tables rtype a = some m ∧ normaliseRdata tables rtype b = some n ∧
    (m = n ↔ recordData paramOctets rtype a = recordData paramOctets rtype b) ∧
    normaliseRdata tables rtype m = some m ∧ normaliseRdata tables rtype n = some n

/-- Flags that are the same number have the same digits, and values do not differ in their
blanks only. -/
def AlikeProperty : List Str → List Str → Prop
  | [flags, tag, value], [flags', tag', value'] =>
    (propertyData [flags, tag, value] = propertyData [flags', tag', value'] → flags = flags') ∧
      (flags = flags' → tag.map Char.toLower = tag'.map Char.toLower →
        splitWords value = splitWords value' → value = value')
  | _, _ => True

/-- What is the same in two values is written alike, as far as the program copies it. -/
def SpelledAlike (rtype a b : Str) : Prop :=
  let s := tokensOf a
  let t := tokensOf b
  if rtype = "TXT".toList then s = t → strip a = strip b
  else if rtype = "AAAA".toList ∨ rtype = "A".toList then True
  else if rtype = "CAA".toList then AlikeProperty s t
  else if rtype = "TLSA".toList then associationData s = associationData t → s = t
  else if rtype = "HTTPS".toList ∨ rtype = "SVCB".toList then
    (s.flatMap splitWords = t.flatMap splitWords ↔
      serviceData paramOctets s = serviceData paramOctets t)
  else
    let count := leadingNumbers rtype
    namedData count s = namedData count t → s.take count = t.take count

section Letters

variable {s : Str}

theorem toLower_ascii {c : Char} (h : c.toNat < 128) : c.toLower.toNat < 128 := by
  have hall : ∀ n < 128, (Char.ofNat n).toLower.toNat < 128 := by decide
  exact ascii_cases (p := fun c => c.toLower.toNat < 128) hall h

theorem toLower_noSpace {c : Char} (h : c.toNat < 128) (hc : isSpace c = false) :
    isSpace c.toLower = false := by
  have hall : ∀ n < 128, isSpace (Char.ofNat n) = false →
      isSpace (Char.ofNat n).toLower = false := by decide
  exact ascii_cases (p := fun c => isSpace c = false → isSpace c.toLower = false) hall h hc

theorem toLower_toLower {c : Char} (h : c.toNat < 128) : c.toLower.toLower = c.toLower := by
  have hall : ∀ n < 128, (Char.ofNat n).toLower.toLower = (Char.ofNat n).toLower := by decide
  exact ascii_cases (p := fun c => c.toLower.toLower = c.toLower) hall h

theorem toLower_eq_dot {c : Char} (h : c.toNat < 128) : c.toLower = '.' ↔ c = '.' := by
  have hall : ∀ n < 128, (Char.ofNat n).toLower = '.' ↔ Char.ofNat n = '.' := by decide
  exact ascii_cases (p := fun c => c.toLower = '.' ↔ c = '.') hall h

theorem isPlain_iff : isPlain s = true ↔ ∀ c ∈ s, c.toNat < 128 ∧ isSpace c = false := by
  simp only [isPlain, List.all_eq_true, Bool.and_eq_true, decide_eq_true_eq, Bool.not_eq_true']

theorem isPlain_lower (h : isPlain s = true) : isPlain (s.map Char.toLower) = true := by
  rw [isPlain_iff] at h ⊢
  intro c hc
  obtain ⟨d, hd, rfl⟩ := List.mem_map.mp hc
  exact ⟨toLower_ascii (h d hd).1, toLower_noSpace (h d hd).1 (h d hd).2⟩

variable {tables}

theorem lower_of_isPlain (h : isPlain s = true) : tables.lower s = s.map Char.toLower :=
  tables.lower_plain s fun c hc => Or.inl (isPlain_iff.mp h c hc).1

theorem lower_lower_of_isPlain (h : isPlain s = true) :
    tables.lower (s.map Char.toLower) = s.map Char.toLower := by
  rw [lower_of_isPlain (isPlain_lower h), List.map_map]
  exact List.map_congr_left fun c hc => toLower_toLower (isPlain_iff.mp h c hc).1

theorem endsWith_dot_iff : endsWith s ['.'] = true ↔ s.getLast? = some '.' := by
  rw [endsWith, List.isSuffixOf_iff_suffix]
  constructor
  · rintro ⟨t, rfl⟩
    rw [List.getLast?_append]
    rfl
  · intro h
    obtain ⟨hne, hlast⟩ := List.mem_getLast?_eq_getLast h
    exact ⟨s.dropLast, hlast ▸ List.dropLast_append_getLast hne⟩

theorem endsWith_lower (h : isPlain s = true) :
    endsWith (s.map Char.toLower) ['.'] = endsWith s ['.'] := by
  rw [Bool.eq_iff_iff, endsWith_dot_iff, endsWith_dot_iff, List.getLast?_map]
  cases hlast : s.getLast? with
  | none => exact Iff.rfl
  | some c =>
    have hc := (isPlain_iff.mp h c (List.mem_of_getLast? hlast)).1
    rw [Option.map_some, Option.some.injEq, Option.some.injEq]
    exact toLower_eq_dot hc

theorem canonicalName_eq (h : isPlain s = true) : canonicalName tables s = nameData s := by
  rw [canonicalName, lower_of_isPlain h, endsWith_lower h, nameData]
  split_ifs
  · rfl
  · rw [List.map_append]
    rfl

theorem isPlain_nameData (h : isPlain s = true) : isPlain (nameData s) = true := by
  refine isPlain_lower ?_
  split_ifs
  · exact h
  · rw [isPlain, List.all_append, Bool.and_eq_true]
    exact ⟨h, by decide⟩

theorem canonicalName_nameData (h : isPlain s = true) :
    canonicalName tables (nameData s) = nameData s := by
  rw [canonicalName_eq (isPlain_nameData h), nameData, nameData]
  have hdot : endsWith (if endsWith s ['.'] = true then s else s ++ ['.']) ['.'] = true := by
    split_ifs with hend
    · exact hend
    · exact endsWith_dot_iff.mpr List.getLast?_concat
  have hplain : isPlain (if endsWith s ['.'] = true then s else s ++ ['.']) = true := by
    split_ifs
    · exact h
    · rw [isPlain, List.all_append, Bool.and_eq_true]
      exact ⟨h, by decide⟩
  generalize (if endsWith s ['.'] = true then s else s ++ ['.']) = name at hdot hplain
  rw [if_pos ((endsWith_lower hplain).trans hdot), List.map_map]
  exact List.map_congr_left fun c hc => toLower_toLower (isPlain_iff.mp hplain c hc).1

theorem nameData_ne_nil (s : Str) : nameData s ≠ [] := by
  rw [nameData, ne_eq, List.map_eq_nil_iff]
  split_ifs with hend
  · rintro rfl
    exact absurd hend (by decide)
  · exact List.append_ne_nil_of_right_ne_nil _ (List.cons_ne_nil _ _)

theorem isWord_of_isAsciiDigits (h : isAsciiDigits s = true) : IsWord s := by
  rw [isAsciiDigits, Bool.and_eq_true, Bool.not_eq_true', List.isEmpty_eq_false_iff] at h
  refine ⟨h.1, fun c hc => ?_⟩
  have hdigit := toNat_of_isDigit (List.all_eq_true.mp h.2 c hc)
  exact isSpace_of_graphic (by omega) (by omega)

end Letters

section Parts

variable {tables : CharTables} {paramOctets : List Str → List Nat} {rtype a b : Str}

/-- The parts of a value that `normalise_rdata` joins. -/
def canonicalParts (tables : CharTables) (rtype : Str) (words : List Str) : List Str :=
  let parts := (nameFields rtype).foldl (fun parts index => parts.modify index
    (canonicalName tables)) words
  if rtype = "CAA".toList ∧ 2 ≤ parts.length then parts.modify 1 tables.lower else parts

theorem normaliseRdata_eq (htxt : rtype ≠ "TXT".toList) (haaaa : rtype ≠ "AAAA".toList)
    (ha : rtype ≠ "A".toList) (rdata : Str) : normaliseRdata tables rtype rdata =
      some (joinWith [' '] (canonicalParts tables rtype (splitWords (strip rdata)))) := by
  rw [normaliseRdata, if_neg htxt, if_neg haaaa, if_neg ha]
  rfl

theorem comparesData_of_parts {ws vs : List Str} (htxt : rtype ≠ "TXT".toList)
    (haaaa : rtype ≠ "AAAA".toList) (ha : rtype ≠ "A".toList)
    (hfirst : canonicalParts tables rtype (splitWords (strip a)) = ws)
    (hsecond : canonicalParts tables rtype (splitWords (strip b)) = vs)
    (hws : ∀ w ∈ ws, IsWord w) (hvs : ∀ w ∈ vs, IsWord w)
    (hwsOwn : canonicalParts tables rtype ws = ws) (hvsOwn : canonicalParts tables rtype vs = vs) :
    ComparesData tables paramOctets rtype a b ↔
      (ws = vs ↔ recordData paramOctets rtype a = recordData paramOctets rtype b) := by
  have hnorm : ∀ rdata, normaliseRdata tables rtype rdata =
      some (joinWith [' '] (canonicalParts tables rtype (splitWords (strip rdata)))) :=
    normaliseRdata_eq htxt haaaa ha
  have hwords : ∀ {us : List Str}, (∀ w ∈ us, IsWord w) →
      splitWords (strip (joinWith [' '] us)) = us := fun hus => by
    rw [splitWords_strip, splitWords_joinWith hus]
  have hjoin : joinWith [' '] ws = joinWith [' '] vs ↔ ws = vs := by
    refine ⟨fun h => ?_, fun h => by rw [h]⟩
    rw [← splitWords_joinWith hws, h, splitWords_joinWith hvs]
  have hown : ∀ {us : List Str}, (∀ w ∈ us, IsWord w) → canonicalParts tables rtype us = us →
      normaliseRdata tables rtype (joinWith [' '] us) = some (joinWith [' '] us) :=
    fun hus husOwn => by rw [hnorm, hwords hus, husOwn]
  rw [← hjoin]
  constructor
  · rintro ⟨m, n, hm, hn, hsame, -, -⟩
    rw [hnorm, hfirst] at hm
    rw [hnorm, hsecond] at hn
    rw [← Option.some.inj hm, ← Option.some.inj hn] at hsame
    exact hsame
  · intro hsame
    refine ⟨joinWith [' '] ws, joinWith [' '] vs, ?_, ?_, hsame, hown hws hwsOwn, hown hvs hvsOwn⟩
    · rw [hnorm, hfirst]
    · rw [hnorm, hsecond]

theorem comparesData_of_copied (htxt : rtype ≠ "TXT".toList) (haaaa : rtype ≠ "AAAA".toList)
    (ha : rtype ≠ "A".toList) (hcopied : ∀ words, canonicalParts tables rtype words = words) :
    ComparesData tables paramOctets rtype a b ↔
      ((tokensOf a).flatMap splitWords = (tokensOf b).flatMap splitWords ↔
        recordData paramOctets rtype a = recordData paramOctets rtype b) := by
  rw [← splitWords_strip_eq, ← splitWords_strip_eq]
  exact comparesData_of_parts htxt haaaa ha (hcopied _) (hcopied _)
    (fun w hw => isWord_of_mem_splitWords hw) (fun w hw => isWord_of_mem_splitWords hw)
    (hcopied _) (hcopied _)

theorem flatMap_splitWords {words : List Str} (h : ∀ w ∈ words, IsWord w) :
    words.flatMap splitWords = words := by
  induction words with
  | nil => rfl
  | cons word words ih =>
    obtain ⟨hword, hwords⟩ := List.forall_mem_cons.mp h
    rw [List.flatMap_cons, splitWords_word hword, ih hwords]
    rfl

theorem isWord_of_isPlain {s : Str} (hne : s ≠ []) (h : isPlain s = true) : IsWord s :=
  ⟨hne, fun c hc => (isPlain_iff.mp h c hc).2⟩

theorem tokens_of_namedData {count : Nat} {tokens : List Str}
    (h : (namedData count tokens).isSome = true) : ∃ numbers target,
      tokens = numbers ++ [target] ∧ numbers.length = count ∧
      (∀ number ∈ numbers, isAsciiDigits number = true) ∧ isPlain target = true := by
  rw [namedData] at h
  split at h
  · rename_i target hdrop
    have hok := Option.isSome_ite.mp h
    rw [Bool.and_eq_true, List.all_eq_true] at hok
    have hcount := congrArg List.length hdrop
    rw [List.length_drop, List.length_singleton] at hcount
    refine ⟨tokens.take count, target, ?_, ?_, hok⟩
    · rw [← hdrop, List.take_append_drop]
    · rw [List.length_take]
      omega
  · cases h

theorem namedData_append {numbers : List Str} {target : Str}
    (hdigits : ∀ number ∈ numbers, isAsciiDigits number = true) (hplain : isPlain target = true) :
    namedData numbers.length (numbers ++ [target]) =
      some (.named (numbers.map decimalValue) (nameData target)) := by
  rw [namedData, List.drop_left, List.take_left]
  dsimp only
  rw [hplain, List.all_eq_true.mpr hdigits]
  rfl

theorem canonicalParts_named {numbers : List Str} {target : Str} (hcaa : rtype ≠ "CAA".toList)
    (hfields : nameFields rtype = [numbers.length]) :
    canonicalParts tables rtype (numbers ++ [target]) =
      numbers ++ [canonicalName tables target] := by
  rw [canonicalParts, hfields, if_neg fun h => hcaa h.1, List.foldl_cons, List.foldl_nil]
  clear hfields
  induction numbers with
  | nil => rfl
  | cons number numbers ih =>
    rw [List.length_cons, List.cons_append, List.modify_succ_cons, ih, List.cons_append]

theorem comparesData_named (htxt : rtype ≠ "TXT".toList) (haaaa : rtype ≠ "AAAA".toList)
    (ha : rtype ≠ "A".toList) (hcaa : rtype ≠ "CAA".toList) {count : Nat}
    (hfields : nameFields rtype = [count])
    (hdata : ∀ text, recordData paramOctets rtype text = namedData count (tokensOf text))
    (hfirst : (namedData count (tokensOf a)).isSome = true)
    (hsecond : (namedData count (tokensOf b)).isSome = true) :
    ComparesData tables paramOctets rtype a b ↔
      (namedData count (tokensOf a) = namedData count (tokensOf b) →
        (tokensOf a).take count = (tokensOf b).take count) := by
  have hparts : ∀ {text : Str}, (namedData count (tokensOf text)).isSome = true →
      ∃ numbers target, (tokensOf text).take count = numbers ∧ namedData count (tokensOf text) =
          some (.named (numbers.map decimalValue) (nameData target)) ∧
        canonicalParts tables rtype (splitWords (strip text)) = numbers ++ [nameData target] ∧
        (∀ w ∈ numbers ++ [nameData target], IsWord w) ∧
        canonicalParts tables rtype (numbers ++ [nameData target]) =
          numbers ++ [nameData target] := by
    intro text htext
    obtain ⟨numbers, target, htokens, rfl, hdigits, hplain⟩ := tokens_of_namedData htext
    have htarget : target ≠ [] :=
       ne_nil_of_mem_tokensOf (htokens ▸ List.mem_append_right _ (List.mem_singleton_self _))
    have hnumbers : ∀ number ∈ numbers, IsWord number := fun number hnumber =>
      isWord_of_isAsciiDigits (hdigits number hnumber)
    have hwords : ∀ w ∈ numbers ++ [target], IsWord w := fun w hw => by
      rcases List.mem_append.mp hw with hw | hw
      · exact hnumbers w hw
      · rw [List.mem_singleton.mp hw]
        exact isWord_of_isPlain htarget hplain
    refine ⟨numbers, target, ?_, ?_, ?_, ?_, ?_⟩
    · rw [htokens, List.take_left]
    · rw [htokens]
      exact namedData_append hdigits hplain
    · rw [splitWords_strip_eq, htokens, flatMap_splitWords hwords,
        canonicalParts_named hcaa hfields, canonicalName_eq hplain]
    · intro w hw
      rcases List.mem_append.mp hw with hw | hw
      · exact hnumbers w hw
      · rw [List.mem_singleton.mp hw]
        exact isWord_of_isPlain (nameData_ne_nil target) (isPlain_nameData hplain)
    · rw [canonicalParts_named hcaa hfields, canonicalName_nameData hplain]
  obtain ⟨ns, target, htake, hdataFirst, hpartsFirst, hwordsFirst, hownFirst⟩ := hparts hfirst
  obtain ⟨ms, other, htake', hdataSecond, hpartsSecond, hwordsSecond, hownSecond⟩ :=
    hparts hsecond
  rw [comparesData_of_parts htxt haaaa ha hpartsFirst hpartsSecond hwordsFirst hwordsSecond
    hownFirst hownSecond, hdata, hdata, hdataFirst, hdataSecond, htake, htake',
    Option.some.injEq, RecordData.named.injEq, List.append_singleton_inj]
  constructor
  · intro hsame hvalues
    exact (hsame.mpr hvalues).1
  · intro halike
    refine ⟨fun ⟨hnumbers, hname⟩ => ⟨by rw [hnumbers], hname⟩, fun hvalues => ?_⟩
    exact ⟨halike hvalues, hvalues.2⟩

theorem tokens_of_propertyData {tokens : List Str} (h : (propertyData tokens).isSome = true) :
    ∃ flags tag value, tokens = [flags, tag, value] ∧ isAsciiDigits flags = true ∧
      isPlain tag = true ∧ propertyData tokens =
        some (.property (decimalValue flags) (tag.map Char.toLower) value) := by
  rcases tokens with _ | ⟨flags, _ | ⟨tag, _ | ⟨value, _ | ⟨other, rest⟩⟩⟩⟩
  case cons.cons.cons.nil =>
    rw [propertyData] at h
    have hok := Option.isSome_ite.mp h
    have hplain := hok
    rw [Bool.and_eq_true] at hplain
    refine ⟨flags, tag, value, rfl, hplain.1, hplain.2, ?_⟩
    rw [propertyData, if_pos hok]
  all_goals cases h

theorem canonicalParts_property {flags tag : Str} {words : List Str}
    (hcaa : rtype = "CAA".toList) : canonicalParts tables rtype (flags :: tag :: words) =
      flags :: tables.lower tag :: words := by
  have hfields : nameFields rtype = [] := by
    rw [hcaa]
    simp only [nameFields, toList_literal]
    decide
  rw [canonicalParts, hfields, if_pos ⟨hcaa, Nat.le_add_left _ _⟩]
  rfl

theorem comparesData_property (htxt : rtype ≠ "TXT".toList) (haaaa : rtype ≠ "AAAA".toList)
    (ha : rtype ≠ "A".toList) (hcaa : rtype = "CAA".toList)
    (hdata : ∀ text, recordData paramOctets rtype text = propertyData (tokensOf text))
    (hfirst : (propertyData (tokensOf a)).isSome = true)
    (hsecond : (propertyData (tokensOf b)).isSome = true) :
    ComparesData tables paramOctets rtype a b ↔
      AlikeProperty (tokensOf a) (tokensOf b) := by
  have hparts : ∀ {text flags tag value : Str}, tokensOf text = [flags, tag, value] →
      isAsciiDigits flags = true → isPlain tag = true →
      canonicalParts tables rtype (splitWords (strip text)) =
          flags :: tag.map Char.toLower :: splitWords value ∧
        (∀ w ∈ flags :: tag.map Char.toLower :: splitWords value, IsWord w) ∧
        canonicalParts tables rtype (flags :: tag.map Char.toLower :: splitWords value) =
          flags :: tag.map Char.toLower :: splitWords value := by
    intro text flags tag value htokens hflags htag
    have hne : tag ≠ [] :=
       ne_nil_of_mem_tokensOf (htokens ▸ List.mem_cons_of_mem _ List.mem_cons_self)
    have hflagsWord := isWord_of_isAsciiDigits hflags
    have htagWord := isWord_of_isPlain hne htag
    refine ⟨?_, ?_, ?_⟩
    · rw [splitWords_strip_eq, htokens, List.flatMap_cons, List.flatMap_cons, List.flatMap_cons,
        splitWords_word hflagsWord, splitWords_word htagWord, List.flatMap_nil, List.append_nil,
        List.singleton_append, List.singleton_append, canonicalParts_property hcaa,
        lower_of_isPlain htag]
    · refine List.forall_mem_cons.mpr ⟨hflagsWord, List.forall_mem_cons.mpr ⟨?_, fun w hw =>
        isWord_of_mem_splitWords hw⟩⟩
      exact isWord_of_isPlain (fun hnil => hne (List.map_eq_nil_iff.mp hnil)) (isPlain_lower htag)
    · rw [canonicalParts_property hcaa, lower_lower_of_isPlain htag]
  obtain ⟨flags, tag, value, htokens, hflags, htag, hvalue⟩ := tokens_of_propertyData hfirst
  obtain ⟨flags', tag', value', htokens', hflags', htag', hvalue'⟩ :=
    tokens_of_propertyData hsecond
  obtain ⟨hpartsFirst, hwordsFirst, hownFirst⟩ := hparts htokens hflags htag
  obtain ⟨hpartsSecond, hwordsSecond, hownSecond⟩ := hparts htokens' hflags' htag'
  rw [comparesData_of_parts htxt haaaa ha hpartsFirst hpartsSecond hwordsFirst hwordsSecond
    hownFirst hownSecond, hdata, hdata, htokens, htokens', AlikeProperty, ← htokens, ← htokens',
    hvalue, hvalue', Option.some.injEq, RecordData.property.injEq, List.cons.injEq,
    List.cons.injEq]
  constructor
  · intro hsame
    refine ⟨fun hvalues => (hsame.mpr hvalues).1, fun heq htags hwords => ?_⟩
    exact (hsame.mp ⟨heq, htags, hwords⟩).2.2
  · rintro ⟨hfine, hcoarse⟩
    constructor
    · rintro ⟨heq, htags, hwords⟩
      exact ⟨by rw [heq], htags, hcoarse heq htags hwords⟩
    · intro hvalues
      exact ⟨hfine hvalues, hvalues.2.1, by rw [hvalues.2.2]⟩

theorem isWord_of_associationData {text : Str}
    (h : (associationData (tokensOf text)).isSome = true) : ∀ w ∈ tokensOf text, IsWord w := by
  have hne : ∀ w ∈ tokensOf text, w ≠ [] := fun w hw => ne_nil_of_mem_splitTokens hw
  rw [associationData] at h
  have hok := Option.isSome_ite.mp h
  simp only [Bool.and_eq_true, List.all_eq_true] at hok
  intro w hw
  rw [← List.take_append_drop 3 (tokensOf text), List.mem_append] at hw
  rcases hw with hw | hw
  · exact isWord_of_isAsciiDigits (hok.1.1 w hw)
  · refine ⟨hne w (List.mem_of_mem_drop hw), fun c hc => ?_⟩
    have hhex := List.all_eq_true.mp (hok.2 w hw) c hc
    rw [hexDigit] at hhex
    split_ifs at hhex with hdigit hlower hupper
    · have := toNat_of_isDigit hdigit
      exact isSpace_of_graphic (by omega) (by omega)
    · have hlo : 'a'.toNat ≤ c.toNat := hlower.1
      have hhi : c.toNat ≤ 'f'.toNat := hlower.2
      have ha : 'a'.toNat = 97 := rfl
      have hf : 'f'.toNat = 102 := rfl
      exact isSpace_of_graphic (by omega) (by omega)
    · have hlo : 'A'.toNat ≤ c.toNat := hupper.1
      have hhi : c.toNat ≤ 'F'.toNat := hupper.2
      have ha : 'A'.toNat = 65 := rfl
      have hf : 'F'.toNat = 70 := rfl
      exact isSpace_of_graphic (by omega) (by omega)
    · cases hhex

theorem isSpace_of_isAddressChar {c : Char} (h : isAddressChar c = true) : isSpace c = false := by
  rw [isAddressChar, toList_literal, List.contains_iff_mem] at h
  have hall : (['0', '1', '2', '3', '4', '5', '6', '7', '8', '9', 'a', 'b', 'c', 'd', 'e', 'f', '.',
      ':'].all fun c => !isSpace c) = true := rfl
  exact Bool.not_eq_true' _ ▸ List.all_eq_true.mp hall c h

theorem comparesData_address (value : Str → Option Nat) (text : Nat → Str)
    (norm : Str → Option Str) (bound : Nat)
    (hnorm : ∀ s, normaliseRdata tables rtype s = norm (strip s))
    (hdata : ∀ s, recordData paramOctets rtype s = addressData value (strip s))
    (hvalue : ∀ s, '/' ∉ s → '%' ∉ s → norm s = (value s).map text)
    (hlt : ∀ s v, value s = some v → v < bound)
    (hread : ∀ v, v < bound → value (text v) = some v)
    (hchars : ∀ v, ∀ c ∈ text v, isAddressChar c = true)
    (hfirst : (recordData paramOctets rtype a).isSome = true)
    (hsecond : (recordData paramOctets rtype b).isSome = true) :
    ComparesData tables paramOctets rtype a b := by
  have haddress : ∀ {s : Str}, (recordData paramOctets rtype s).isSome = true → ∃ v,
      v < bound ∧ recordData paramOctets rtype s = some (.address v) ∧
        normaliseRdata tables rtype s = some (text v) := by
    intro s hs
    rw [hdata, addressData] at hs
    rw [hdata, addressData, hnorm]
    split_ifs at hs ⊢ with hbad
    · cases hs
    · obtain ⟨v, hv⟩ := Option.isSome_iff_exists.mp ((Option.isSome_map).symm.trans hs)
      simp only [Bool.or_eq_true, List.contains_iff_mem, not_or] at hbad
      refine ⟨v, hlt _ v hv, by rw [hv]; rfl, ?_⟩
      rw [hvalue _ hbad.1 hbad.2, hv]
      rfl
  have hown : ∀ v, v < bound → normaliseRdata tables rtype (text v) = some (text v) := by
    intro v hv
    have hstrip : strip (text v) = text v := strip_of_noSpace fun c hc =>
      isSpace_of_isAddressChar (hchars v c hc)
    have hnot : ∀ c, isAddressChar c = false → c ∉ text v := fun c hc hmem => by
      rw [hchars v c hmem] at hc
      cases hc
    rw [hnorm, hstrip, hvalue _ (hnot '/' (by decide)) (hnot '%' (by decide)), hread v hv]
    rfl
  obtain ⟨v, hv, hdataFirst, hnormFirst⟩ := haddress hfirst
  obtain ⟨w, hw, hdataSecond, hnormSecond⟩ := haddress hsecond
  refine ⟨text v, text w, hnormFirst, hnormSecond, ?_, hown v hv, hown w hw⟩
  rw [hdataFirst, hdataSecond, Option.some.injEq, RecordData.address.injEq]
  refine ⟨fun h => ?_, fun h => by rw [h]⟩
  exact Option.some.inj ((hread v hv).symm.trans ((congrArg value h).trans (hread w hw)))

theorem nameFields_of_named (h : rtype ∈ probeTypes) (htxt : rtype ≠ "TXT".toList)
    (haaaa : rtype ≠ "AAAA".toList) (ha : rtype ≠ "A".toList) (hcaa : rtype ≠ "CAA".toList)
    (htlsa : rtype ≠ "TLSA".toList) (hservice : ¬(rtype = "HTTPS".toList ∨ rtype = "SVCB".toList)) :
    nameFields rtype = [leadingNumbers rtype] := by
  have hall : ∀ rtype ∈ probeTypes, rtype ≠ "TXT".toList → rtype ≠ "AAAA".toList →
      rtype ≠ "A".toList → rtype ≠ "CAA".toList → rtype ≠ "TLSA".toList →
      ¬(rtype = "HTTPS".toList ∨ rtype = "SVCB".toList) →
      nameFields rtype = [leadingNumbers rtype] := by
    simp only [probeTypes, nameFields, leadingNumbers, toList_literal]
    decide
  exact hall rtype h htxt haaaa ha hcaa htlsa hservice

theorem canonicalParts_of_copied {words : List Str} (hfields : nameFields rtype = [])
    (hcaa : rtype ≠ "CAA".toList) : canonicalParts tables rtype words = words := by
  rw [canonicalParts, hfields, if_neg fun h => hcaa h.1]
  rfl

theorem comparesData_strings (htxt : rtype = "TXT".toList)
    (hfirst : (recordData paramOctets rtype a).isSome = true)
    (hsecond : (recordData paramOctets rtype b).isSome = true) :
    ComparesData tables paramOctets rtype a b ↔
      (tokensOf a = tokensOf b → strip a = strip b) := by
  have hnorm : ∀ text, normaliseRdata tables rtype text = some (strip text) := fun text => by
    rw [normaliseRdata, if_pos htxt]
  have hdata : ∀ {text : Str}, (recordData paramOctets rtype text).isSome = true →
      recordData paramOctets rtype text = some (.strings (tokensOf text)) := fun {text} h => by
    rw [recordData, if_pos htxt] at h ⊢
    split_ifs at h ⊢
    · cases h
    · rfl
  have hsame : recordData paramOctets rtype a = recordData paramOctets rtype b ↔
      tokensOf a = tokensOf b := by
    rw [hdata hfirst, hdata hsecond, Option.some.injEq, RecordData.strings.injEq]
  rw [ComparesData, hsame]
  constructor
  · rintro ⟨m, n, hm, hn, hiff, -, -⟩ htokens
    rw [hnorm] at hm hn
    rw [Option.some.inj hm, Option.some.inj hn]
    exact hiff.mpr htokens
  · intro halike
    refine ⟨strip a, strip b, hnorm a, hnorm b, ⟨fun h => ?_, halike⟩, ?_, ?_⟩
    · rw [tokensOf, h, tokensOf]
    · rw [hnorm, strip_strip]
    · rw [hnorm, strip_strip]

theorem comparesData_iff (tables : CharTables) (paramOctets : List Str → List Nat)
    (hprobe : rtype ∈ probeTypes) (hfirst : (recordData paramOctets rtype a).isSome = true)
    (hsecond : (recordData paramOctets rtype b).isSome = true) :
    ComparesData tables paramOctets rtype a b ↔ SpelledAlike paramOctets rtype a b := by
  rw [SpelledAlike]
  by_cases htxt : rtype = "TXT".toList
  · rw [if_pos htxt]
    exact comparesData_strings htxt hfirst hsecond
  rw [if_neg htxt]
  by_cases haaaa : rtype = "AAAA".toList
  · rw [if_pos (Or.inl haaaa), iff_true]
    refine comparesData_address ipv6Value ipv6Text ipv6AddressText (2 ^ 128)
      (fun s => ?_) (fun s => ?_) (fun s hslash hscope => ?_) (fun s v => ipv6Value_lt)
      (fun v => ipv6Value_ipv6Text) (fun v c hc => ipv6Text_chars hc) hfirst hsecond
    · rw [normaliseRdata, if_neg htxt, if_pos haaaa]
    · rw [recordData, if_neg htxt, if_pos haaaa]
    · rw [ipv6AddressText, if_neg (fun h => hslash (List.contains_iff_mem.mp h)),
        splitOnChar_of_not_mem hscope]
  by_cases ha : rtype = "A".toList
  · rw [if_pos (Or.inr ha), iff_true]
    refine comparesData_address ipv4Value ipv4Text ipv4AddressText (2 ^ 32)
      (fun s => ?_) (fun s => ?_) (fun s hslash _ => ?_) (fun s v => ipv4Value_lt)
      (fun v => ipv4Value_ipv4Text) (fun v c hc => ipv4Text_chars hc) hfirst hsecond
    · rw [normaliseRdata, if_neg htxt, if_neg haaaa, if_pos ha]
    · rw [recordData, if_neg htxt, if_neg haaaa, if_pos ha]
    · rw [ipv4AddressText, if_neg fun h => hslash (List.contains_iff_mem.mp h)]
  rw [if_neg (not_or.mpr ⟨haaaa, ha⟩)]
  have hfields : ∀ text, recordData paramOctets rtype text =
      if rtype = "CAA".toList then propertyData (tokensOf text)
      else if rtype = "TLSA".toList then associationData (tokensOf text)
      else if rtype = "HTTPS".toList ∨ rtype = "SVCB".toList then
        serviceData paramOctets (tokensOf text)
      else namedData (leadingNumbers rtype) (tokensOf text) := fun text => by
    rw [recordData, if_neg htxt, if_neg haaaa, if_neg ha]
  by_cases hcaa : rtype = "CAA".toList
  · have hdata := fun text => (hfields text).trans (if_pos hcaa)
    rw [hdata] at hfirst hsecond
    rw [if_pos hcaa]
    exact comparesData_property htxt haaaa ha hcaa hdata hfirst hsecond
  rw [if_neg hcaa]
  by_cases htlsa : rtype = "TLSA".toList
  · have hdata := fun text => ((hfields text).trans (if_neg hcaa)).trans (if_pos htlsa)
    have hnames : nameFields rtype = [] := by
      rw [htlsa]
      simp only [nameFields, toList_literal]
      decide
    rw [hdata] at hfirst hsecond
    rw [if_pos htlsa, comparesData_of_copied htxt haaaa ha fun words =>
      canonicalParts_of_copied hnames hcaa, hdata, hdata,
      flatMap_splitWords (isWord_of_associationData hfirst),
      flatMap_splitWords (isWord_of_associationData hsecond)]
    exact ⟨fun h => h.mpr, fun h => ⟨fun heq => by rw [heq], h⟩⟩
  rw [if_neg htlsa]
  by_cases hservice : rtype = "HTTPS".toList ∨ rtype = "SVCB".toList
  · have hdata := fun text =>
      ((hfields text).trans (if_neg hcaa)).trans ((if_neg htlsa).trans (if_pos hservice))
    have hnames : nameFields rtype = [] := by
      have hall : ∀ rtype, rtype = "HTTPS".toList ∨ rtype = "SVCB".toList →
          nameFields rtype = [] := by
        simp only [nameFields, toList_literal, forall_eq_or_imp, forall_eq]
        decide
      exact hall rtype hservice
    rw [if_pos hservice, comparesData_of_copied htxt haaaa ha fun words =>
      canonicalParts_of_copied hnames hcaa, hdata, hdata]
  · have hdata := fun text =>
      ((hfields text).trans (if_neg hcaa)).trans ((if_neg htlsa).trans (if_neg hservice))
    rw [hdata] at hfirst hsecond
    rw [if_neg hservice]
    exact comparesData_named htxt haaaa ha hcaa
      (nameFields_of_named hprobe htxt haaaa ha hcaa htlsa hservice) hdata hfirst hsecond

/-- Two spellings of one mail exchanger. -/
theorem comparesData_exchanger : (ComparesData latinTables (fun _ => []) "MX".toList
      "10 MX1.Example.Test".toList "10 mx1.example.test.".toList ↔
    SpelledAlike (fun _ => []) "MX".toList "10 MX1.Example.Test".toList
      "10 mx1.example.test.".toList) :=
  comparesData_iff latinTables (fun _ => [])
    (by simp only [probeTypes, toList_literal]; decide)
    (by simp only [recordData, toList_literal]; decide)
    (by simp only [recordData, toList_literal]; decide)

theorem not_comparesData {m n : Str} (hm : normaliseRdata tables rtype a = some m)
    (hn : normaliseRdata tables rtype b = some n)
    (h : ¬(m = n ↔ recordData paramOctets rtype a = recordData paramOctets rtype b)) :
    ¬ComparesData tables paramOctets rtype a b := by
  rintro ⟨m', n', hm', hn', hiff, -, -⟩
  rw [hm] at hm'
  rw [hn] at hn'
  rw [← Option.some.inj hm', ← Option.some.inj hn'] at hiff
  exact h hiff

/-- Digits of one certificate in two cases, and two properties that differ in blanks. -/
theorem digits_and_blanks :
    (¬ComparesData latinTables (fun _ => []) "TLSA".toList "3 1 1 AB".toList "3 1 1 ab".toList) ∧
      ¬ComparesData latinTables (fun _ => []) "CAA".toList "0 issue \"ca.test; a  b\"".toList
        "0 issue \"ca.test; a b\"".toList := by
  constructor
  · refine not_comparesData (m := "3 1 1 AB".toList) (n := "3 1 1 ab".toList) ?_ ?_ ?_
    · simp only [normaliseRdata, nameFields, toList_literal]
      decide
    · simp only [normaliseRdata, nameFields, toList_literal]
      decide
    · simp only [recordData, toList_literal]
      decide
  · refine not_comparesData (m := "0 issue \"ca.test; a b\"".toList)
      (n := "0 issue \"ca.test; a b\"".toList) ?_ ?_ ?_
    · simp only [normaliseRdata, nameFields, toList_literal]
      decide
    · simp only [normaliseRdata, nameFields, toList_literal]
      decide
    · simp only [recordData, toList_literal]
      decide

end Parts

end ZoneCheck
end SharedInfra.Dns
