import SharedInfra.CiJump.DestinationSafety
import SharedInfra.Sequences.FirstMatch

/-!
# Written key lines read back

What `wanted_lines` writes, `parse_file` reads: one key line a key, with the
options the role means.  The splitter and the token scanner see a text of items,
whose quoted parts hold neither a quote nor a backslash (`ItemText`); that every
accepted destination makes such items is what the input checks are for.
-/

namespace SharedInfra.CiJump

open Python

section Items

def isItemChar (c : Char) : Bool := c != '"' && c != ',' && c != ' ' && c != '\t'

/-- A character that they pass over inside quotes. -/
def isQuotedChar (c : Char) : Bool := c != '"' && c != '\\'

theorem isItemChar_iff {c : Char} :
    isItemChar c = true ↔ c ≠ '"' ∧ c ≠ ',' ∧ c ≠ ' ' ∧ c ≠ '\t' := by
  simp [isItemChar, and_assoc]

theorem isQuotedChar_iff {c : Char} : isQuotedChar c = true ↔ c ≠ '"' ∧ c ≠ '\\' := by
  simp [isQuotedChar]

/-- One option as the scanners see it: characters they pass over, and quoted parts. -/
inductive ItemText : Str → Prop
  | nil : ItemText []
  | plain {c : Char} {s : Str} : isItemChar c = true → ItemText s → ItemText (c :: s)
  | quoted {v s : Str} : v.all isQuotedChar = true → ItemText s → ItemText ('"' :: (v ++ '"' :: s))

theorem itemText_plain {s : Str} (h : s.all isItemChar = true) {rest : Str}
    (hrest : ItemText rest) : ItemText (s ++ rest) := by
  rw [List.all_eq_true] at h
  induction s with
  | nil => exact hrest
  | cons c s ih =>
    obtain ⟨hc, hs⟩ := List.forall_mem_cons.mp h
    exact .plain hc (ih hs)

theorem tokenEndFrom_quoted {v rest : Str} (h : ∀ c ∈ v, isQuotedChar c = true) :
    tokenEndFrom true false (v ++ '"' :: rest) = v.length + 1 + tokenEndFrom false false rest := by
  induction v with
  | nil => simp [tokenEndFrom, Nat.add_comm]
  | cons c v ih =>
    obtain ⟨hc, hv⟩ := List.forall_mem_cons.mp h
    obtain ⟨hquote, hslash⟩ := isQuotedChar_iff.mp hc
    rw [List.cons_append, tokenEndFrom, if_neg (by simp [hslash]), if_neg hquote,
      if_neg (by simp), ih hv, List.length_cons]
    omega

theorem tokenEndFrom_item {s rest : Str} (h : ItemText s) :
    tokenEndFrom false false (s ++ rest) = s.length + tokenEndFrom false false rest := by
  induction h with
  | nil => simp
  | @plain c s hchar _ ih =>
    have hc := isItemChar_iff.mp hchar
    rw [List.cons_append, tokenEndFrom, if_neg (by simp), if_neg hc.1, if_neg (by simp [hc.2.2]),
      ih, List.length_cons]
    omega
  | @quoted v s hv _ ih =>
    rw [List.cons_append, tokenEndFrom, if_neg (by simp), if_pos rfl, List.append_assoc,
      List.cons_append, Bool.not_false, tokenEndFrom_quoted (List.all_eq_true.mp hv), ih]
    simp only [List.length_cons, List.length_append]
    omega

theorem splitOptionsFrom_quoted {v rest current : Str} (h : ∀ c ∈ v, isQuotedChar c = true) :
    splitOptionsFrom true false current (v ++ '"' :: rest) =
      splitOptionsFrom false false (current ++ v ++ ['"']) rest := by
  induction v generalizing current with
  | nil => simp [splitOptionsFrom]
  | cons c v ih =>
    obtain ⟨hc, hv⟩ := List.forall_mem_cons.mp h
    obtain ⟨hquote, hslash⟩ := isQuotedChar_iff.mp hc
    rw [List.cons_append, splitOptionsFrom, if_neg (by simp [hslash]), if_neg hquote,
      if_neg (by simp), ih hv]
    simp

theorem splitOptionsFrom_item {s rest current : Str} (h : ItemText s) :
    splitOptionsFrom false false current (s ++ rest) =
      splitOptionsFrom false false (current ++ s) rest := by
  induction h generalizing current with
  | nil => simp
  | @plain c s hchar _ ih =>
    have hc := isItemChar_iff.mp hchar
    rw [List.cons_append, splitOptionsFrom, if_neg (by simp), if_neg hc.1,
      if_neg (by simp [hc.2.1]), ih]
    simp
  | @quoted v s hv _ ih =>
    rw [List.cons_append, splitOptionsFrom, if_neg (by simp), if_pos rfl, List.append_assoc,
      List.cons_append, Bool.not_false, splitOptionsFrom_quoted (List.all_eq_true.mp hv), ih]
    simp

variable {items : List Str}

theorem splitOptions_items (hne : items ≠ []) (h : ∀ item ∈ items, ItemText item) :
    splitOptions (joinWith [','] items) = items := by
  rw [splitOptions]
  induction items with
  | nil => exact absurd rfl hne
  | cons item items ih =>
    obtain ⟨hitem, hitems⟩ := List.forall_mem_cons.mp h
    cases items with
    | nil =>
      have := @splitOptionsFrom_item item [] [] hitem
      rw [List.append_nil] at this
      rw [joinWith, this]
      rfl
    | cons next items =>
      rw [joinWith_cons_cons, List.append_assoc, splitOptionsFrom_item hitem,
        List.singleton_append, splitOptionsFrom, if_neg (by simp), if_neg (by decide),
        if_pos (by simp), ih (by simp) hitems]
      rfl

theorem optionTokenEnd_items {rest : Str} (h : ∀ item ∈ items, ItemText item) :
    optionTokenEnd (joinWith [','] items ++ ' ' :: rest) = (joinWith [','] items).length := by
  rw [optionTokenEnd]
  induction items with
  | nil => rw [joinWith, List.nil_append, tokenEndFrom, if_neg (by simp), if_neg (by decide),
      if_pos (by simp), List.length_nil]
  | cons item items ih =>
    obtain ⟨hitem, hitems⟩ := List.forall_mem_cons.mp h
    cases items with
    | nil =>
      rw [joinWith, tokenEndFrom_item hitem, tokenEndFrom, if_neg (by simp),
        if_neg (by decide), if_pos (by simp), Nat.add_zero]
    | cons next items =>
      rw [joinWith_cons_cons, List.append_assoc, List.append_assoc, tokenEndFrom_item hitem,
        List.singleton_append, tokenEndFrom, if_neg (by simp), if_neg (by decide),
        if_neg (by simp), ih hitems]
      simp only [List.length_append, List.length_cons, List.length_nil]
      omega

end Items

section Accepted

variable {ω : Type} {t : CharTables}

theorem passing_of_check {v : Object ω} {destinations : List Str}
    (h : checkDestinations t v = .ok destinations) : ∀ d ∈ destinations, Passing d := by
  match v, h with
  | .list (first :: rest), h =>
    obtain ⟨entries, hpass, -, hcases⟩ :=
      scanDestinations_cases t 1 (first :: rest) (by simp) List.Pairwise.nil
    have hscan : scanDestinations t 1 [] (first :: rest) = .ok destinations := h
    rw [hscan] at hcases
    rcases hcases with ⟨-, h⟩ | ⟨_, _, -, -, h⟩ | ⟨_, _, -, -, _, h⟩
    · rw [List.nil_append, Except.ok.injEq] at h
      exact h ▸ hpass
    · cases h
    · cases h

/-- A type and a body that go on a line as they are. -/
def IsKeyWords (key : Str × Str) : Prop := isKeyType key.1 = true ∧ isBase64Body key.2 = true

theorem isKeyWords_of_keyParts {key : Str} {parts : Str × Str} (h : keyParts key = some parts) :
    IsKeyWords parts := by
  rw [keyParts] at h
  by_cases hascii : (!isAscii key || !key.all isPrintableAscii) = true
  · rw [if_pos hascii] at h
    cases h
  rw [if_neg hascii] at h
  split at h
  · rename_i keyType body _ _
    simp only [Option.bind_eq_bind, Option.bind_eq_some_iff] at h
    obtain ⟨expected, hexpected, h⟩ := h
    by_cases hbody : (!isBase64Body body) = true
    · rw [if_pos hbody] at h
      cases h
    rw [if_neg hbody] at h
    simp only [Option.bind_eq_some_iff] at h
    obtain ⟨raw, -, pieces, -, h⟩ := h
    by_cases hfit : piecesFit keyType expected pieces = true
    · rw [if_pos hfit, Option.some.injEq] at h
      refine ⟨?_, ?_⟩
      · rw [← h, isKeyType, hexpected]
        rfl
      · rw [← h]
        simpa using hbody
    · rw [if_neg hfit] at h
      cases h
  · cases h

theorem isKeyWords_of_scan {number : Nat} {found keys : List (Str × Str)} {items : List (Object ω)}
    (hfound : ∀ key ∈ found, IsKeyWords key) (h : scanKeys number found items = .ok keys) :
    (∀ key ∈ keys, IsKeyWords key) ∧ found.length + items.length = keys.length := by
  induction items generalizing number found with
  | nil =>
    obtain rfl : found = keys := Except.ok.inj h
    exact ⟨hfound, rfl⟩
  | cons item items ih =>
    cases item with
    | list _ | other _ => cases h
    | text entry =>
      rw [scanKeys] at h
      cases hparts : keyParts entry with
      | none =>
        rw [hparts] at h
        cases h
      | some parts =>
        rw [hparts] at h
        by_cases hrepeat : parts ∈ found
        · simp only [if_pos hrepeat] at h
          cases h
        · simp only [if_neg hrepeat] at h
          obtain ⟨hkeys, hlength⟩ := ih (fun key hkey => by
            rcases List.mem_append.mp hkey with hkey | hkey
            · exact hfound key hkey
            · exact List.mem_singleton.mp hkey ▸ isKeyWords_of_keyParts hparts) h
          refine ⟨hkeys, ?_⟩
          simp only [List.length_append, List.length_cons, List.length_nil] at hlength ⊢
          omega

theorem isKeyWords_of_check {v : Object ω} {keys : List (Str × Str)} (h : checkKeys v = .ok keys) :
    (∀ key ∈ keys, IsKeyWords key) ∧ keys ≠ [] := by
  match v, h with
  | .list (first :: rest), h =>
    obtain ⟨hkeys, hlength⟩ := isKeyWords_of_scan (by simp) (show scanKeys 1 [] _ = _ from h)
    refine ⟨hkeys, ?_⟩
    rintro rfl
    simp at hlength

theorem base64Body_chars {body : Str} (h : isBase64Body body = true) :
    ∀ c ∈ body, isBase64Char c = true ∨ c = '=' := by
  rw [isBase64Body, Bool.and_eq_true, Bool.and_eq_true, List.all_eq_true] at h
  intro c hc
  rw [← List.takeWhile_append_dropWhile (p := isBase64Char) (l := body)] at hc
  rcases List.mem_append.mp hc with hc | hc
  · exact Or.inl (List.mem_takeWhile_imp hc)
  · exact Or.inr (by simpa using h.1.2 c hc)

theorem base64Body_ascii {body : Str} (h : isBase64Body body = true) :
    ∀ c ∈ body, c.toNat < 128 := by
  intro c hc
  rcases base64Body_chars h c hc with hchar | rfl
  · rw [isBase64Char, Bool.or_eq_true, Bool.or_eq_true, beq_iff_eq, beq_iff_eq] at hchar
    rcases hchar with (hchar | rfl) | rfl
    · exact toNat_of_isAlphanum hchar
    · decide
    · decide
  · decide

theorem isSpace_base64Body {body : Str} (h : isBase64Body body = true) :
    body ≠ [] ∧ ∀ c ∈ body, isSpace c = false := by
  refine ⟨?_, fun c hc => ?_⟩
  · rintro rfl
    exact absurd h (by decide)
  · exact ascii_cases (p := fun c => isBase64Char c = true ∨ c = '=' → isSpace c = false)
      (by decide) (base64Body_ascii h c hc) (base64Body_chars h c hc)

theorem isKeyType_word {keyType : Str} (h : isKeyType keyType = true) :
    keyType ≠ [] ∧ (∀ c ∈ keyType, isSpace c = false) ∧ ',' ∉ keyType := by
  rw [isKeyType, Option.isSome_iff_exists] at h
  obtain ⟨expected, h⟩ := h
  have hall : ∀ k ∈ keyFields.map Prod.fst,
      k ≠ [] ∧ k.all (fun c => !isSpace c) = true ∧ k.contains ',' = false := by
    decide
  obtain ⟨hne, hspace, hcomma⟩ :=
    hall keyType (List.mem_map_of_mem (Sequences.mem_of_lookup h))
  exact ⟨hne, by simpa using hspace, by simpa using hcomma⟩

end Accepted

section Wanted

variable {t : CharTables} {destinations : List Str} {key : Str × Str}

def wantedItems (destinations : List Str) : List Str :=
  pinnedFixedOptions ++ destinations.map permitOpenOption ++ [commandOption]

/-- What the reader is to make of a written line. -/
def keyLineOf (destinations : List Str) (key : Str × Str) : KeyLine where
  optionsText := wantedOptions destinations
  options := ("restrict".toList, none) :: ("port-forwarding".toList, none) ::
    (destinations.map fun d => ("permitopen".toList, some (permitted d))) ++
      [("command".toList, some pinnedCommand)]
  keyType := key.1
  body := key.2
  text := wantedOptions destinations ++ ' ' :: key.1 ++ ' ' :: key.2

theorem permitted_chars {d : Str} (h : Passing d) :
    (permitted d).all (fun c => isQuotedChar c && !isSpace c) = true := by
  rw [permitted, List.all_append, Bool.and_eq_true, List.all_eq_true]
  refine ⟨fun c hc => ?_, by decide⟩
  have hchars := h.entryChars
  rw [Bool.and_eq_true, Bool.not_eq_true', isQuotedChar_iff]
  refine ⟨⟨?_, ?_⟩, isSpace_entryChar (hchars c hc)⟩
  · rintro rfl
    exact not_mem_of_entryChars hchars (by simp) hc
  · rintro rfl
    exact not_mem_of_entryChars hchars (by simp) hc

theorem permitOpenOption_eq (d : Str) :
    permitOpenOption d = "permitopen".toList ++ '=' :: '"' :: (permitted d ++ ['"']) := by
  have hdef : permitOpenOption d = "permitopen=\"".toList ++ permitted d ++ ['"'] := rfl
  rw [hdef]
  simp only [toList_literal, List.cons_append, List.nil_append]

theorem commandOption_eq :
    commandOption = "command".toList ++ '=' :: '"' :: (pinnedCommand ++ ['"']) := by
  have hdef : commandOption = "command=\"".toList ++ pinnedCommand ++ ['"'] := rfl
  rw [hdef]
  simp only [toList_literal, List.cons_append, List.nil_append]

theorem itemText_value {name value : Str} (hname : name.all isItemChar = true)
    (hvalue : value.all isQuotedChar = true) :
    ItemText (name ++ '=' :: '"' :: (value ++ ['"'])) :=
  itemText_plain hname (.plain (by decide) (.quoted hvalue .nil))

theorem mem_wantedItems {item : Str} (h : item ∈ wantedItems destinations) :
    item ∈ pinnedFixedOptions ∨ (∃ d ∈ destinations, permitOpenOption d = item) ∨
      item = commandOption := by
  rwa [wantedItems, List.mem_append, List.mem_append, List.mem_map, List.mem_singleton,
    or_assoc] at h

theorem itemText_wanted (h : ∀ d ∈ destinations, Passing d) :
    ∀ item ∈ wantedItems destinations, ItemText item := by
  intro item hitem
  rcases mem_wantedItems hitem with hitem | ⟨d, hd, rfl⟩ | rfl
  · have hplain : pinnedFixedOptions.all (fun item => item.all isItemChar) = true := by
      decide
    have := itemText_plain (List.all_eq_true.mp hplain item hitem) .nil
    rwa [List.append_nil] at this
  · have hchars := permitted_chars (h d hd)
    simp only [List.all_eq_true, Bool.and_eq_true] at hchars
    rw [permitOpenOption_eq]
    exact itemText_value (by decide) (List.all_eq_true.mpr fun c hc => (hchars c hc).1)
  · rw [commandOption_eq]
    exact itemText_value (by decide) (by decide)

theorem isSpace_wantedOptions (h : ∀ d ∈ destinations, Passing d) :
    ∀ c ∈ wantedOptions destinations, isSpace c = false := by
  intro c hc
  rcases mem_joinWith hc with hc | ⟨item, hitem, hc⟩
  · rw [List.mem_singleton.mp hc]
    rfl
  rcases mem_wantedItems hitem with hitem | ⟨d, hd, rfl⟩ | rfl
  · have hplain : pinnedFixedOptions.all (fun item => item.all fun c => !isSpace c) = true := by
      decide
    simpa using List.all_eq_true.mp (List.all_eq_true.mp hplain item hitem) c hc
  · have hchars := permitted_chars (h d hd)
    simp only [List.all_eq_true, Bool.and_eq_true, Bool.not_eq_true'] at hchars
    have hname : ("permitopen".toList ++ ['=', '"']).all (fun c => !isSpace c) = true := by
      decide
    have hsplit : permitOpenOption d = ("permitopen".toList ++ ['=', '"']) ++ (permitted d ++ ['"']) := by
      rw [permitOpenOption_eq, List.append_assoc]
      rfl
    rw [hsplit] at hc
    rcases List.mem_append.mp hc with hc | hc
    · simpa using List.all_eq_true.mp hname c hc
    rcases List.mem_append.mp hc with hc | hc
    · exact (hchars c hc).2
    · rw [List.mem_singleton.mp hc]
      rfl
  · have hplain : commandOption.all (fun c => !isSpace c) = true := by decide
    simpa using List.all_eq_true.mp hplain c hc

theorem wantedOptions_eq (destinations : List Str) :
    ∃ more, wantedOptions destinations = "restrict".toList ++ ',' :: more := by
  refine ⟨joinWith [','] ("port-forwarding".toList ::
    (destinations.map permitOpenOption ++ [commandOption])), ?_⟩
  rw [wantedOptions, pinnedFixedOptions, List.cons_append, List.cons_append, List.cons_append,
    List.cons_append, joinWith_cons_cons, List.append_assoc, List.singleton_append]
  rfl

theorem unquoted_quoted (value : Str) : unquoted ('"' :: (value ++ ['"'])) = value := by
  rw [unquoted, if_pos, List.drop_one, List.tail_cons, List.dropLast_concat]
  rw [Bool.and_eq_true, startsWith, endsWith, List.isPrefixOf_iff_prefix, List.isSuffixOf_iff_suffix]
  exact ⟨⟨value ++ ['"'], rfl⟩, ⟨'"' :: value, rfl⟩⟩

/-- A character of the option names the role writes. -/
def isNameChar (c : Char) : Bool := c.isLower || c == '-'

theorem lower_name (t : CharTables) {name : Str} (h : name.all isNameChar = true) :
    t.lower name = name := by
  rw [List.all_eq_true] at h
  have hchars : ∀ c ∈ name, c.toNat < 128 ∧ c.toLower = c := by
    intro c hc
    have hc := h c hc
    rw [isNameChar, Bool.or_eq_true, beq_iff_eq] at hc
    have hascii : c.toNat < 128 := by
      rcases hc with hc | rfl
      · have := toNat_of_isLower hc
        omega
      · decide
    refine ⟨hascii, ?_⟩
    exact ascii_cases (p := fun c => c.isLower = true ∨ c = '-' → c.toLower = c)
      (by decide) hascii hc
  rw [t.lower_plain name fun c hc => Or.inl (hchars c hc).1]
  conv_rhs => rw [← List.map_id name]
  exact List.map_congr_left fun c hc => (hchars c hc).2

theorem not_mem_name {name : Str} (h : name.all isNameChar = true) : '=' ∉ name := by
  intro hmem
  exact absurd (List.all_eq_true.mp h '=' hmem) (by decide)

theorem readOption_value {name value : Str} (hne : name ≠ []) (hname : name.all isNameChar = true) :
    readOption t (name ++ '=' :: '"' :: (value ++ ['"'])) = some (name, some value) := by
  rw [readOption, partition_found (not_mem_name hname)]
  simp only [if_neg hne, lower_name t hname, unquoted_quoted, if_true]

theorem readOption_flag {name : Str} (hne : name ≠ []) (hname : name.all isNameChar = true) :
    readOption t name = some (name, none) := by
  rw [readOption, partition_none (not_mem_name hname)]
  simp only [if_neg hne, lower_name t hname, Bool.false_eq_true, if_false]

theorem mapM_readOption (t : CharTables) (destinations : List Str) (key : Str × Str) :
    (wantedItems destinations).mapM (readOption t) = some (keyLineOf destinations key).options := by
  have hpermit : ∀ ds : List Str, (ds.map permitOpenOption ++ [commandOption]).mapM (readOption t) =
      some ((ds.map fun d => ("permitopen".toList, some (permitted d))) ++
        [("command".toList, some pinnedCommand)]) := by
    intro ds
    induction ds with
    | nil =>
      have hcommand : readOption t commandOption = some ("command".toList, some pinnedCommand) := by
        rw [commandOption_eq]
        exact readOption_value (by decide) (by decide)
      simp [List.mapM_cons, hcommand]
    | cons d ds ih =>
      have hd : readOption t (permitOpenOption d) =
          some ("permitopen".toList, some (permitted d)) := by
        rw [permitOpenOption_eq]
        exact readOption_value (by decide) (by decide)
      rw [List.map_cons, List.cons_append, List.mapM_cons, hd, ih]
      rfl
  have hrestrict : readOption t "restrict".toList = some ("restrict".toList, none) :=
    readOption_flag (by decide) (by decide)
  have hforward : readOption t "port-forwarding".toList = some ("port-forwarding".toList, none) :=
    readOption_flag (by decide) (by decide)
  have hitems : wantedItems destinations = "restrict".toList :: "port-forwarding".toList ::
      (destinations.map permitOpenOption ++ [commandOption]) := rfl
  rw [hitems, List.mapM_cons, List.mapM_cons, hrestrict, hforward, hpermit destinations]
  rfl

/-- The text of a written line. -/
def wantedLine (destinations : List Str) (key : Str × Str) : Str :=
  wantedOptions destinations ++ ' ' :: key.1 ++ ' ' :: key.2

theorem wantedLine_eq (destinations : List Str) (key : Str × Str) :
    wantedLine destinations key = wantedOptions destinations ++ ' ' :: (key.1 ++ ' ' :: key.2) := by
  simp [wantedLine]

theorem trimmed_words {first last : Str} (hfirst : first ≠ []) (hlast : last ≠ [])
    (hspace : ∀ c ∈ first, isSpace c = false) (hspace' : ∀ c ∈ last, isSpace c = false)
    (middle : Str) : Trimmed (first ++ middle ++ last) := by
  obtain ⟨c, first, rfl⟩ := List.exists_cons_of_ne_nil hfirst
  refine ⟨?_, fun d hd => ?_⟩
  · simpa using hspace c (by simp)
  · rw [List.getLast?_append_of_ne_nil _ hlast] at hd
    exact hspace' d (List.mem_of_getLast? hd)

theorem strip_blank {s : Str} (h : Trimmed s) : strip (' ' :: s) = s := by
  have : lstrip (' ' :: s) = lstrip s := by
    rw [lstrip, List.dropWhile_cons_of_pos (by rfl)]
    rfl
  rw [strip, this]
  exact strip_trimmed h

variable (hpass : ∀ d ∈ destinations, Passing d) (hkey : IsKeyWords key)

include hpass hkey

theorem trimmed_wantedLine : Trimmed (wantedLine destinations key) := by
  obtain ⟨hbodyne, hbody⟩ := isSpace_base64Body hkey.2
  obtain ⟨more, hmore⟩ := wantedOptions_eq destinations
  have hne : wantedOptions destinations ≠ [] := by
    rw [hmore]
    simp
  have := trimmed_words hne hbodyne (isSpace_wantedOptions hpass) hbody (' ' :: key.1 ++ [' '])
  have heq : wantedOptions destinations ++ (' ' :: key.1 ++ [' ']) ++ key.2 =
      wantedLine destinations key := by
    simp [wantedLine]
  rwa [heq] at this

theorem optionsAndRest_wantedLine :
    optionsAndRest (wantedLine destinations key) =
      (wantedOptions destinations, key.1 ++ ' ' :: key.2) := by
  obtain ⟨more, hmore⟩ := wantedOptions_eq destinations
  have hspace := isSpace_wantedOptions hpass
  have hne : wantedOptions destinations ≠ [] := by
    rw [hmore]
    simp
  have hnotType : ¬ isKeyType (wantedOptions destinations) = true := by
    intro h
    refine (isKeyType_word h).2.2 ?_
    rw [hmore]
    simp
  have hend : optionTokenEnd (wantedLine destinations key) = (wantedOptions destinations).length := by
    rw [wantedLine_eq]
    exact optionTokenEnd_items (itemText_wanted hpass)
  obtain ⟨htypene, htype, -⟩ := isKeyType_word hkey.1
  obtain ⟨hbodyne, hbody⟩ := isSpace_base64Body hkey.2
  have htrimmed : Trimmed (key.1 ++ ' ' :: key.2) := by
    have := trimmed_words htypene hbodyne htype hbody [' ']
    rwa [List.append_assoc, List.singleton_append] at this
  have hfirst : splitMax 1 (wantedLine destinations key) =
      wantedOptions destinations :: splitMax 0 (' ' :: (key.1 ++ ' ' :: key.2)) := by
    rw [wantedLine_eq]
    exact splitMax_word 0 hne hspace
  rw [optionsAndRest, hfirst]
  simp only [if_neg hnotType, hend]
  rw [wantedLine_eq, List.take_left, List.drop_left, strip_blank htrimmed]

theorem parseLine_wantedLine :
    parseLine t (wantedLine destinations key) = some (keyLineOf destinations key) := by
  obtain ⟨more, hmore⟩ := wantedOptions_eq destinations
  obtain ⟨htypene, htype, -⟩ := isKeyType_word hkey.1
  obtain ⟨hbodyne, hbody⟩ := isSpace_base64Body hkey.2
  have hstrip := strip_trimmed (trimmed_wantedLine hpass hkey)
  have hcontent : ¬ (wantedLine destinations key = [] ||
      startsWith (wantedLine destinations key) ['#']) = true := by
    rw [wantedLine_eq, hmore, toList_literal]
    simp [startsWith, List.isPrefixOf]
  have hwords : splitMax 2 (key.1 ++ ' ' :: key.2) = [key.1, key.2] := by
    rw [splitMax_word 1 htypene htype, splitMax_blank, splitMax_single 1 hbodyne hbody]
  have hoptions : wantedOptions destinations ≠ [] := by
    rw [hmore]
    simp
  have hitems : splitOptions (wantedOptions destinations) = wantedItems destinations :=
    splitOptions_items (by simp) (itemText_wanted hpass)
  have hwordsFit : ¬ (!isKeyType key.1 || !isBase64Body key.2) = true := by
    simp [hkey.1, hkey.2]
  unfold parseLine
  simp only [hstrip, if_neg hcontent, optionsAndRest_wantedLine hpass hkey, hwords,
    if_neg hwordsFit, if_neg hoptions, hitems, mapM_readOption t destinations key]
  rfl

omit hkey in
theorem parseFile_lines {keys : List (Str × Str)} (hkeys : ∀ key ∈ keys, IsKeyWords key) :
    parseFile t (joinWith ['\n'] (wantedLines destinations keys)) =
      (keys.map (keyLineOf destinations), 0) := by
  have hwanted : wantedLines destinations keys = keys.map (wantedLine destinations) := rfl
  have hlines : splitlines (joinWith ['\n'] (wantedLines destinations keys)) =
      keys.map (wantedLine destinations) := by
    rw [hwanted]
    refine splitlines_joinWith ?_ ?_
    · intro line hline
      obtain ⟨key, -, rfl⟩ := List.mem_map.mp hline
      simp [wantedLine]
    · intro line hline c hc
      obtain ⟨key, hkey, rfl⟩ := List.mem_map.mp hline
      by_contra hbreak
      have hspace := isSpace_of_isLineBreak (Bool.not_eq_false _ ▸ hbreak)
      rw [wantedLine_eq] at hc
      simp only [List.mem_append, List.mem_cons] at hc
      have hblank : c ≠ ' ' := by
        rintro rfl
        exact hbreak rfl
      rcases hc with hc | hc | hc | hc | hc
      · simp [isSpace_wantedOptions hpass c hc] at hspace
      · exact hblank hc
      · simp [(isKeyType_word (hkeys key hkey).1).2.1 c hc] at hspace
      · exact hblank hc
      · simp [(isSpace_base64Body (hkeys key hkey).2).2 c hc] at hspace
  have hparse : ∀ key ∈ keys, parseLine t (wantedLine destinations key) =
      some (keyLineOf destinations key) := fun key hkey =>
    parseLine_wantedLine hpass (hkeys key hkey)
  have hkept : ∀ key ∈ keys, (!((strip (wantedLine destinations key)).isEmpty ||
      startsWith (strip (wantedLine destinations key)) ['#'])) = true := by
    intro key hkey
    obtain ⟨more, hmore⟩ := wantedOptions_eq destinations
    rw [strip_trimmed (trimmed_wantedLine hpass (hkeys key hkey)), wantedLine_eq, hmore,
      toList_literal]
    simp [startsWith, List.isPrefixOf]
  have hfilter : (keys.map (wantedLine destinations)).filter (fun line =>
      !((strip line).isEmpty || startsWith (strip line) ['#'])) =
        keys.map (wantedLine destinations) := by
    rw [List.filter_eq_self]
    intro line hline
    obtain ⟨key, hkey, rfl⟩ := List.mem_map.mp hline
    exact hkept key hkey
  have hread : (keys.map (wantedLine destinations)).filterMap (parseLine t) =
      keys.map (keyLineOf destinations) := by
    rw [List.filterMap_map]
    rw [← List.filterMap_eq_map]
    exact List.filterMap_congr fun key hkey => hparse key hkey
  have hnone : (keys.map (wantedLine destinations)).filter
      (fun line => (parseLine t line).isNone) = [] := by
    rw [List.filter_eq_nil_iff]
    intro line hline
    obtain ⟨key, hkey, rfl⟩ := List.mem_map.mp hline
    simp [hparse key hkey]
  simp only [parseFile, hlines, hfilter, hread, hnone, List.length_nil]

end Wanted

section RoundTrip

variable {ω : Type} {t : CharTables} {destinations destinations' : List Str}

theorem filterMap_named {name first second last : Str} (hfirst : first ≠ name)
    (hsecond : second ≠ name) (hlast : last ≠ name) (value : Str) (ds : List Str) :
    ((first, none) :: (second, none) :: (ds.map fun d => (name, some (permitted d))) ++
        [(last, some value)]).filterMap (fun option : Str × Option Str =>
      if option.1 = name then option.2.filter fun v => !v.isEmpty else none) = ds.map permitted := by
  have hvalues : ds.filterMap (fun d => (some (permitted d)).filter fun v => !v.isEmpty) =
      ds.map permitted := by
    rw [← List.filterMap_eq_map]
    refine List.filterMap_congr fun d _ => ?_
    simp [permitted]
  simp only [List.cons_append, List.filterMap_cons, List.filterMap_append, List.filterMap_map,
    List.filterMap_nil, if_neg hfirst, if_neg hsecond, if_neg hlast, List.append_nil,
    Function.comp_def, if_true, hvalues]

theorem permitopenSet_keyLineOf (destinations : List Str) (key : Str × Str) :
    permitopenSet (keyLineOf destinations key) = (destinations.map permitted).toFinset :=
  congrArg List.toFinset (filterMap_named (by decide) (by decide)
    (by decide) pinnedCommand destinations)

theorem permitted_injective : Function.Injective permitted := by
  intro a b h
  exact List.append_cancel_right h

theorem keyLineOf_options_inj {key : Str × Str}
    (h : (keyLineOf destinations key).options = (keyLineOf destinations' key).options) :
    destinations = destinations' := by
  rw [keyLineOf, keyLineOf] at h
  have hmap := List.append_cancel_right (List.cons.inj (List.cons.inj h).2).2
  refine List.map_injective_iff.mpr ?_ hmap
  intro a b hab
  exact permitted_injective (Option.some.inj (Prod.mk.inj hab).2)

theorem keyLines_inj {keys keys' : List (Str × Str)} (hne : keys ≠ [])
    (h : keys.map (keyLineOf destinations) = keys'.map (keyLineOf destinations')) :
    destinations = destinations' ∧ keys = keys' := by
  have hkeys : keys = keys' := by
    have := congrArg (List.map fun line : KeyLine => (line.keyType, line.body)) h
    simpa [Function.comp_def, keyLineOf] using this
  subst hkeys
  obtain ⟨key, keys, rfl⟩ := List.exists_cons_of_ne_nil hne
  exact ⟨keyLineOf_options_inj (congrArg KeyLine.options (List.cons.inj h).1), rfl⟩

/-- The lines written for accepted destinations and keys are read as one key line a key, with the
options the role means, none not understood; their `permitopen` values are the destinations; and
no other accepted inputs are written the same. -/
theorem parseFile_wantedLines {dv kv : Object ω} {keys : List (Str × Str)}
    (hd : checkDestinations t dv = .ok destinations) (hk : checkKeys kv = .ok keys) :
    parseFile t (joinWith ['\n'] (wantedLines destinations keys)) =
        (keys.map (keyLineOf destinations), 0) ∧
      (∀ key ∈ keys,
        permitopenSet (keyLineOf destinations key) = (destinations.map permitted).toFinset) ∧
      ∀ (dv' kv' : Object ω) (destinations' : List Str) (keys' : List (Str × Str)),
        checkDestinations t dv' = .ok destinations' → checkKeys kv' = .ok keys' →
        wantedLines destinations keys = wantedLines destinations' keys' →
        destinations = destinations' ∧ keys = keys' := by
  obtain ⟨hkeys, hne⟩ := isKeyWords_of_check hk
  have hread := parseFile_lines (t := t) (passing_of_check hd) hkeys
  refine ⟨hread, fun key _ => permitopenSet_keyLineOf destinations key, ?_⟩
  intro dv' kv' destinations' keys' hd' hk' heq
  have hread' := parseFile_lines (t := t) (passing_of_check hd') (isKeyWords_of_check hk').1
  rw [← heq, hread] at hread'
  exact keyLines_inj hne (Prod.mk.inj hread').1

/-- A list of one address. -/
def plainDestinations : Object Unit := .list [.text "10.0.0.1".toList]

def plainBody : Str := "AAAAC3NzaC1lZDI1NTE5AAAAIAABAgMEBQYHCAkKCwwNDg8QERITFBUWFxgZGhscHR4f".toList

def plainKeys : Object Unit :=
  .list [.text ("ssh-ed25519".toList ++ ' ' :: plainBody ++ " runner".toList)]

theorem checkDestinations_plain :
    checkDestinations latinTables plainDestinations = .ok ["10.0.0.1".toList] := by
  have hlist : plainDestinations = .list [.text "10.0.0.1".toList] := rfl
  rw [hlist]
  simp only [toList_literal]
  rfl

theorem checkKeys_plain : checkKeys plainKeys = .ok [("ssh-ed25519".toList, plainBody)] := by
  have hlist : plainKeys = .list [.text ("ssh-ed25519".toList ++ ' ' :: plainBody ++
    " runner".toList)] := rfl
  have hbody : plainBody =
    "AAAAC3NzaC1lZDI1NTE5AAAAIAABAgMEBQYHCAkKCwwNDg8QERITFBUWFxgZGhscHR4f".toList := rfl
  rw [hlist, hbody]
  simp only [toList_literal]
  rfl

/-- One address and one key are written and read back. -/
theorem parseFile_wantedLines_plain :
    parseFile latinTables (joinWith ['\n']
        (wantedLines ["10.0.0.1".toList] [("ssh-ed25519".toList, plainBody)])) =
      ([("ssh-ed25519".toList, plainBody)].map (keyLineOf ["10.0.0.1".toList]), 0) :=
  (parseFile_wantedLines checkDestinations_plain checkKeys_plain).1

end RoundTrip

end SharedInfra.CiJump
