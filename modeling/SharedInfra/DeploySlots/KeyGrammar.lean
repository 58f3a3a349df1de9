import SharedInfra.DeploySlots.RegisterReading
import SharedInfra.Python.Words

/-!
# The key of an `authorized_keys` line

A line as `sshd` reads it (`sshdKey`): a key, or a field of options up to the first blank outside
double quotes and then a key.  `key_in_line` finds that key unless it finds another one in the
options (`keyInLine_eq_iff`), which is when `assert_key_is_unused` can miss a key that already
authenticates: `keyRefused_iff`.
-/

namespace SharedInfra.DeploySlots

open Python

def isBlank (c : Char) : Bool := c == ' ' || c == '\t'

def behindBlanks (s : Str) : Str := s.dropWhile isBlank

/-- The text up to its first blank. -/
def wordOf (s : Str) : Str := s.takeWhile fun c => !isBlank c

def behindWord (s : Str) : Str := s.dropWhile fun c => !isBlank c

def readKey (s : Str) : Option (Str × Str) :=
  let blob := wordOf (behindBlanks (behindWord s))
  if wordOf s ∈ keyTypes ∧ isBlob blob = true then some (wordOf s, blob) else none

/-- What is behind the options: the text from its first blank outside double quotes on. -/
def pastOptions : Bool → Str → Str
  | quoted, '\\' :: '"' :: rest => pastOptions quoted rest
  | quoted, c :: rest =>
    if !quoted && isBlank c then c :: rest else pastOptions (quoted != (c == '"')) rest
  | _, [] => []

/-- The field of options in front of a key; a line may have none. -/
def optionsOf (line : Str) : Str :=
  let entry := behindBlanks line
  if (readKey entry).isSome then []
  else entry.take (entry.length - (pastOptions false entry).length)

/-- The key of a line of `authorized_keys`, as `sshd` reads it. -/
def sshdKey (line : Str) : Option (Str × Str) :=
  let entry := behindBlanks line
  if entry.head? = some '#' then none
  else if (readKey entry).isSome then readKey entry
  else readKey (behindBlanks (pastOptions false entry))

example : sshdKey "command=\"a b\",restrict ssh-rsa AAAA me".toList =
    some ("ssh-rsa".toList, "AAAA".toList) := by decide

section Words

variable {s t rest : Str} {c : Char} {key : Str × Str}

theorem isSpace_of_isBlank (h : isBlank c = true) : isSpace c = true := by
  rw [isBlank, Bool.or_eq_true, beq_iff_eq, beq_iff_eq] at h
  rcases h with rfl | rfl <;> rfl

/-- What stands behind a word or a field: nothing, or text that begins with a blank. -/
def StartsBlank (t : Str) : Prop := t = [] ∨ ∃ c rest, t = c :: rest ∧ isBlank c = true

theorem splitWords_append_blank (ht : StartsBlank t) :
    splitWords (s ++ t) = splitWords s ++ splitWords t := by
  rcases ht with rfl | ⟨c, rest, rfl, hc⟩
  · simp [splitWords]
  · have hspace := isSpace_of_isBlank hc
    rw [splitWords_append_cons hspace, splitWords_cons_space hspace]

theorem splitWords_behindBlanks (s : Str) : splitWords (behindBlanks s) = splitWords s := by
  induction s with
  | nil => rfl
  | cons c s ih =>
    by_cases hc : isBlank c = true
    · rw [behindBlanks, List.dropWhile_cons_of_pos hc,
        splitWords_cons_space (isSpace_of_isBlank hc)]
      exact ih
    · rw [behindBlanks, List.dropWhile_cons_of_neg hc]

theorem startsBlank_behindWord (s : Str) : StartsBlank (behindWord s) := by
  cases hdrop : behindWord s with
  | nil => exact Or.inl rfl
  | cons c rest =>
    have hc := List.head?_dropWhile_not (fun c => !isBlank c) s
    rw [← behindWord, hdrop] at hc
    exact Or.inr ⟨c, rest, rfl, by simpa using hc⟩

theorem splitWords_wordOf (h : IsWord (wordOf s)) :
    splitWords s = wordOf s :: splitWords (behindWord s) := by
  have hsplit : wordOf s ++ behindWord s = s := List.takeWhile_append_dropWhile
  conv_lhs => rw [← hsplit]
  rw [splitWords_append_blank (startsBlank_behindWord s), splitWords_word h]
  rfl

theorem isWord_of_isBlob {blob : Str} (h : isBlob blob = true) : IsWord blob :=
  ⟨blob_ne_nil h, noSpace_of_isBlob h⟩

theorem isWord_of_keyType {type : Str} (h : type ∈ keyTypes) : IsWord type := by
  have hne : (keyTypes.all fun type => !type.isEmpty) = true := rfl
  refine ⟨?_, fun c hc => noSpace_of_isKeyChar (keyChars_of_type h c hc)⟩
  simpa using List.all_eq_true.mp hne type h

theorem readKey_some (h : readKey s = some key) :
    key.1 ∈ keyTypes ∧ isBlob key.2 = true ∧ ∃ more, splitWords s = key.1 :: key.2 :: more := by
  rw [readKey] at h
  split_ifs at h with hkey
  cases h
  refine ⟨hkey.1, hkey.2, splitWords (behindWord (behindBlanks (behindWord s))), ?_⟩
  rw [splitWords_wordOf (isWord_of_keyType hkey.1), ← splitWords_behindBlanks (behindWord s),
    splitWords_wordOf (isWord_of_isBlob hkey.2)]

theorem pastOptions_suffix (quoted : Bool) (s : Str) : pastOptions quoted s <:+ s := by
  induction quoted, s using pastOptions.induct with
  | case1 quoted rest ih =>
    rw [pastOptions]
    exact ih.trans ⟨['\\', '"'], rfl⟩
  | case2 quoted c rest hnot hblank =>
    rw [pastOptions, if_pos hblank]
    · exact hnot
  | case3 quoted c rest hnot hblank ih =>
    rw [pastOptions, if_neg hblank]
    · exact ih.trans (List.suffix_cons c rest)
    · exact hnot
  | case4 quoted => exact List.suffix_refl []

theorem startsBlank_pastOptions (quoted : Bool) (s : Str) : StartsBlank (pastOptions quoted s) := by
  induction quoted, s using pastOptions.induct with
  | case1 quoted rest ih =>
    rw [pastOptions]
    exact ih
  | case2 quoted c rest hnot hblank =>
    rw [pastOptions, if_pos hblank]
    · exact Or.inr ⟨c, rest, rfl, (Bool.and_eq_true_iff.mp hblank).2⟩
    · exact hnot
  | case3 quoted c rest hnot hblank ih =>
    rw [pastOptions, if_neg hblank]
    · exact ih
    · exact hnot
  | case4 quoted => exact Or.inl rfl

theorem splitWords_of_sshdKey {line : Str} (h : sshdKey line = some key) :
    key.1 ∈ keyTypes ∧ isBlob key.2 = true ∧
      ∃ more, splitWords line = splitWords (optionsOf line) ++ key.1 :: key.2 :: more := by
  rw [sshdKey] at h
  rw [optionsOf, ← splitWords_behindBlanks line]
  split_ifs at h ⊢ with hcomment hplain
  · exact readKey_some h
  · obtain ⟨htype, hblob, more, hwords⟩ := readKey_some h
    refine ⟨htype, hblob, more, ?_⟩
    obtain ⟨options, hoptions⟩ := pastOptions_suffix false (behindBlanks line)
    have htake : (behindBlanks line).take ((behindBlanks line).length -
        (pastOptions false (behindBlanks line)).length) = options := by
      rw [← congrArg List.length hoptions, List.length_append, Nat.add_sub_cancel,
        ← congrArg (List.take options.length) hoptions, List.take_left']
      rfl
    rw [htake, ← hwords, splitWords_behindBlanks (pastOptions _ _),
      ← splitWords_append_blank (startsBlank_pastOptions false (behindBlanks line)), hoptions]

end Words

section Finding

variable {line : Str} {key : Str × Str}

theorem isSome_matchPublicKey {type word : Str} (htype : type ∈ keyTypes) (hword : IsWord word) :
    (matchPublicKey (keyText (type, word))).isSome = isBlob word := by
  have hblank : ' ' ∉ word := fun hc => Bool.false_ne_true (hword.2 _ hc).symm
  rw [matchPublicKey_word htype hblank]
  cases isBlob word <;> rfl

theorem isBlob_keyType {type : Str} (h : type ∈ keyTypes) : isBlob type = false := by
  have hall : (keyTypes.all fun type => !isBlob type) = true := rfl
  simpa using List.all_eq_true.mp hall type h

theorem keyInFields_append {fields more : List Str} (hfields : ∀ field ∈ fields, IsWord field)
    (htype : key.1 ∈ keyTypes) (hblob : isBlob key.2 = true) :
    keyInFields (fields ++ key.1 :: key.2 :: more) =
      (keyInFields fields).or (some (keyText key)) := by
  have hkey : keyInFields (key.1 :: key.2 :: more) = some (keyText key) := by
    rw [keyInFields, if_pos]
    exact ⟨htype, (isSome_matchPublicKey htype (isWord_of_isBlob hblob)).trans hblob⟩
  induction fields with
  | nil => exact hkey
  | cons field fields ih =>
    obtain ⟨hfield, hrest⟩ := List.forall_mem_cons.mp hfields
    cases fields with
    | nil =>
      have hnone : ¬ (field ∈ keyTypes ∧
          (matchPublicKey (keyText (field, key.1))).isSome = true) := by
        rintro ⟨hfieldtype, hmatch⟩
        rw [isSome_matchPublicKey hfieldtype (isWord_of_keyType htype),
          isBlob_keyType htype] at hmatch
        cases hmatch
      rw [List.singleton_append, keyInFields, if_neg hnone]
      exact hkey
    | cons next fields =>
      rw [List.cons_append, List.cons_append, keyInFields, keyInFields]
      split_ifs
      · rfl
      · exact ih hrest

theorem keyInLine_eq_iff (h : sshdKey line = some key) : keyInLine line = some (keyText key) ↔
    keyInLine (optionsOf line) = none ∨ keyInLine (optionsOf line) = some (keyText key) := by
  obtain ⟨htype, hblob, more, hwords⟩ := splitWords_of_sshdKey h
  rw [keyInLine, hwords,
    keyInFields_append (fun field hfield => isWord_of_mem_splitWords hfield) htype hblob, keyInLine]
  cases keyInFields (splitWords (optionsOf line)) with
  | none => simp
  | some other => simp

end Finding

section Unused

variable (stack key : Str) (slots : Slots) (authorizedText : Str)

def CarriedBy (line : Str) : Prop :=
  managedSlot line = none ∧ ∃ fields, sshdKey line = some fields ∧ keyText fields = key

def Carried : Prop := ∃ line ∈ splitlines authorizedText, CarriedBy key line

def HeldElsewhere : Prop := ∃ other, other ≠ stack ∧ slots.lookup other = some key

/-- A key that already authenticates is refused. -/
def KeyRefused : Prop := Carried key authorizedText ∨ HeldElsewhere stack key slots →
  ∃ refusal, assertKeyIsUnused stack key slots authorizedText = .error refusal

/-- The key is met in a line: it is the line's own key and no other one stands in the options, or
it is what `key_in_line` finds in a line of another key or none. -/
def MetIn (line : Str) : Prop := managedSlot line = none ∧ ((CarriedBy key line ∧
      (keyInLine (optionsOf line) = none ∨ keyInLine (optionsOf line) = some key)) ∨
    (¬ CarriedBy key line ∧ keyInLine line = some key))

variable {stack key slots authorizedText}

theorem metIn_iff {line : Str} :
    MetIn key line ↔ managedSlot line = none ∧ keyInLine line = some key := by
  refine and_congr_right fun hfree => ?_
  by_cases hcarried : CarriedBy key line
  · obtain ⟨-, fields, hsshd, rfl⟩ := id hcarried
    rw [keyInLine_eq_iff hsshd]
    simp [hcarried]
  · simp [hcarried]

theorem mem_items {slot : Str × Str} :
    slot ∈ slots.items ↔ slots.lookup slot.1 = some slot.2 := by
  rw [Slots.items, List.mem_filterMap]
  constructor
  · rintro ⟨found, -, heq⟩
    obtain ⟨value, hvalue, rfl⟩ := Option.map_eq_some_iff.mp heq
    exact hvalue
  · intro h
    refine ⟨slot.1, ?_, by rw [h]; rfl⟩
    rw [Slots.stacks, sortedSet, Finset.mem_sort]
    exact Finmap.mem_iff.mpr ⟨slot.2, h⟩

theorem assertKeyIsUnused_error_iff :
    (∃ refusal, assertKeyIsUnused stack key slots authorizedText = .error refusal) ↔
      HeldElsewhere stack key slots ∨
        ∃ line ∈ splitlines authorizedText, managedSlot line = none ∧ keyInLine line = some key := by
  have hitems : HeldElsewhere stack key slots ↔
      (slots.items.find? fun slot => slot.1 ≠ stack ∧ slot.2 = key).isSome = true := by
    rw [List.find?_isSome]
    constructor
    · rintro ⟨other, hne, hlookup⟩
      exact ⟨(other, key), mem_items.mpr hlookup, by simp [hne]⟩
    · rintro ⟨slot, hslot, hmatch⟩
      rw [decide_eq_true_eq] at hmatch
      exact ⟨slot.1, hmatch.1, hmatch.2 ▸ mem_items.mp hslot⟩
  have hlines : (∃ line ∈ splitlines authorizedText,
      managedSlot line = none ∧ keyInLine line = some key) ↔
      ((splitlines authorizedText).any fun line =>
        (managedSlot line).isNone && decide (keyInLine line = some key)) = true := by
    simp [List.any_eq_true]
  rw [hitems, hlines, assertKeyIsUnused]
  cases slots.items.find? fun slot => slot.1 ≠ stack ∧ slot.2 = key with
  | some other =>
    refine iff_of_true ?_ (Or.inl rfl)
    cases hfinger : fingerprint key with
    | error reason => exact ⟨reason, rfl⟩
    | ok _ => exact ⟨.heldBySlot other.1, rfl⟩
  | none =>
    by_cases hline : ((splitlines authorizedText).any fun line =>
        (managedSlot line).isNone && decide (keyInLine line = some key)) = true
    · refine iff_of_true ?_ (Or.inr hline)
      rw [hline]
      cases hfinger : fingerprint key with
      | error reason => exact ⟨reason, rfl⟩
      | ok _ => exact ⟨.alreadyInstalled, rfl⟩
    · refine iff_of_false ?_ (by simpa using hline)
      rw [Bool.eq_false_iff.mpr hline]
      rintro ⟨reason, hreason⟩
      cases hreason

/-- A key that already authenticates is refused exactly where another slot holds it or it is met in
some line. -/
theorem keyRefused_iff : KeyRefused stack key slots authorizedText ↔
    HeldElsewhere stack key slots ∨ ¬ Carried key authorizedText ∨
      ∃ line ∈ splitlines authorizedText, MetIn key line := by
  rw [KeyRefused, assertKeyIsUnused_error_iff]
  simp only [metIn_iff]
  tauto

/-- A key behind a quoted command that names another one is granted a slot. -/
theorem quoted_key_hides :
    Carried "ssh-ed25519 BBBB".toList
        "command=\"log ssh-ed25519 AAAA now\" ssh-ed25519 BBBB deploy\n".toList ∧
      assertKeyIsUnused "blog".toList "ssh-ed25519 BBBB".toList ∅
        "command=\"log ssh-ed25519 AAAA now\" ssh-ed25519 BBBB deploy\n".toList = .ok () := by
  have hlines : splitlines "command=\"log ssh-ed25519 AAAA now\" ssh-ed25519 BBBB deploy\n".toList =
      ["command=\"log ssh-ed25519 AAAA now\" ssh-ed25519 BBBB deploy".toList] := by decide
  have hitems : Slots.items ∅ = [] := by
    simp [Slots.items, Slots.stacks, sortedSet]
  constructor
  · refine ⟨_, by rw [hlines]; exact List.mem_singleton_self _, by decide, ?_⟩
    exact ⟨("ssh-ed25519".toList, "BBBB".toList), by decide, by decide⟩
  · rw [assertKeyIsUnused, hlines, hitems]
    decide

end Unused

end SharedInfra.DeploySlots
