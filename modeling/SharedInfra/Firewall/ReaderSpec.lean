import SharedInfra.Firewall.SavedRules

/-!
# What the reader makes of a printed rule

The reader's loop (`parseOptions`) works through a printed rule item by item.
An item it can keep only sets fields (`parseOptions_kept`); any other item
leaves something in `extra` (`parseOptions_notKept`).  So a rule read with an
empty `extra` is nothing but kept options and a plain target (`reading_kept`),
and a rule read as a drop is a drop (`reading_dropping`).
-/

namespace SharedInfra.Firewall

open Python Sequences

section Words

variable {word value : Str} {negate : Bool} {fields : Fields}

def applyOption (fields : Fields) (negated : Bool) (value : Str) : Field → Fields
  | .source => { fields with src := some (normaliseAddress value), srcNegated := some negated }
  | .outInterface => { fields with outIface := some value, outNegated := some negated }
  | .ctstate => { fields with ctstate := some (stateSet value) }
  | .plain field => { fields with plain := Function.update fields.plain field (some value) }

structure Later (word : Str) : Prop where
  notMatch : word ∉ (["-m", "--match"] : List Str)
  notSource : word ∉ (["-s", "--source"] : List Str)
  notOut : word ∉ (["-o", "--out-interface"] : List Str)

theorem readOption_plain {field : PlainField} (h : Later word)
    (hl : plainOptions.lookup word = some field) :
    readOption word value false fields =
      some ({ fields with plain := Function.update fields.plain field (some value) }, false) := by
  rw [readOption.eq_def, if_neg fun hm => h.notMatch hm.1, if_neg h.notSource, if_neg h.notOut, hl]

theorem readOption_rest (h : Later word)
    (hl : plainOptions.lookup word = none ∨ negate = true) :
    readOption word value negate fields =
      if word = "--ctstate" ∧ negate = false then
        some ({ fields with ctstate := some (stateSet value) }, negate)
      else if word ∈ (["-j", "--jump", "-g", "--goto"] : List Str) then
        some ({ fields with
          target := some value
          goto := some (decide (word ∈ (["-g", "--goto"] : List Str))) }, negate)
      else none := by
  rw [readOption.eq_def, if_neg fun hm => h.notMatch hm.1, if_neg h.notSource, if_neg h.notOut]
  rcases hl with hl | rfl
  · rw [hl]
  · cases plainOptions.lookup word <;> rfl

theorem plain_later (field : PlainField) : Later (Field.plain field).word := by
  cases field <;> exact ⟨by decide, by decide, by decide⟩

theorem lookup_plain (field : PlainField) :
    plainOptions.lookup (Field.plain field).word = some field := by
  cases field <;> decide

theorem ctstate_later : Later Field.ctstate.word := ⟨by decide, by decide, by decide⟩

theorem lookup_ctstate : plainOptions.lookup Field.ctstate.word = none := by decide

theorem jump_later (goto : Bool) : Later (if goto then "-g" else "-j") := by
  cases goto <;> exact ⟨by decide, by decide, by decide⟩

theorem lookup_jump (goto : Bool) :
    plainOptions.lookup (if goto then ("-g" : Str) else "-j") = none := by
  cases goto <;> decide

theorem readOption_field {field : Field} (h : negate = true → field.keepsNegation = true) :
    readOption field.word value negate fields =
      some (applyOption fields negate value field, false) := by
  have hplain : field.keepsNegation = false → negate = false := fun hk => by
    cases negate
    · rfl
    · rw [h rfl] at hk
      exact absurd hk (by simp)
  cases field with
  | source =>
    have hm : Field.source.word ∉ (["-m", "--match"] : List Str) := by decide
    rw [readOption.eq_def, if_neg fun hmv => hm hmv.1, if_pos (by decide)]
    rfl
  | outInterface =>
    have hm : Field.outInterface.word ∉ (["-m", "--match"] : List Str) := by decide
    rw [readOption.eq_def, if_neg fun hmv => hm hmv.1, if_neg (by decide), if_pos (by decide)]
    rfl
  | ctstate =>
    rw [readOption_rest ctstate_later (Or.inl lookup_ctstate), hplain rfl, if_pos ⟨rfl, rfl⟩]
    rfl
  | plain field =>
    rw [hplain rfl, readOption_plain (plain_later field) (lookup_plain field)]
    rfl

theorem readOption_negated {field : Field} (h : field.keepsNegation = false) :
    readOption field.word value true fields = none := by
  cases field with
  | source => simp [Field.keepsNegation] at h
  | outInterface => simp [Field.keepsNegation] at h
  | ctstate =>
    have hjump : Field.ctstate.word ∉ (["-j", "--jump", "-g", "--goto"] : List Str) := by decide
    rw [readOption_rest ctstate_later (Or.inr rfl), if_neg (fun h => Bool.noConfusion h.2), if_neg hjump]
  | plain field =>
    have hjump : (Field.plain field).word ∉ (["-j", "--jump", "-g", "--goto"] : List Str) := by
      cases field <;> decide
    rw [readOption_rest (plain_later field) (Or.inr rfl), if_neg (fun h => Bool.noConfusion h.2), if_neg hjump]

theorem readOption_module : readOption "-m" value negate fields =
    if value ∈ knownMatchModules then some (fields, negate) else none := by
  by_cases h : value ∈ knownMatchModules
  · rw [readOption.eq_def, if_pos ⟨by decide, h⟩, if_pos h]
  · have hct : "-m".toList ≠ "--ctstate".toList := by decide
    have hjump : "-m".toList ∉ (["-j", "--jump", "-g", "--goto"] : List Str) := by decide
    have hlookup : plainOptions.lookup "-m".toList = none := by decide
    rw [readOption.eq_def, if_neg fun hm => h hm.2, if_neg (by decide), if_neg (by decide),
      if_neg h, hlookup]
    dsimp only
    rw [if_neg fun h => hct h.1, if_neg hjump]

theorem readOption_jump (goto : Bool) :
    readOption (if goto then "-g" else "-j") value negate fields =
      some ({ fields with target := some value, goto := some goto }, negate) := by
  have hct : (if goto then ("-g" : Str) else "-j") ≠ "--ctstate".toList := by
    cases goto <;> decide
  have hjump : (if goto then ("-g" : Str) else "-j") ∈
      (["-j", "--jump", "-g", "--goto"] : List Str) := by cases goto <;> decide
  have hgoto : decide ((if goto then ("-g" : Str) else "-j") ∈ (["-g", "--goto"] : List Str)) =
      goto := by cases goto <;> decide
  rw [readOption_rest (jump_later goto) (Or.inl (lookup_jump goto)), if_neg fun h => hct h.1,
    if_pos hjump, hgoto]

theorem readOption_other (h : word ∉ readerWords) :
    readOption word value negate fields = none := by
  have hnot : ∀ words : List Str, words ⊆ readerWords → word ∉ words :=
    fun words hsub hw => h (hsub hw)
  have hlookup : plainOptions.lookup word = none := by
    rw [List.lookup_eq_none_iff]
    intro entry hentry
    rw [bne_iff_ne]
    rintro rfl
    exact h (List.mem_append_right _ (List.mem_map.mpr ⟨entry, hentry, rfl⟩))
  have hlater : Later word :=
    ⟨hnot _ (by decide), hnot _ (by decide), hnot _ (by decide)⟩
  have hct : word ≠ "--ctstate".toList := fun hw => hnot ["--ctstate"] (by decide) (by simp [hw])
  rw [readOption_rest hlater (Or.inl hlookup), if_neg fun h => hct h.1, if_neg (hnot _ (by decide))]

end Words

section Loop

variable {word value : Str} {ws rest extra : List Str} {fields fields' : Fields}
  {negate negate' : Bool} {view : Arg → Str}

theorem parseOptions_bang :
    parseOptions ("!" :: rest) fields extra negate = parseOptions rest fields extra true := by
  rw [parseOptions, if_pos rfl]

theorem parseOptions_known (hw : word ≠ "!".toList)
    (h : readOption word value negate fields = some (fields', negate')) (rest extra : List Str) :
    parseOptions (word :: value :: rest) fields extra negate =
      parseOptions rest fields' (extra ++ bang negate') false := by
  rw [parseOptions, if_neg hw, List.headD_cons, h]

theorem parseOptions_unknown (hw : word ≠ "!".toList)
    (h : readOption word (rest.headD []) negate fields = none) :
    parseOptions (word :: rest) fields extra negate =
      parseOptions rest fields (extra ++ word :: bang negate) false := by
  rw [parseOptions, if_neg hw, h]

theorem extra_prefix (ws : List Str) (fields : Fields) (extra : List Str) (negate : Bool) :
    extra <+: (parseOptions ws fields extra negate).2 := by
  induction ws, fields, extra, negate using parseOptions.induct with
  | case1 => rw [parseOptions]
  | case2 rest fields extra negate ih =>
    rw [parseOptions_bang]
    exact ih
  | case3 word fields extra negate hw fields' negate' h =>
    rw [parseOptions, if_neg hw, h]
    exact List.prefix_append _ _
  | case4 word fields extra negate hw fields' negate' head rest' h ih =>
    rw [List.headD_cons] at h
    rw [parseOptions_known hw h]
    exact (List.prefix_append _ _).trans ih
  | case5 word rest fields extra negate hw h ih =>
    rw [parseOptions_unknown hw h]
    exact (List.prefix_append _ _).trans ih

theorem extra_of_unknown (hw : word ≠ "!".toList)
    (h : readOption word (rest.headD []) negate fields = none) :
    (parseOptions (word :: rest) fields extra negate).2 ≠ [] := by
  rw [parseOptions_unknown hw h]
  intro hnil
  have hbegins := extra_prefix rest fields (extra ++ word :: bang negate) false
  rw [hnil] at hbegins
  simp at hbegins

/-- Whether the reader keeps all of an item. -/
def Item.kept : Item → Bool
  | .option field negated _ => !negated || field.keepsNegation
  | .module name => decide (name ∈ knownMatchModules)
  | .other _ => false

def applyItem (fields : Fields) : Item → Fields
  | .option field negated value => applyOption fields negated value.1 field
  | _ => fields

theorem field_word_ne_bang (field : Field) : field.word ≠ "!".toList := by
  cases field with
  | plain field => cases field <;> decide
  | _ => decide

theorem module_word_ne_bang : "-m".toList ≠ "!".toList := by decide

theorem OtherOption.name_ne_bang (o : OtherOption) : o.name ≠ "!".toList := by
  intro h
  exact o.isOther (h ▸ by decide)

theorem parseOptions_kept {item : Item} (h : item.kept = true) :
    parseOptions (item.wordsBy view ++ rest) fields extra false =
      parseOptions rest (applyItem fields item) extra false := by
  cases item with
  | option field negated value =>
    have hkeep : negated = true → field.keepsNegation = true := fun hn => by
      simpa [Item.kept, hn] using h
    have hread : readOption field.word value.1 negated fields =
        some (applyOption fields negated value.1 field, false) := readOption_field hkeep
    have hnext := parseOptions_known (field_word_ne_bang field) hread rest extra
    cases negated with
    | false =>
      simpa [Item.wordsBy, bang, applyItem] using hnext
    | true =>
      simp only [Item.wordsBy, bang, if_true, List.cons_append, List.nil_append]
      rw [parseOptions_bang, hnext]
      simp [bang, applyItem]
  | module name =>
    have hmem : name ∈ knownMatchModules := by simpa [Item.kept] using h
    have hread : readOption "-m" name false fields = some (fields, false) := by
      rw [readOption_module, if_pos hmem]
    simpa [Item.wordsBy, bang, applyItem] using
      parseOptions_known module_word_ne_bang hread rest extra
  | other o => simp [Item.kept] at h

theorem extra_of_other (o : OtherOption) :
    (parseOptions (o.wordsBy view ++ rest) fields extra false).2 ≠ [] := by
  rw [OtherOption.wordsBy, List.append_assoc]
  cases o.negated with
  | false => exact extra_of_unknown o.name_ne_bang (readOption_other o.isOther)
  | true =>
    rw [bang, if_pos rfl, List.cons_append, parseOptions_bang]
    exact extra_of_unknown o.name_ne_bang (readOption_other o.isOther)

theorem extra_of_notKept {item : Item} (h : item.kept = false) :
    (parseOptions (item.wordsBy view ++ rest) fields extra false).2 ≠ [] := by
  cases item with
  | option field negated value =>
    simp only [Item.kept, Bool.or_eq_false_iff, Bool.not_eq_false'] at h
    obtain ⟨rfl, hkeep⟩ := h
    simp only [Item.wordsBy, bang, if_true, List.cons_append, List.nil_append]
    rw [parseOptions_bang]
    exact extra_of_unknown (field_word_ne_bang field) (readOption_negated hkeep)
  | module name =>
    have hmem : name ∉ knownMatchModules := by simpa [Item.kept] using h
    refine extra_of_unknown module_word_ne_bang ?_
    rw [readOption_module]
    exact if_neg hmem
  | other o => exact extra_of_other o

def applyTarget (fields : Fields) : Option Target → Fields
  | none => fields
  | some t => { fields with target := some t.name, goto := some t.goto }

/-- What a rule with no other option is read as. -/
def keptFields (r : SavedRule) : Fields := applyTarget (r.items.foldl applyItem {}) r.target

/-- A rule all of whose words the reader keeps. -/
structure SavedRule.Kept (r : SavedRule) : Prop where
  items : ∀ item ∈ r.items, item.kept = true
  target : ∀ t, r.target = some t → t.options = []

theorem target_word_ne_bang (goto : Bool) :
    (if goto then ("-g" : Str) else "-j") ≠ "!".toList := by
  cases goto <;> decide

theorem parseOptions_target (t : Option Target) (fields : Fields)
    (h : (parseOptions ((t.map (Target.wordsBy view)).getD []) fields [] false).2 = []) :
    (∀ u, t = some u → u.options = []) ∧
      parseOptions ((t.map (Target.wordsBy view)).getD []) fields [] false =
        (applyTarget fields t, []) := by
  cases t with
  | none => simp [parseOptions, applyTarget]
  | some t =>
    simp only [Option.map_some, Option.getD_some, Target.wordsBy] at h ⊢
    rw [parseOptions_known (target_word_ne_bang t.goto) (readOption_jump t.goto)] at h ⊢
    have hopts : t.options = [] := by
      cases hopts : t.options with
      | nil => rfl
      | cons o os =>
        rw [hopts, List.flatMap_cons] at h
        exact absurd h (extra_of_other o)
    simp only [hopts, List.flatMap_nil, parseOptions]
    simp [applyTarget, bang, hopts]

/-- A rule read with an empty `extra` is kept words and a plain target, and its fields are
what these set. -/
theorem reading_kept {r : SavedRule} (view : Arg → Str)
    (h : (parseOptions (r.optionWordsBy view) {} [] false).2 = []) :
    r.Kept ∧ parseOptions (r.optionWordsBy view) {} [] false = (keptFields r, []) := by
  have hloop : ∀ (items : List Item) (fields : Fields) (tail : List Str),
      (parseOptions (items.flatMap (Item.wordsBy view) ++ tail) fields [] false).2 = [] →
      (∀ item ∈ items, item.kept = true) ∧
        parseOptions (items.flatMap (Item.wordsBy view) ++ tail) fields [] false =
          parseOptions tail (items.foldl applyItem fields) [] false := by
    intro items
    induction items with
    | nil => intro fields tail _; simp
    | cons item items ih =>
      intro fields tail hnil
      rw [List.flatMap_cons, List.append_assoc] at hnil ⊢
      have hkept : item.kept = true := by
        by_contra hnot
        exact extra_of_notKept (by simpa using hnot) hnil
      rw [parseOptions_kept hkept] at hnil ⊢
      obtain ⟨hall, heq⟩ := ih (applyItem fields item) tail hnil
      exact ⟨List.forall_mem_cons.mpr ⟨hkept, hall⟩, heq⟩
  obtain ⟨hitems, heq⟩ := hloop r.items {} _ h
  rw [SavedRule.optionWordsBy, heq] at h
  obtain ⟨htarget, hfinal⟩ := parseOptions_target r.target _ h
  refine ⟨⟨hitems, htarget⟩, ?_⟩
  rw [SavedRule.optionWordsBy, heq, hfinal]
  rfl

theorem parseOptions_of_kept {r : SavedRule} (h : r.Kept) (view : Arg → Str) :
    parseOptions (r.optionWordsBy view) {} [] false = (keptFields r, []) := by
  have hloop : ∀ (items : List Item) (fields : Fields) (tail : List Str),
      (∀ item ∈ items, item.kept = true) →
      parseOptions (items.flatMap (Item.wordsBy view) ++ tail) fields [] false =
        parseOptions tail (items.foldl applyItem fields) [] false := by
    intro items
    induction items with
    | nil => intro fields tail _; rfl
    | cons item items ih =>
      intro fields tail hall
      rw [List.flatMap_cons, List.append_assoc, parseOptions_kept (hall item (by simp)),
        ih _ _ fun i hi => hall i (List.mem_cons_of_mem _ hi)]
      rfl
  rw [SavedRule.optionWordsBy, hloop r.items {} _ h.items, keptFields]
  cases ht : r.target with
  | none => rfl
  | some t =>
    simp only [Option.map_some, Option.getD_some, Target.wordsBy, h.target t ht, List.flatMap_nil]
    rw [parseOptions_known (target_word_ne_bang t.goto) (readOption_jump t.goto)]
    rfl

theorem wordsBy_of_kept {r : SavedRule} (h : r.Kept) (view view' : Arg → Str) :
    r.wordsBy view = r.wordsBy view' := by
  have hitem : ∀ item ∈ r.items, Item.wordsBy view item = Item.wordsBy view' item := by
    intro item hitem
    cases item with
    | option field negated value => rfl
    | module name => rfl
    | other o => exact absurd (h.items _ hitem) (by simp [Item.kept])
  have htarget : r.target.map (Target.wordsBy view) = r.target.map (Target.wordsBy view') := by
    cases ht : r.target with
    | none => rfl
    | some t => simp [Target.wordsBy, h.target t ht]
  rw [SavedRule.wordsBy, SavedRule.wordsBy, SavedRule.optionWordsBy, SavedRule.optionWordsBy,
    List.flatMap_congr hitem, htarget]

end Loop

section Dropping

variable {word value : Str} {fields fields' : Fields} {negate negate' : Bool}

def jumpWords : List Str := ["-j", "--jump", "-g", "--goto"]

/-- The name of a dropping target stands after a word only if that takes no target. -/
def NoDropAfter (word next : Str) : Prop := next ∈ droppingTargets → word ∉ jumpWords

theorem readOption_target (h : readOption word value negate fields = some (fields', negate')) :
    fields'.target = fields.target ∨ (word ∈ jumpWords ∧ fields'.target = some value) := by
  -- Every branch that is not a jump keeps the target.
  have hrest : (if word = "--ctstate" ∧ negate = false then
        some ({ fields with ctstate := some (stateSet value) }, negate)
      else if word ∈ jumpWords then
        some ({ fields with
          target := some value
          goto := some (decide (word ∈ (["-g", "--goto"] : List Str))) }, negate)
      else none) = some (fields', negate') →
      fields'.target = fields.target ∨ (word ∈ jumpWords ∧ fields'.target = some value) := by
    intro hrest
    split_ifs at hrest with hct hjump
    · cases hrest
      exact Or.inl rfl
    · cases hrest
      exact Or.inr ⟨hjump, rfl⟩
  rw [readOption.eq_def] at h
  by_cases h1 : word ∈ (["-m", "--match"] : List Str) ∧ value ∈ knownMatchModules
  · rw [if_pos h1] at h
    cases h
    exact Or.inl rfl
  rw [if_neg h1] at h
  by_cases h2 : word ∈ (["-s", "--source"] : List Str)
  · rw [if_pos h2] at h
    cases h
    exact Or.inl rfl
  rw [if_neg h2] at h
  by_cases h3 : word ∈ (["-o", "--out-interface"] : List Str)
  · rw [if_pos h3] at h
    cases h
    exact Or.inl rfl
  rw [if_neg h3] at h
  cases hl : plainOptions.lookup word with
  | none =>
    rw [hl] at h
    exact hrest h
  | some field =>
    rw [hl] at h
    cases negate with
    | false =>
      cases h
      exact Or.inl rfl
    | true => exact hrest h

def TargetFree (fields : Fields) : Prop := ∀ t, fields.target = some t → t ∉ droppingTargets

theorem TargetFree.readOption (hfree : TargetFree fields) (hnext : NoDropAfter word value)
    (h : readOption word value negate fields = some (fields', negate')) : TargetFree fields' := by
  intro t ht hdrop
  rcases readOption_target h with heq | ⟨hjump, heq⟩
  · exact hfree t (heq ▸ ht) hdrop
  · rw [heq, Option.some.injEq] at ht
    exact hnext (ht ▸ hdrop) hjump

theorem parseOptions_targetFree (ws : List Str) (fields : Fields) (extra : List Str)
    (negate : Bool) (hws : ws.IsChain NoDropAfter) (hfree : TargetFree fields) :
    TargetFree (parseOptions ws fields extra negate).1 := by
  induction ws, fields, extra, negate using parseOptions.induct with
  | case1 =>
    rw [parseOptions]
    exact hfree
  | case2 rest fields extra negate ih =>
    rw [parseOptions_bang]
    exact ih hws.tail hfree
  | case3 word fields extra negate hw fields' negate' h =>
    rw [parseOptions, if_neg hw, h]
    exact hfree.readOption (fun hnil => absurd hnil (by decide)) h
  | case4 word fields extra negate hw fields' negate' head rest' h ih =>
    rw [List.headD_cons] at h
    rw [parseOptions_known hw h]
    obtain ⟨hnext, hrest⟩ := List.isChain_cons_cons.mp hws
    exact ih hrest.tail (hfree.readOption hnext h)
  | case5 word rest fields extra negate hw h ih =>
    rw [parseOptions_unknown hw h]
    exact ih hws.tail hfree

theorem isChain_append_of_head {ws ws' : List Str} (h : ws.IsChain NoDropAfter)
    (h' : ws'.IsChain NoDropAfter) (hhead : ∀ w ∈ ws'.head?, w ∉ droppingTargets) :
    (ws ++ ws').IsChain NoDropAfter :=
  List.isChain_append.mpr ⟨h, h', fun _ _ next hnext hdrop => absurd hdrop (hhead next hnext)⟩

theorem field_word_notDropping (field : Field) :
    field.word ∉ droppingTargets ∧ field.word ∉ jumpWords := by
  cases field with
  | plain field => cases field <;> decide
  | _ => decide

theorem OtherOption.name_notDropping (o : OtherOption) : o.name ∉ droppingTargets := by
  intro h
  have hnone : ∀ t ∈ droppingTargets, t.head? ≠ some '-' := by decide
  exact hnone o.name h o.isOption

theorem OtherOption.name_notJump (o : OtherOption) : o.name ∉ jumpWords := by
  intro h
  have hsub : jumpWords ⊆ readerWords := by decide
  exact o.isOther (hsub h)

theorem bang_head {negated : Bool} {ws : List Str} (h : ∀ w ∈ ws.head?, w ∉ droppingTargets) :
    ∀ w ∈ (bang negated ++ ws).head?, w ∉ droppingTargets := by
  cases negated with
  | false => exact h
  | true =>
    intro w hw
    obtain rfl : "!".toList = w := by simpa [bang] using hw
    decide

theorem OtherOption.words_chain (o : OtherOption) :
    (o.wordsBy Arg.value).IsChain NoDropAfter ∧
      ∀ w ∈ (o.wordsBy Arg.value).head?, w ∉ droppingTargets := by
  have hname : ∀ w ∈ (o.name :: o.args.map Arg.value).head?, w ∉ droppingTargets := by
    intro w hw
    obtain rfl : o.name = w := by simpa using hw
    exact o.name_notDropping
  have hargs : ∀ args : List Arg, (∀ arg ∈ args.tail, arg.value ∉ droppingTargets) →
      (args.map Arg.value).IsChain NoDropAfter := by
    intro args
    induction args with
    | nil => intro _; exact List.isChain_nil
    | cons arg args ih =>
      intro h
      cases args with
      | nil => exact List.isChain_singleton _
      | cons next args =>
        refine List.isChain_cons_cons.mpr ⟨?_, ih fun a ha => h a (by simp_all)⟩
        exact fun hdrop => absurd hdrop (h next (by simp))
  have hchain : (o.name :: o.args.map Arg.value).IsChain NoDropAfter := by
    refine List.isChain_cons.mpr ⟨?_, hargs o.args o.keywords⟩
    exact fun _ _ _ => o.name_notJump
  refine ⟨isChain_append_of_head ?_ hchain hname, bang_head hname⟩
  cases o.negated <;> simp [bang]

theorem Item.words_chain (item : Item) :
    (item.wordsBy Arg.value).IsChain NoDropAfter ∧
      ∀ w ∈ (item.wordsBy Arg.value).head?, w ∉ droppingTargets := by
  cases item with
  | option field negated value =>
    obtain ⟨hdrop, hjump⟩ := field_word_notDropping field
    have hhead : ∀ w ∈ [field.word, value.1].head?, w ∉ droppingTargets := by
      intro w hw
      obtain rfl : field.word = w := by simpa using hw
      exact hdrop
    refine ⟨isChain_append_of_head ?_ ?_ hhead, bang_head hhead⟩
    · cases negated <;> simp [bang]
    · exact List.isChain_cons_cons.mpr ⟨fun _ => hjump, List.isChain_singleton _⟩
  | module name =>
    have hjump : "-m".toList ∉ jumpWords := by decide
    refine ⟨List.isChain_cons_cons.mpr ⟨fun _ => hjump, List.isChain_singleton _⟩, ?_⟩
    intro w hw
    obtain rfl : "-m".toList = w := by simpa [Item.wordsBy] using hw
    decide
  | other o => exact o.words_chain

theorem flatMap_chain {ι : Type} {view : ι → List Str}
    (h : ∀ i, (view i).IsChain NoDropAfter ∧ ∀ w ∈ (view i).head?, w ∉ droppingTargets)
    (hne : ∀ i, view i ≠ []) (is : List ι) :
    (is.flatMap view).IsChain NoDropAfter ∧
      ∀ w ∈ (is.flatMap view).head?, w ∉ droppingTargets := by
  induction is with
  | nil => simp
  | cons i is ih =>
    rw [List.flatMap_cons]
    refine ⟨isChain_append_of_head (h i).1 ih.1 ih.2, ?_⟩
    rw [List.head?_append_of_ne_nil _ (hne i)]
    exact (h i).2

theorem reading_dropping {r : SavedRule} {t : Str} {extra : List Str} {negate : Bool}
    (h : (parseOptions (r.optionWordsBy Arg.value) {} extra negate).1.target = some t)
    (hdrop : t ∈ droppingTargets) :
    ∃ u, r.target = some u ∧ u.name ∈ droppingTargets := by
  by_contra hnone
  push Not at hnone
  have hitems := flatMap_chain Item.words_chain
    (fun item => by cases item <;> simp [Item.wordsBy, OtherOption.wordsBy]) r.items
  have hwords : (r.optionWordsBy Arg.value).IsChain NoDropAfter := by
    rw [SavedRule.optionWordsBy]
    cases htarget : r.target with
    | none => simpa using hitems.1
    | some u =>
      have hopts := flatMap_chain OtherOption.words_chain
        (fun o => by simp [OtherOption.wordsBy]) u.options
      have hname := hnone u htarget
      have hword : (if u.goto then ("-g" : Str) else "-j") ∉ droppingTargets := by
        cases u.goto <;> decide
      refine isChain_append_of_head hitems.1 ?_ ?_
      · simp only [Option.map_some, Option.getD_some, Target.wordsBy]
        refine List.isChain_cons_cons.mpr ⟨fun hd => absurd hd hname, ?_⟩
        exact isChain_append_of_head (List.isChain_singleton u.name) hopts.1 hopts.2
      · intro w hw
        simp only [Option.map_some, Option.getD_some, Target.wordsBy, List.head?_cons,
          Option.mem_some] at hw
        exact hw ▸ hword
  exact parseOptions_targetFree _ _ _ _ hwords (fun t ht => by simp at ht) t h hdrop

end Dropping

end SharedInfra.Firewall
