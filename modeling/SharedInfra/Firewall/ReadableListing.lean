import SharedInfra.Firewall.ReaderSpec

/-!
# Listings read as they were printed

A listing is readable when its lines are read one by one and each rule's line
splits back into the rule's words (`Readable`); then every rule counts at its own
place in its own chain (`Readable.counted`).  Rules of plain words, as the policy's
own are printed, are readable (`SavedRule.Clean.readsBack`).
-/

namespace SharedInfra.Firewall

open Python Sequences

/-- What the reader makes of a printed rule. -/
def SavedRule.reading (r : SavedRule) : Rule := (parseRule r.text).2

def OtherOption.Alike (o o' : OtherOption) : Prop :=
  o.negated = o'.negated ∧ o.name = o'.name

inductive Item.Alike : Item → Item → Prop where
  | refl (item : Item) : Item.Alike item item
  | other {o o' : OtherOption} (h : o.Alike o') : Item.Alike (.other o) (.other o')

/-- Two rules that differ at most in the arguments of options the reader does not know. -/
structure SavedRule.Alike (r r' : SavedRule) : Prop where
  chain : r.chain = r'.chain
  items : List.Forall₂ Item.Alike r.items r'.items
  target : Option.Rel (fun t t' : Target => t.goto = t'.goto ∧ t.name = t'.name ∧
    List.Forall₂ OtherOption.Alike t.options t'.options) r.target r'.target

/-- A printed rule's line splits back into the rule's words, up to the arguments of options
the reader does not know. -/
def SavedRule.ReadsBack (r : SavedRule) : Prop :=
  ∃ r' : SavedRule, r.Alike r' ∧ shlexSplit r.text = some r'.words

structure Readable (lines : List SavedLine) : Prop where
  noBreak : ∀ line ∈ lines, ∀ c ∈ line.text, isLineBreak c = false
  named : ∀ line ∈ lines, (∀ r, line ≠ .append r) → 2 ≤ (splitWords line.text).length
  readsBack : ∀ r, SavedLine.append r ∈ lines → r.ReadsBack

def Counted (lines : List SavedLine) : Prop :=
  ∃ t, parseListing (listingText lines) = some t ∧
    ∀ chain, t.rules chain = (chainRules lines chain).map SavedRule.reading

section Reading

variable {r : SavedRule}

theorem parseRule_of_split {words : List Str} {line : Str} (h : shlexSplit line = some words) :
    parseRule line = (words.getD 1 [], buildRule (parseOptions (words.drop 2) {} [] false).1
      (parseOptions (words.drop 2) {} [] false).2) := by
  rw [parseRule, h]

theorem parseRule_readsBack (h : r.ReadsBack) :
    ∃ r' : SavedRule, r.Alike r' ∧ parseRule r.text =
      (r.chain, buildRule (parseOptions (r'.optionWordsBy Arg.value) {} [] false).1
        (parseOptions (r'.optionWordsBy Arg.value) {} [] false).2) := by
  obtain ⟨r', halike, hsplit⟩ := h
  refine ⟨r', halike, ?_⟩
  rw [parseRule_of_split hsplit, halike.chain]
  rfl

theorem Alike.eq_of_kept {r' : SavedRule} (h : r.Alike r') (hkept : r'.Kept) : r = r' := by
  have hitems : r.items = r'.items := by
    have : ∀ items items' : List Item, List.Forall₂ Item.Alike items items' →
        (∀ item ∈ items', item.kept = true) → items = items' := by
      intro items items' halike
      induction halike with
      | nil => intro _; rfl
      | cons hhead _ ih =>
        intro hall
        rw [ih fun i hi => hall i (List.mem_cons_of_mem _ hi)]
        cases hhead with
        | refl => rfl
        | @other o o' hother =>
          have hfalse : (Item.other o').kept = true := hall (.other o') (by simp)
          exact absurd hfalse (by simp [Item.kept])
    exact this _ _ h.items hkept.items
  have htarget : r.target = r'.target := by
    have := h.target
    have hopts := hkept.target
    cases hr : r.target with
    | none =>
      cases hr' : r'.target with
      | none => rfl
      | some t' => rw [hr, hr'] at this; cases this
    | some t =>
      cases hr' : r'.target with
      | none => rw [hr, hr'] at this; cases this
      | some t' =>
        rw [hr, hr'] at this
        cases this with
        | some hrel =>
          obtain ⟨hgoto, hname, hforall⟩ := hrel
          have hnil := hopts t' hr'
          rw [hnil, List.forall₂_nil_right_iff] at hforall
          cases t
          cases t'
          simp_all
  have hchain := h.chain
  cases r
  cases r'
  simp_all

theorem reading_of_extra_nil (h : r.ReadsBack) (hextra : r.reading.extra = []) :
    r.Kept ∧ r.reading = buildRule (keptFields r) [] := by
  obtain ⟨r', halike, hparse⟩ := parseRule_readsBack h
  rw [SavedRule.reading, hparse] at hextra ⊢
  obtain ⟨hkept, hread⟩ := reading_kept Arg.value hextra
  obtain rfl := Alike.eq_of_kept halike hkept
  exact ⟨hkept, by rw [hread]⟩

theorem target_of_reading (h : r.ReadsBack) (hdrop : r.reading.target ∈ droppingTargets) :
    ∃ t, r.target = some t ∧ t.name ∈ droppingTargets := by
  obtain ⟨r', halike, hparse⟩ := parseRule_readsBack h
  rw [SavedRule.reading, hparse] at hdrop
  simp only [buildRule] at hdrop
  cases htarget : (parseOptions (r'.optionWordsBy Arg.value) {} [] false).1.target with
  | none =>
    rw [htarget] at hdrop
    exact absurd hdrop (by decide)
  | some t =>
    rw [htarget] at hdrop
    obtain ⟨u, hu, hname⟩ := reading_dropping htarget hdrop
    have hrel := halike.target
    rw [hu] at hrel
    cases hr : r.target with
    | none => rw [hr] at hrel; cases hrel
    | some t' =>
      rw [hr] at hrel
      cases hrel with
      | some h => exact ⟨t', rfl, h.2.1 ▸ hname⟩

theorem append_text (r : SavedRule) :
    ∃ rest, r.text = '-' :: 'A' :: ' ' :: rest := by
  refine ⟨joinWith " " (r.chain :: r.optionWordsBy Arg.printed), ?_⟩
  rw [SavedRule.text, SavedRule.wordsBy, joinWith_cons_cons]
  rfl

theorem readLine_append (t : Table) (r : SavedRule) :
    readLine t r.text = some (t.addRule (parseRule r.text).1 (parseRule r.text).2) := by
  obtain ⟨rest, htext⟩ := append_text r
  have hnew : (startsWith r.text "-N " || startsWith r.text "-P ") = false := by
    rw [htext]
    rfl
  have happend : startsWith r.text "-A " = true := by
    rw [htext]
    rfl
  rw [readLine, hnew, happend]
  rfl

theorem readLine_other {line : SavedLine} (t : Table) (hline : ∀ r, line ≠ .append r)
    (hnamed : 2 ≤ (splitWords line.text).length) :
    ∃ t', readLine t line.text = some t' ∧ t'.rules = t.rules := by
  have hstart : (startsWith line.text "-N " || startsWith line.text "-P ") = true := by
    cases line with
    | policy chain verdict =>
      rw [SavedLine.text, joinWith_cons_cons]
      rfl
    | newChain chain =>
      rw [SavedLine.text, joinWith_cons_cons]
      rfl
    | append r => exact absurd rfl (hline r)
  refine ⟨t.addChain ((splitWords line.text)[1]), ?_, rfl⟩
  rw [readLine, hstart, if_pos rfl, List.getElem?_eq_getElem (by omega), Option.map_some]

/-- Reading the lines of a listing one after the other: a rule counts in the chain the
reader takes it for. -/
theorem foldlM_readLine (lines : List SavedLine)
    (hnamed : ∀ line ∈ lines, (∀ r, line ≠ .append r) → 2 ≤ (splitWords line.text).length)
    (t : Table) :
    ∃ t', (lines.map SavedLine.text).foldlM readLine t = some t' ∧
      ∀ chain, t'.rules chain = t.rules chain ++
        ((savedRules lines).filter fun r => (parseRule r.text).1 = chain).map
          SavedRule.reading := by
  induction lines generalizing t with
  | nil => exact ⟨t, rfl, fun chain => by simp [savedRules]⟩
  | cons line lines ih =>
    have ih' := ih fun l hl => hnamed l (List.mem_cons_of_mem _ hl)
    by_cases happend : ∃ r, line = .append r
    · obtain ⟨r, rfl⟩ := happend
      obtain ⟨t', ht', hrules⟩ := ih' (t.addRule (parseRule r.text).1 r.reading)
      refine ⟨t', ?_, ?_⟩
      · rw [List.map_cons, List.foldlM_cons, SavedLine.text, readLine_append]
        exact ht'
      · intro chain
        rw [hrules chain]
        simp only [Table.addRule, savedRules, List.filterMap_cons]
        by_cases hc : (parseRule r.text).1 = chain
        · subst hc
          simp
        · simp [hc, Ne.symm hc]
    · push Not at happend
      obtain ⟨t1, ht1, hsame⟩ := readLine_other t happend (hnamed line (by simp) happend)
      obtain ⟨t', ht', hrules⟩ := ih' t1
      refine ⟨t', ?_, ?_⟩
      · rw [List.map_cons, List.foldlM_cons, ht1]
        exact ht'
      · intro chain
        rw [hrules chain, hsame]
        cases line with
        | append r => exact absurd rfl (happend r)
        | policy c v => rfl
        | newChain c => rfl

theorem mem_savedRules {lines : List SavedLine} {r : SavedRule} :
    r ∈ savedRules lines ↔ .append r ∈ lines := by
  rw [savedRules, List.mem_filterMap]
  constructor
  · rintro ⟨line, hline, hsome⟩
    cases line with
    | append rule =>
      obtain rfl : rule = r := by simpa using hsome
      exact hline
    | policy c v => cases hsome
    | newChain c => cases hsome
  · intro h
    exact ⟨.append r, h, rfl⟩

theorem parseListing_listingText {lines : List SavedLine}
    (hbreak : ∀ line ∈ lines, ∀ c ∈ line.text, isLineBreak c = false)
    (hnamed : ∀ line ∈ lines, (∀ r, line ≠ .append r) → 2 ≤ (splitWords line.text).length) :
    ∃ t, parseListing (listingText lines) = some t ∧ ∀ chain, t.rules chain =
        ((savedRules lines).filter fun r => (parseRule r.text).1 = chain).map
          SavedRule.reading := by
  obtain ⟨t, ht, hrules⟩ := foldlM_readLine lines hnamed {}
  refine ⟨t, ?_, fun chain => by simpa using hrules chain⟩
  rw [parseListing, listingText, splitlines_unlines]
  · exact ht
  · intro line hline
    obtain ⟨saved, hsaved, rfl⟩ := List.mem_map.mp hline
    exact hbreak saved hsaved

theorem Readable.counted {lines : List SavedLine} (h : Readable lines) : Counted lines := by
  obtain ⟨t, ht, hrules⟩ := parseListing_listingText h.noBreak h.named
  refine ⟨t, ht, fun chain => ?_⟩
  rw [hrules, chainRules]
  congr 1
  refine List.filter_congr fun r hr => ?_
  obtain ⟨_, _, hparse⟩ := parseRule_readsBack (h.readsBack r (mem_savedRules.mp hr))
  rw [hparse]

end Reading

def unbroken (w : Str) : Bool := w.all fun c => !isLineBreak c

/-- A word with no character that the reader gives a meaning to. -/
def cleanWord (w : Str) : Bool := !w.isEmpty && w.all isPlainChar && unbroken w

/-- A rule of kept options and plain words, as the policy's own rules are printed. -/
structure SavedRule.Clean (r : SavedRule) : Prop where
  kept : r.Kept
  words : ∀ w ∈ r.words, cleanWord w = true

theorem joinWith_noBreak {ws : List Str} (h : ∀ w ∈ ws, unbroken w = true) :
    ∀ c ∈ joinWith " " ws, isLineBreak c = false := by
  induction ws with
  | nil => simp [joinWith]
  | cons w ws ih =>
    have hrest := ih fun v hv => h v (List.mem_cons_of_mem _ hv)
    have hword : ∀ c ∈ w, isLineBreak c = false := by
      simpa [unbroken] using h w (by simp)
    cases ws with
    | nil => exact hword
    | cons v ws =>
      rw [joinWith_cons_cons]
      intro c hc
      rcases List.mem_append.mp hc with hc | hc
      · rcases List.mem_append.mp hc with hc | hc
        · exact hword c hc
        · obtain rfl : c = ' ' := by simpa using hc
          decide
      · exact hrest c hc

section Clean

variable {r : SavedRule}

theorem SavedRule.Clean.word (h : r.Clean) :
    ∀ w ∈ r.words, (w ≠ [] ∧ ∀ c ∈ w, isPlainChar c = true) ∧ unbroken w = true := by
  intro w hw
  have := h.words w hw
  simpa only [cleanWord, Bool.and_eq_true, Bool.not_eq_true', List.isEmpty_eq_false_iff,
    List.all_eq_true] using this

theorem SavedRule.Clean.split (h : r.Clean) : shlexSplit r.text = some r.words := by
  rw [SavedRule.text, wordsBy_of_kept h.kept Arg.printed Arg.value]
  exact shlexSplit_joinWith fun w hw => (h.word w hw).1

theorem SavedRule.Clean.noBreak (h : r.Clean) : ∀ c ∈ r.text, isLineBreak c = false := by
  rw [SavedRule.text, wordsBy_of_kept h.kept Arg.printed Arg.value]
  exact joinWith_noBreak fun w hw => (h.word w hw).2

theorem Item.Alike.all_refl (items : List Item) : List.Forall₂ Item.Alike items items :=
  List.forall₂_same.mpr fun item _ => .refl item

theorem SavedRule.Alike.refl (r : SavedRule) : r.Alike r := by
  refine ⟨rfl, Item.Alike.all_refl _, ?_⟩
  cases r.target with
  | none => exact .none
  | some t =>
    exact .some ⟨rfl, rfl, List.forall₂_same.mpr fun _ _ => ⟨rfl, rfl⟩⟩

theorem SavedRule.Clean.readsBack (h : r.Clean) : r.ReadsBack := ⟨r, .refl r, h.split⟩

theorem SavedRule.Clean.parseRule_text (h : r.Clean) :
    parseRule r.text = (r.chain, buildRule (keptFields r) []) := by
  have hread := parseOptions_of_kept h.kept Arg.value
  rw [parseRule_of_split h.split]
  simp only [SavedRule.words, SavedRule.wordsBy, List.drop_succ_cons, List.drop_zero, hread]
  rfl
end Clean

section Words

theorem field_word_mem (field : Field) : field.word ∈ readerWords := by
  cases field with
  | plain f => cases f <;> decide
  | _ => decide

theorem field_word_inj {field field' : Field} (h : field.word = field'.word) : field = field' := by
  revert h
  cases field with
  | plain f =>
    cases field' with
    | plain f' => cases f <;> cases f' <;> decide
    | _ => cases f <;> decide
  | _ =>
    cases field' with
    | plain f' => cases f' <;> decide
    | _ => decide

theorem field_word_ne (field : Field) : field.word ≠ "-m".toList ∧
    field.word ≠ "-j".toList ∧ field.word ≠ "-g".toList := by
  cases field with
  | plain f => cases f <;> decide
  | _ => decide

variable (view : Arg → Str)

/-- Whether an item is negated, its first word and its arguments. -/
def Item.parts : Item → Bool × Str × List Str
  | .option field negated value => (negated, field.word, [value.1])
  | .module name => (false, "-m", [name])
  | .other o => (o.negated, o.name, o.args.map view)

theorem words_of_parts (item : Item) :
    item.wordsBy view = bang (item.parts view).1 ++ (item.parts view).2.1 :: (item.parts view).2.2 := by
  cases item <;> rfl

theorem parts_ne_bang (item : Item) : (item.parts view).2.1 ≠ "!".toList := by
  cases item with
  | option field negated value => exact field_word_ne_bang field
  | module name => exact module_word_ne_bang
  | other o => exact o.name_ne_bang

theorem bang_append_inj {n n' : Bool} {w w' : Str} {s s' : List Str} (hw : w ≠ "!".toList)
    (hw' : w' ≠ "!".toList) (h : bang n ++ w :: s = bang n' ++ w' :: s') :
    n = n' ∧ w = w' ∧ s = s' := by
  cases n with
  | false =>
    cases n' with
    | false => exact ⟨rfl, List.cons.inj h⟩
    | true => exact absurd (List.cons.inj h).1 hw
  | true =>
    cases n' with
    | false => exact absurd (List.cons.inj h).1.symm hw'
    | true => exact ⟨rfl, List.cons.inj (List.cons.inj h).2⟩

variable {view}

theorem item_of_words {item item' : Item} {tail tail' : List Str} (hkept : item'.kept = true)
    (h : item.wordsBy view ++ tail = item'.wordsBy view ++ tail') :
    item = item' ∧ tail = tail' := by
  rw [words_of_parts, words_of_parts, List.append_assoc, List.append_assoc] at h
  obtain ⟨hnegated, hword, hrest⟩ := bang_append_inj (parts_ne_bang view item) (parts_ne_bang view item') h
  cases item' with
  | other o => exact absurd hkept (by simp [Item.kept])
  | option field' negated' value' =>
    cases item with
    | option field negated value =>
      obtain rfl := field_word_inj hword
      obtain rfl : negated = negated' := hnegated
      obtain ⟨hvalue, htail⟩ := List.cons.inj hrest
      exact ⟨congrArg _ (Subtype.ext hvalue), htail⟩
    | module name => exact absurd hword.symm (field_word_ne field').1
    | other o =>
      have hname : o.name = field'.word := hword
      exact absurd (hname ▸ field_word_mem field') o.isOther
  | module name' =>
    cases item with
    | option field negated value => exact absurd hword (field_word_ne field).1
    | module name =>
      obtain ⟨hname, htail⟩ := List.cons.inj hrest
      exact ⟨congrArg _ hname, htail⟩
    | other o =>
      have hname : o.name = "-m".toList := hword
      exact absurd (hname ▸ (by decide : "-m".toList ∈ readerWords)) o.isOther

theorem jump_word_inj : ∀ goto goto' : Bool,
    (if goto then ("-g" : Str) else "-j") = (if goto' then ("-g" : Str) else "-j") →
      goto = goto' := by
  decide

theorem jump_word_ne : ∀ goto : Bool, ("-m" : Str) ≠ (if goto then ("-g" : Str) else "-j") ∧
    (if goto then ("-g" : Str) else "-j") ∈ readerWords := by
  decide

variable {target target' : Option Target}

variable (view) in
def targetWords (target : Option Target) : List Str := (target.map (Target.wordsBy view)).getD []

theorem target_of_words (hkept : ∀ t, target' = some t → t.options = [])
    (h : targetWords view target = targetWords view target') : target = target' := by
  cases target' with
  | none =>
    cases target with
    | none => rfl
    | some t => cases h
  | some t' =>
    cases target with
    | none => cases h
    | some t =>
      obtain ⟨goto, name, options⟩ := t
      obtain ⟨goto', name', options'⟩ := t'
      obtain rfl : options' = [] := hkept _ rfl
      obtain ⟨hjump, hrest⟩ := List.cons.inj h
      obtain ⟨rfl, hoptions⟩ := List.cons.inj hrest
      have hnil : options = [] := by
        cases options with
        | nil => rfl
        | cons o os =>
          rw [List.flatMap_cons, OtherOption.wordsBy] at hoptions
          simp at hoptions
      subst hnil
      rw [jump_word_inj goto goto' hjump]

theorem item_ne_target {item : Item} {tail : List Str} :
    item.wordsBy view ++ tail ≠ targetWords view target' := by
  intro h
  rw [words_of_parts, List.append_assoc] at h
  cases target' with
  | none => simp [targetWords] at h
  | some t =>
    have hjump : ∀ goto : Bool, (if goto then ("-g" : Str) else "-j") ≠ "!".toList ∧
        (item.parts view).2.1 ≠ if goto then ("-g" : Str) else "-j" := by
      intro goto
      refine ⟨target_word_ne_bang goto, ?_⟩
      cases item with
      | option field negated value =>
        cases goto
        · exact (field_word_ne field).2.1
        · exact (field_word_ne field).2.2
      | module name => exact (jump_word_ne goto).1
      | other o =>
        intro hname
        refine o.isOther ?_
        have hname' : o.name = if goto then ("-g" : Str) else "-j" := hname
        exact hname' ▸ (jump_word_ne goto).2
    obtain ⟨hbang, hne⟩ := hjump t.goto
    have hwords : bang (item.parts view).1 ++ (item.parts view).2.1 :: ((item.parts view).2.2 ++ tail) =
        bang false ++ targetWords view (some t) := h
    exact hne (bang_append_inj (parts_ne_bang view item) hbang hwords).2.1

theorem items_of_words {items items' : List Item} (hitems : ∀ item ∈ items', item.kept = true)
    (htarget : ∀ t, target' = some t → t.options = [])
    (h : items.flatMap (Item.wordsBy view) ++ targetWords view target =
      items'.flatMap (Item.wordsBy view) ++ targetWords view target') :
    items = items' ∧ target = target' := by
  induction items' generalizing items with
  | nil =>
    cases items with
    | nil => exact ⟨rfl, target_of_words htarget h⟩
    | cons item items =>
      rw [List.flatMap_cons, List.append_assoc] at h
      exact absurd h item_ne_target
  | cons item' items' ih =>
    obtain ⟨hitem', hrest'⟩ := List.forall_mem_cons.mp hitems
    cases items with
    | nil =>
      rw [List.flatMap_cons, List.append_assoc] at h
      exact absurd h.symm item_ne_target
    | cons item items =>
      rw [List.flatMap_cons, List.flatMap_cons, List.append_assoc, List.append_assoc] at h
      obtain ⟨rfl, htail⟩ := item_of_words hitem' h
      obtain ⟨rfl, rfl⟩ := ih hrest' htail
      exact ⟨rfl, rfl⟩

theorem SavedRule.eq_of_words {r r' : SavedRule} (hkept : r'.Kept)
    (h : r.wordsBy view = r'.wordsBy view) : r = r' := by
  obtain ⟨hchain, hoptions⟩ := List.cons.inj (List.cons.inj h).2
  obtain ⟨hitems, htarget⟩ := items_of_words hkept.items hkept.target hoptions
  cases r
  cases r'
  simp only at hchain hitems htarget
  rw [hchain, hitems, htarget]

end Words

def Table.Listed (t : Table) : Prop := ∀ chain, t.rules chain ≠ [] → chain ∈ t.chains

theorem readLine_listed {t t' : Table} {line : Str} (ht : t.Listed)
    (h : readLine t line = some t') : t'.Listed := by
  simp only [readLine] at h
  split_ifs at h
  · obtain ⟨chain, _, rfl⟩ := Option.map_eq_some_iff.mp h
    exact fun c hc => List.mem_cons_of_mem _ (ht c hc)
  · cases h
    intro c hc
    by_cases heq : c = (parseRule line).1
    · exact heq ▸ List.mem_cons_self
    · exact List.mem_cons_of_mem _ (ht c (by simpa [Table.addRule, heq] using hc))
  · cases h
    exact ht

theorem parseListing_listed {text : Str} {t : Table} (h : parseListing text = some t) :
    t.Listed := by
  have hfold : ∀ (lines : List Str) (t : Table), t.Listed →
      ∀ t', lines.foldlM readLine t = some t' → t'.Listed := by
    intro lines
    induction lines with
    | nil =>
      intro t ht t' h
      cases h
      exact ht
    | cons line lines ih =>
      intro t ht t' h
      rw [List.foldlM_cons] at h
      obtain ⟨mid, hmid, hrest⟩ := Option.bind_eq_some_iff.mp h
      exact ih mid (readLine_listed ht hmid) t' hrest
  exact hfold _ {} (fun c hc => absurd rfl hc) t h

end SharedInfra.Firewall
