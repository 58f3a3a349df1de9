import SharedInfra.TenantCompose.Judge

/-!
# What Compose interpolates

Compose scans a text from left to right: two dollars are a literal one, `$NAME` and `${NAME...}`
refer to a variable (`Refers`).  The judge looks one character behind each dollar.  Both are read
off the runs of dollars in the text (`mentions`): the judge takes the runs of one dollar, Compose
those of an odd length.

Main facts:
* `refers_iff`, `mem_findReferences`: the two scans by the lengths of the runs;
* `namesKnown_iff`: for which documents every name that is interpolated is known to the judge.
-/

namespace SharedInfra.TenantCompose

open Python Sequences

section Scan

/-- A name stands before `rest`, as long as it can be. -/
def NameBefore (name rest text : Str) : Prop :=
  text = name ++ rest ∧ name.head?.any isNameStart = true ∧ name.all isNameChar = true ∧
    rest.head?.any isNameChar = false

/-- Compose's scan of a text refers to a name. -/
inductive Refers : Str → Str → Prop
  | skip {c : Char} {rest name : Str} (hc : c ≠ '$') (h : Refers rest name) :
      Refers (c :: rest) name
  | escaped {rest name : Str} (h : Refers rest name) : Refers ('$' :: '$' :: rest) name
  | past {rest name : Str} (hrest : rest.head? ≠ some '$') (h : Refers rest name) :
      Refers ('$' :: rest) name
  | plain {rest text name : Str} (hname : NameBefore name rest text) : Refers ('$' :: text) name
  | braced {rest text name : Str} (hname : NameBefore name rest text) (hclosed : '}' ∈ rest) :
      Refers ('$' :: '{' :: text) name

/-- A run of dollars with a name behind it; a brace may be left open. -/
structure Mention where
  dollars : Nat
  name : Str
  closed : Bool

def nameAt (text : Str) : Option Str :=
  if text.head?.any isNameStart then some (text.takeWhile isNameChar) else none

def mentionAt (dollars : Nat) (text : Str) : Option Mention :=
  if text.head? = some '{' then
    (nameAt (text.drop 1)).map fun name =>
      ⟨dollars, name, decide ('}' ∈ (text.drop 1).dropWhile isNameChar)⟩
  else (nameAt text).map fun name => ⟨dollars, name, true⟩

/-- The runs of dollars of a text that a name stands behind, after a number of dollars. -/
def mentions : Nat → Str → List Mention
  | _, [] => []
  | dollars, c :: rest =>
    if c = '$' then mentions (dollars + 1) rest
    else (if dollars = 0 then [] else (mentionAt dollars (c :: rest)).toList) ++ mentions 0 rest

variable {c : Char} {text rest name : Str} {dollars : Nat} {m : Mention}

theorem isNameChar_of_isNameStart (h : isNameStart c = true) : isNameChar c = true := by
  simp only [isNameStart, isNameChar, Char.isAlphanum, Bool.or_eq_true] at h ⊢
  exact h.imp_left Or.inl

theorem nameBefore_iff : NameBefore name rest text ↔
    nameAt text = some name ∧ rest = text.dropWhile isNameChar := by
  constructor
  · rintro ⟨rfl, hstart, hall, hrest⟩
    have hname : ∀ c ∈ name, isNameChar c = true := List.all_eq_true.mp hall
    have hnot : ∀ c, rest.head? = some c → ¬isNameChar c = true := fun c hc => by
      rw [hc] at hrest
      exact Bool.eq_false_iff.mp hrest
    have htake : rest.takeWhile isNameChar = [] ∧ rest.dropWhile isNameChar = rest := by
      cases rest with
      | nil => exact ⟨rfl, rfl⟩
      | cons c rest =>
        have hc := hnot c rfl
        exact ⟨List.takeWhile_cons_of_neg hc, List.dropWhile_cons_of_neg hc⟩
    have hhead : (name ++ rest).head?.any isNameStart = true := by
      cases name with
      | nil => cases hstart
      | cons c name => exact hstart
    rw [nameAt, if_pos hhead, List.takeWhile_append_of_pos hname,
      List.dropWhile_append_of_pos hname, htake.1, htake.2, List.append_nil]
    exact ⟨rfl, rfl⟩
  · rintro ⟨h, rfl⟩
    rw [nameAt] at h
    split_ifs at h with hstart
    obtain rfl := Option.some.inj h
    refine ⟨List.takeWhile_append_dropWhile.symm, ?_,
      List.all_eq_true.mpr fun c hc => List.mem_takeWhile_imp hc, ?_⟩
    · cases text with
      | nil => exact absurd hstart (by decide)
      | cons c text =>
        have hc : isNameStart c = true := hstart
        rw [List.takeWhile_cons_of_pos (isNameChar_of_isNameStart hc)]
        exact hc
    · have hnot := List.head?_dropWhile_not isNameChar text
      cases hdrop : (text.dropWhile isNameChar).head? with
      | none => rfl
      | some c =>
        rw [hdrop] at hnot
        exact hnot

theorem not_nameBefore_of_head (h : text.head?.any isNameStart = false) :
    ¬NameBefore name rest text := by
  intro hname
  have hnone : nameAt text = none := by
    rw [nameAt, h]
    rfl
  cases hnone.symm.trans (nameBefore_iff.mp hname).1

theorem mem_mentionAt : m ∈ mentionAt dollars text ↔ m.dollars = dollars ∧
    ((∃ rest, NameBefore m.name rest text ∧ m.closed = true) ∨
      ∃ rest body, text = '{' :: body ∧ NameBefore m.name rest body ∧
        m.closed = decide ('}' ∈ rest)) := by
  obtain ⟨dollars', name, closed⟩ := m
  rw [mentionAt]
  by_cases hbrace : text.head? = some '{'
  · obtain ⟨body, rfl⟩ := List.head?_eq_some_iff.mp hbrace
    have hplain : ∀ rest, ¬NameBefore name rest ('{' :: body) := fun rest =>
      not_nameBefore_of_head rfl
    simp only [if_pos hbrace, List.drop_one, List.tail_cons, Option.mem_def, Option.map_eq_some_iff,
      Mention.mk.injEq, nameBefore_iff]
    constructor
    · rintro ⟨name, hname, rfl, rfl, rfl⟩
      exact ⟨rfl, Or.inr ⟨_, body, rfl, ⟨hname, rfl⟩, rfl⟩⟩
    · rintro ⟨rfl, ⟨rest, hname, -⟩ | ⟨rest, body, heq, ⟨hname, rfl⟩, hclosed⟩⟩
      · exact absurd (nameBefore_iff.mpr hname) (hplain rest)
      · obtain rfl := (List.cons.inj heq).2
        exact ⟨name, hname, rfl, rfl, hclosed.symm⟩
  · simp only [if_neg hbrace, Option.mem_def, Option.map_eq_some_iff, Mention.mk.injEq,
      nameBefore_iff]
    constructor
    · rintro ⟨name, hname, rfl, rfl, rfl⟩
      exact ⟨rfl, Or.inl ⟨_, ⟨hname, rfl⟩, rfl⟩⟩
    · rintro ⟨rfl, ⟨rest, ⟨hname, -⟩, hclosed⟩ | ⟨rest, body, rfl, -⟩⟩
      · exact ⟨name, hname, rfl, rfl, hclosed.symm⟩
      · exact absurd rfl hbrace

theorem referenceAt_eq (dollars : Nat) (text : Str) :
    referenceAt text = (mentionAt dollars text).map Mention.name := by
  rw [referenceAt, mentionAt]
  by_cases hbrace : text.head? = some '{'
  · simp only [if_pos hbrace, nameAt]
    split_ifs <;> rfl
  · simp only [if_neg hbrace, nameAt]
    split_ifs <;> rfl

theorem referenceAt_dollar (text : Str) : referenceAt ('$' :: text) = none := rfl

end Scan

section Runs

variable {c : Char} {text rest name : Str} {dollars : Nat} {m : Mention}

theorem mentions_dollar (dollars : Nat) (text : Str) :
    mentions dollars ('$' :: text) = mentions (dollars + 1) text := rfl

theorem mem_mentions_cons (hc : c ≠ '$') (hdollars : dollars ≠ 0) :
    m ∈ mentions dollars (c :: text) ↔ m ∈ mentionAt dollars (c :: text) ∨ m ∈ mentions 0 text := by
  rw [mentions, if_neg hc, if_neg hdollars, List.mem_append, Option.mem_toList, Option.mem_def]

theorem mentions_cons_zero (hc : c ≠ '$') : mentions 0 (c :: text) = mentions 0 text := by
  rw [mentions, if_neg hc, if_pos rfl]
  rfl

theorem mem_findReferences (dollars : Nat) (text : Str) :
    (name ∈ findReferences (decide (dollars ≠ 0)) text ∨ dollars = 1 ∧ name ∈ referenceAt text) ↔
      ∃ m ∈ mentions dollars text, m.dollars = 1 ∧ m.name = name := by
  induction text generalizing dollars with
  | nil => simp [findReferences, mentions, referenceAt]
  | cons c text ih =>
    by_cases hc : c = '$'
    · subst hc
      rw [mentions_dollar, ← ih, findReferences, referenceAt_dollar]
      by_cases hdollars : dollars = 0
      · subst hdollars
        simp [or_comm]
      · simp [hdollars]
    · have hfind : findReferences (decide (dollars ≠ 0)) (c :: text) =
          findReferences false text := by
        simp [findReferences, hc]
      have hzero : name ∈ findReferences false text ↔
          ∃ m ∈ mentions 0 text, m.dollars = 1 ∧ m.name = name := by
        simpa using ih 0
      rw [hfind, hzero]
      by_cases hdollars : dollars = 0
      · subst hdollars
        rw [mentions_cons_zero hc]
        simp
      · simp only [mem_mentions_cons hc hdollars, referenceAt_eq dollars, Option.mem_def,
          Option.map_eq_some_iff, or_and_right, exists_or]
        rw [or_comm]
        refine or_congr ⟨?_, ?_⟩ Iff.rfl
        · rintro ⟨rfl, m, hm, rfl⟩
          exact ⟨m, hm, (mem_mentionAt.mp hm).1, rfl⟩
        · rintro ⟨m, hm, hone, rfl⟩
          exact ⟨(mem_mentionAt.mp hm).1.symm.trans hone, m, hm, rfl⟩

theorem findReferences_iff : name ∈ findReferences false text ↔
    ∃ m ∈ mentions 0 text, m.dollars = 1 ∧ m.name = name := by
  have hread : (name ∈ findReferences (decide (0 ≠ 0)) text ∨ 0 = 1 ∧ name ∈ referenceAt text) ↔
      ∃ m ∈ mentions 0 text, m.dollars = 1 ∧ m.name = name := mem_findReferences 0 text
  simpa using hread

theorem refers_skip (hc : c ≠ '$') : Refers (c :: text) name ↔ Refers text name := by
  constructor
  · intro h
    cases h with
    | skip _ h => exact h
    | escaped _ => exact absurd rfl hc
    | past _ _ => exact absurd rfl hc
    | plain _ => exact absurd rfl hc
    | braced _ _ => exact absurd rfl hc
  · exact .skip hc

theorem refers_escaped : Refers ('$' :: '$' :: text) name ↔ Refers text name := by
  constructor
  · intro h
    cases h with
    | skip hc _ => exact absurd rfl hc
    | escaped h => exact h
    | past hrest _ => exact absurd rfl hrest
    | plain hname => exact absurd hname (not_nameBefore_of_head rfl)
  · exact .escaped

theorem refers_dollar (hc : c ≠ '$') (hodd : Odd dollars) :
    Refers ('$' :: c :: text) name ↔
      (∃ m ∈ mentionAt dollars (c :: text), Odd m.dollars ∧ m.closed = true ∧ m.name = name) ∨
        Refers text name := by
  constructor
  · intro h
    cases h with
    | skip hc _ => exact absurd rfl hc
    | escaped _ => exact absurd rfl hc
    | past _ h => exact Or.inr ((refers_skip hc).mp h)
    | plain hname =>
      exact Or.inl ⟨⟨dollars, name, true⟩, mem_mentionAt.mpr ⟨rfl, Or.inl ⟨_, hname, rfl⟩⟩, hodd,
        rfl, rfl⟩
    | braced hname hclosed =>
      exact Or.inl ⟨⟨dollars, name, true⟩, mem_mentionAt.mpr ⟨rfl, Or.inr ⟨_, _, rfl, hname,
        (decide_eq_true hclosed).symm⟩⟩, hodd, rfl, rfl⟩
  · rintro (⟨m, hm, -, hclosed, rfl⟩ | h)
    · obtain ⟨-, ⟨rest, hname, -⟩ | ⟨rest, body, heq, hname, hrest⟩⟩ := mem_mentionAt.mp hm
      · exact .plain hname
      · rw [heq]
        exact .braced hname (of_decide_eq_true (hrest.symm.trans hclosed))
    · refine .past ?_ ((refers_skip hc).mpr h)
      exact fun heq => hc (Option.some.inj heq)

theorem refers_mentions (dollars : Nat) (text : Str) :
    (Even dollars → (Refers text name ↔
      ∃ m ∈ mentions dollars text, Odd m.dollars ∧ m.closed = true ∧ m.name = name)) ∧
    (Odd dollars → (Refers ('$' :: text) name ↔
      ∃ m ∈ mentions dollars text, Odd m.dollars ∧ m.closed = true ∧ m.name = name)) := by
  induction text generalizing dollars with
  | nil =>
    refine ⟨fun _ => ⟨fun h => ?_, ?_⟩, fun _ => ⟨fun h => ?_, ?_⟩⟩
    · cases h
    · rintro ⟨m, hm, -⟩
      cases hm
    · cases h with
      | skip hc _ => exact absurd rfl hc
      | past _ h => cases h
      | plain hname => exact absurd hname (not_nameBefore_of_head (by decide))
    · rintro ⟨m, hm, -⟩
      cases hm
  | cons c text ih =>
    by_cases hc : c = '$'
    · subst hc
      rw [mentions_dollar]
      exact ⟨fun heven => (ih (dollars + 1)).2 heven.add_one,
        fun hodd => refers_escaped.trans ((ih (dollars + 1)).1 hodd.add_one)⟩
    · have hzero := (ih 0).1 Even.zero
      refine ⟨fun heven => ?_, fun hodd => ?_⟩
      · rw [refers_skip hc, hzero]
        by_cases hdollars : dollars = 0
        · rw [hdollars, mentions_cons_zero hc]
        · simp only [mem_mentions_cons hc hdollars, or_and_right, exists_or]
          refine (or_iff_right ?_).symm
          rintro ⟨m, hm, hodd, -⟩
          rw [(mem_mentionAt.mp hm).1] at hodd
          exact (Nat.not_odd_iff_even.mpr heven) hodd
      · have hdollars : dollars ≠ 0 := hodd.pos.ne'
        rw [refers_dollar hc hodd, hzero]
        simp only [mem_mentions_cons hc hdollars, or_and_right, exists_or]

theorem refers_iff : Refers text name ↔
    ∃ m ∈ mentions 0 text, Odd m.dollars ∧ m.closed = true ∧ m.name = name :=
  (refers_mentions 0 text).1 Even.zero

end Runs

section Documents

inductive HoldsText : Doc → Str → Prop
  | text (t : Str) : HoldsText (.scalar (.text t)) t
  | item {items : List Doc} {item : Doc} {t : Str} (hitem : item ∈ items) (h : HoldsText item t) :
      HoldsText (.list items) t
  | key {fields : List (Scalar × Doc)} {value : Doc} {t : Str} (hfield : (.text t, value) ∈ fields) :
      HoldsText (.mapping fields) t
  | value {fields : List (Scalar × Doc)} {key : Scalar} {value : Doc} {t : Str}
      (hfield : (key, value) ∈ fields) (h : HoldsText value t) : HoldsText (.mapping fields) t

def Interpolates (document : Doc) (name : Str) : Prop :=
  ∃ text, HoldsText document text ∧ Refers text name

/-- The runs of dollars of a document. -/
def HasMention (document : Doc) (m : Mention) : Prop :=
  ∃ text, HoldsText document text ∧ m ∈ mentions 0 text

variable {document : Doc} {t name : Str}

theorem mem_stringsItems {items : List Doc} :
    t ∈ Doc.stringsItems items ↔ ∃ item ∈ items, t ∈ item.strings := by
  induction items with
  | nil => simp [Doc.stringsItems]
  | cons item items ih => simp [Doc.stringsItems, ih]

theorem mem_stringsFields {fields : List (Scalar × Doc)} :
    t ∈ Doc.stringsFields fields ↔
      ∃ field ∈ fields, t ∈ field.1.strings ∨ t ∈ field.2.strings := by
  induction fields with
  | nil => simp [Doc.stringsFields]
  | cons field fields ih =>
    obtain ⟨key, value⟩ := field
    simp [Doc.stringsFields, ih, or_assoc]

theorem mem_strings_scalar {s : Scalar} : t ∈ s.strings ↔ s = .text t := by
  cases s <;> simp [Scalar.strings, eq_comm]

theorem holdsText_of_mem_strings (document : Doc) : ∀ t ∈ document.strings, HoldsText document t := by
  refine @Doc.rec (fun d => ∀ t ∈ d.strings, HoldsText d t)
    (fun items => ∀ item ∈ items, ∀ t ∈ item.strings, HoldsText item t)
    (fun fields => ∀ field ∈ fields, ∀ t ∈ field.2.strings, HoldsText field.2 t)
    (fun field => ∀ t ∈ field.2.strings, HoldsText field.2 t) ?_ ?_ ?_ ?_ ?_ ?_ ?_ ?_ document
  · intro s t ht
    obtain rfl := mem_strings_scalar.mp ht
    exact .text t
  · intro items ih t ht
    obtain ⟨item, hitem, ht⟩ := mem_stringsItems.mp ht
    exact .item hitem (ih item hitem t ht)
  · intro fields ih t ht
    obtain ⟨⟨key, value⟩, hfield, ht | ht⟩ := mem_stringsFields.mp ht
    · obtain rfl := mem_strings_scalar.mp ht
      exact .key hfield
    · exact .value hfield (ih _ hfield t ht)
  · intro item hitem
    cases hitem
  · intro item items hitem hitems d hd
    obtain rfl | hd := List.mem_cons.mp hd
    · exact hitem
    · exact hitems d hd
  · intro field hfield
    cases hfield
  · intro field fields hfield hfields f hf
    obtain rfl | hf := List.mem_cons.mp hf
    · exact hfield
    · exact hfields f hf
  · intro key value hvalue
    exact hvalue

theorem mem_strings : t ∈ document.strings ↔ HoldsText document t := by
  refine ⟨holdsText_of_mem_strings document t, fun h => ?_⟩
  induction h with
  | text t => exact mem_strings_scalar.mpr rfl
  | item hitem _ ih => exact mem_stringsItems.mpr ⟨_, hitem, ih⟩
  | key hfield => exact mem_stringsFields.mpr ⟨_, hfield, Or.inl (mem_strings_scalar.mpr rfl)⟩
  | value hfield _ ih => exact mem_stringsFields.mpr ⟨_, hfield, Or.inr ih⟩

theorem mem_referenceNames :
    name ∈ referenceNames document ↔ ∃ m, HasMention document m ∧ m.dollars = 1 ∧ m.name = name := by
  simp only [referenceNames, List.mem_dedup, List.mem_flatMap, mem_strings, findReferences_iff]
  constructor
  · rintro ⟨text, htext, m, hm, hone, rfl⟩
    exact ⟨m, ⟨text, htext, hm⟩, hone, rfl⟩
  · rintro ⟨m, ⟨text, htext, hm⟩, hone, rfl⟩
    exact ⟨text, htext, m, hm, hone, rfl⟩

theorem interpolates_iff : Interpolates document name ↔
    ∃ m, HasMention document m ∧ Odd m.dollars ∧ m.closed = true ∧ m.name = name := by
  simp only [Interpolates, refers_iff]
  constructor
  · rintro ⟨text, htext, m, hm, h⟩
    exact ⟨m, ⟨text, htext, hm⟩, h⟩
  · rintro ⟨m, ⟨text, htext, hm⟩, h⟩
    exact ⟨text, htext, m, hm, h⟩

/-- Every name behind three dollars or more is also behind one, and no name is only in a brace that
is left open. -/
structure PlainDollars (document : Doc) : Prop where
  single : ∀ m, HasMention document m → Odd m.dollars → 3 ≤ m.dollars → m.closed = true →
    ∃ m', HasMention document m' ∧ m'.dollars = 1 ∧ m'.name = m.name
  closed : ∀ m, HasMention document m → m.dollars = 1 → m.closed = false →
    ∃ m', HasMention document m' ∧ Odd m'.dollars ∧ m'.closed = true ∧ m'.name = m.name

theorem plainDollars_iff : PlainDollars document ↔
    ∀ name, Interpolates document name ↔ name ∈ referenceNames document := by
  simp only [interpolates_iff, mem_referenceNames]
  constructor
  · intro h name
    constructor
    · rintro ⟨m, hm, hodd, hclosed, rfl⟩
      rcases Nat.lt_or_ge m.dollars 3 with hlt | hge
      · refine ⟨m, hm, ?_, rfl⟩
        obtain ⟨k, hk⟩ := hodd
        omega
      · exact h.single m hm hodd hge hclosed
    · rintro ⟨m, hm, hone, rfl⟩
      cases hclosed : m.closed with
      | true => exact ⟨m, hm, hone ▸ odd_one, hclosed, rfl⟩
      | false => exact h.closed m hm hone hclosed
  · intro h
    refine ⟨fun m hm hodd _ hclosed => ?_, fun m hm hone _ => ?_⟩
    · exact (h m.name).mp ⟨m, hm, hodd, hclosed, rfl⟩
    · exact (h m.name).mpr ⟨m, hm, hone, rfl⟩

end Documents

section Accepted

variable {sha256 : Bytes → Str} {load : Str → Option Doc} {str_ : Scalar → Str} {params : Params}
  {v : Verdict} {document : Doc} {name : Str} {references : List Str} {text : Str}

def PairsIn (lines : List Str) (pairs : List (Str × Str)) : Prop :=
  ∀ pair ∈ pairs, pair.1 ++ '=' :: pair.2 ∈ lines ∧ isGhostKey pair.1 = true

theorem secretPair_eq_some {line key value : Str} (h : secretPair line = some (key, value)) :
    line = key ++ '=' :: value := by
  rw [secretPair] at h
  split at h
  · cases h
  next c rest hdrop =>
    split_ifs at h with hname
    obtain ⟨rfl, rfl⟩ := Prod.mk.inj (Option.some.inj h)
    have hc : c = '=' := by
      have hnot := List.head?_dropWhile_not (· != '=') line
      rw [hdrop] at hnot
      simpa using hnot
    have hline := List.takeWhile_append_dropWhile (p := (· != '=')) (l := line)
    rw [hdrop, hc] at hline
    exact hline.symm

theorem pairsIn_readSecret {lines : List Str} {line : Str} (hline : line ∈ lines) (number : Nat)
    {read : List (Str × Str) × List Str} (h : PairsIn lines read.1) :
    PairsIn lines (readSecret number line read).1 := by
  obtain ⟨pairs, refusals⟩ := read
  rw [readSecret]
  split_ifs
  · exact h
  · exact h
  · split
    · exact h
    next key value hpair =>
      split_ifs with hghost
      · exact h
      · exact h
      · intro pair hmem
        obtain hmem | hmem := List.mem_append.mp hmem
        · exact h pair hmem
        · obtain rfl := List.mem_singleton.mp hmem
          rw [← secretPair_eq_some hpair]
          exact ⟨hline, by simpa using hghost⟩

theorem pairsIn_readSecrets {lines lines' : List Str} (hsub : lines' ⊆ lines) (number : Nat)
    {read : List (Str × Str) × List Str} (h : PairsIn lines read.1) :
    PairsIn lines (readSecrets number lines' read).1 := by
  induction lines' generalizing number read with
  | nil => exact h
  | cons line lines' ih =>
    obtain ⟨hline, hrest⟩ := List.cons_subset.mp hsub
    exact ih hrest (number + 1) (pairsIn_readSecret hline number h)

theorem pairsIn_parseSecrets (text : Str) :
    PairsIn (splitOnChar '\n' text) (parseSecrets text).1 :=
  pairsIn_readSecrets (List.Subset.refl _) 1 (fun pair hpair => by cases hpair)

theorem accepted_rules (hload : load params.composeText = some document)
    (h : judge sha256 (some load) str_ params = .ok v) (hv : v.refusals = []) :
    composeRefusals str_ params document = [] ∧
      ∃ found, profileVerdict params document = .ok found ∧ found.2 = [] := by
  obtain ⟨found, claim, hfound, -, rfl⟩ := judge_ok load h
  rw [hload, Option.getD_some] at hfound
  rw [verdictOf, hload] at hv
  simp only [List.map_eq_nil_iff, List.append_eq_nil_iff, documentRefusals] at hv
  exact ⟨hv.1.1.2, found, hfound, hv.1.2⟩

theorem sorted_eq_nil {xs : List Str} (h : sorted xs = []) : xs = [] := by
  have hperm := List.mergeSort_perm xs fun a b => decide (a ≤ b)
  rw [show xs.mergeSort (fun a b => decide (a ≤ b)) = [] from h] at hperm
  exact hperm.nil_eq.symm

theorem forall_of_sorted_filter {p : Str → Bool} (h : sorted (references.filter p) = []) :
    ∀ name ∈ references, p name = false := fun name hname =>
  Bool.eq_false_iff.mpr (List.filter_eq_nil_iff.mp (sorted_eq_nil h) name hname)

theorem value_of_secretRefusals (h : secretRefusals references text = []) (hname : name ∈ references)
    (hghost : startsWith name ghostPrefix = true) :
    isGhostKey name = true ∧ ∃ value, value ≠ [] ∧ name ++ '=' :: value ∈ splitOnChar '\n' text := by
  simp only [secretRefusals, List.append_eq_nil_iff, List.map_eq_nil_iff] at h
  obtain ⟨⟨-, hmissing⟩, hempty⟩ := h
  have hwanted : name ∈ sorted (references.filter fun name => startsWith name ghostPrefix) :=
    (List.mergeSort_perm _ _).mem_iff.mpr (List.mem_filter.mpr ⟨hname, hghost⟩)
  have hsome := List.filter_eq_nil_iff.mp hmissing name hwanted
  have hvalue := List.filter_eq_nil_iff.mp hempty name hwanted
  cases hlookup : (parseSecrets text).1.lookup name with
  | none =>
    rw [hlookup] at hsome
    exact absurd rfl hsome
  | some value =>
    obtain ⟨hline, hkey⟩ := pairsIn_parseSecrets text (name, value) (mem_of_lookup hlookup)
    refine ⟨hkey, value, ?_, hline⟩
    rintro rfl
    exact hvalue (decide_eq_true hlookup)

def MayInterpolate (params : Params) (name : Str) : Prop :=
  match params.profile with
  | .tenant => name = "IMAGE".toList ∨ isGhostKey name = true ∧
      ∃ value, value ≠ [] ∧ name ++ '=' :: value ∈ splitOnChar '\n' params.secretsEnvText
  | .spool => name = "SHIM_DRAIN_TOKEN".toList

theorem spoolNames_of_accepted {services : List (Scalar × Doc)}
    (h : spoolRefusals document services = []) (hname : name ∈ referenceNames document) :
    name = "SHIM_DRAIN_TOKEN".toList := by
  rw [spoolRefusals] at h
  have hunknown := List.map_eq_nil_iff.mp (List.append_eq_nil_iff.mp h).2
  exact not_not.mp (of_decide_eq_false (forall_of_sorted_filter hunknown name hname))

theorem mayInterpolate_of_accepted (hload : load params.composeText = some document)
    (h : judge sha256 (some load) str_ params = .ok v) (hv : v.refusals = [])
    (hname : name ∈ referenceNames document) : MayInterpolate params name := by
  obtain ⟨hcompose, found, hfound, hrefused⟩ := accepted_rules hload h hv
  unfold MayInterpolate
  cases hprofile : params.profile with
  | tenant =>
    simp only [profileVerdict, hprofile] at hfound
    obtain rfl := Except.ok.inj hfound
    simp only [List.append_eq_nil_iff, tenantRefusals, List.map_eq_nil_iff] at hrefused
    obtain ⟨⟨hunknown, hsecrets⟩, -⟩ := hrefused
    have hnot := forall_of_sorted_filter hunknown name hname
    by_cases himage : name = "IMAGE".toList
    · exact Or.inl himage
    · have hghost : startsWith name ghostPrefix = true := by
        rw [decide_eq_true himage, Bool.true_and, Bool.not_eq_false'] at hnot
        exact hnot
      exact Or.inr (value_of_secretRefusals hsecrets hname hghost)
  | spool =>
    cases document with
    | scalar s => cases hcompose
    | list items => cases hcompose
    | mapping fields =>
      have hnoServices : ∀ refusals : List Str,
          refusals ++ ["compose has no services".toList] ≠ [] := fun refusals =>
        List.append_ne_nil_of_right_ne_nil _ (List.cons_ne_nil _ _)
      rw [composeRefusals] at hcompose
      cases hservices : Doc.get fields "services".toList with
      | scalar s =>
        rw [hservices] at hcompose
        exact absurd hcompose (hnoServices _)
      | list items =>
        rw [hservices] at hcompose
        exact absurd hcompose (hnoServices _)
      | mapping services =>
        rw [hservices] at hcompose
        cases services with
        | nil => exact absurd hcompose (hnoServices _)
        | cons service services =>
          have hspool := (List.append_eq_nil_iff.mp hcompose).2
          rw [if_pos hprofile] at hspool
          exact spoolNames_of_accepted hspool hname

/-- Every variable that Compose interpolates is known to the judge, and is supplied where it
accepts. -/
def NamesKnown (sha256 : Bytes → Str) (str_ : Scalar → Str) (document : Doc) : Prop :=
  (∀ name, Interpolates document name ↔ name ∈ referenceNames document) ∧
    ∀ (load : Str → Option Doc) params v, load params.composeText = some document →
      judge sha256 (some load) str_ params = .ok v → v.refusals = [] →
      ∀ name, Interpolates document name → MayInterpolate params name

/-- The names of a document are known where its dollars are plain, and only there. -/
theorem namesKnown_iff (sha256 : Bytes → Str) (str_ : Scalar → Str) (document : Doc) :
    NamesKnown sha256 str_ document ↔ PlainDollars document := by
  refine ⟨fun h => plainDollars_iff.mpr h.1, fun h => ?_⟩
  have hnames := plainDollars_iff.mp h
  refine ⟨hnames, fun load params v hload hjudge hv name hname => ?_⟩
  exact mayInterpolate_of_accepted hload hjudge hv ((hnames name).mp hname)

/-- A literal dollar before a reference hides it from the judge. -/
theorem hidden_reference :
    ¬NamesKnown (fun _ => []) (fun _ => []) (.scalar (.text "price: $$$TOKEN".toList)) := by
  intro h
  have hrefers : Refers "price: $$$TOKEN".toList "TOKEN".toList := by
    rw [refers_iff]
    simp only [toList_literal]
    decide
  have hname := (h.1 "TOKEN".toList).mp ⟨_, .text _, hrefers⟩
  revert hname
  simp only [toList_literal]
  decide

end Accepted

end SharedInfra.TenantCompose
