import SharedInfra.Firewall.ReaderSpec

/-!
# A rule read as the policy's means what the policy's does

The fields of a kept rule hold of a packet exactly when its items do, as long as
no option is given twice with different values (`holds_iff_items`), and so a
rule that is read as a rule of the policy has that rule's meaning
(`savedRule_eq_policyRule`).
-/

namespace SharedInfra.Firewall

open Python Sequences

/-- No option the reader keeps is given twice with different values. -/
def SavedRule.Unambiguous (r : SavedRule) : Prop :=
  ∀ field negated value negated' value',
    Item.option field negated value ∈ r.items → Item.option field negated' value' ∈ r.items →
      negated = negated' ∧ value = value'

section Fields

variable {P : Type} {m : Netfilter P} {packet : P} {fields : Fields} {items : List Item}
variable {field : Field} {negated : Bool}

def Netfilter.holdsAt (m : Netfilter P) (packet : P) (fields : Fields) : Field → Bool
  | .source =>
    (fields.src.map fun v =>
      negateIf (fields.srcNegated.getD false) (m.source v packet)).getD true
  | .outInterface =>
    (fields.outIface.map fun v =>
      negateIf (fields.outNegated.getD false) (m.outInterface v packet)).getD true
  | .ctstate => (fields.ctstate.map fun s => m.ctstate s packet).getD true
  | .plain field => ((fields.plain field).map fun v => m.plain field v packet).getD true

def Fields.isSet (fields : Fields) : Field → Bool
  | .source => fields.src.isSome
  | .outInterface => fields.outIface.isSome
  | .ctstate => fields.ctstate.isSome
  | .plain field => (fields.plain field).isSome

/-- The meaning of a source address does not depend on a host route's prefix length. -/
def Netfilter.Respects (m : Netfilter P) : Item → Prop
  | .option .source _ value => ∀ packet,
      m.source (normaliseAddress value.1) packet = m.source value.1 packet
  | _ => True

theorem holdsAt_apply_same {value : OptionValue}
    (hkept : (Item.option field negated value).kept = true)
    (hlaw : m.Respects (.option field negated value)) :
    m.holdsAt packet (applyOption fields negated value.1 field) field =
      m.item packet (.option field negated value) := by
  cases field with
  | source => simp [Netfilter.holdsAt, applyOption, Netfilter.item, hlaw packet]
  | outInterface => simp [Netfilter.holdsAt, applyOption, Netfilter.item]
  | ctstate =>
    obtain rfl : negated = false := by simpa [Item.kept, Field.keepsNegation] using hkept
    simp [Netfilter.holdsAt, applyOption, Netfilter.item, negateIf]
  | plain field =>
    obtain rfl : negated = false := by simpa [Item.kept, Field.keepsNegation] using hkept
    simp [Netfilter.holdsAt, applyOption, Netfilter.item, negateIf]

theorem holdsAt_apply_other {field other : Field} {value : Str}
    (h : other ≠ field) :
    m.holdsAt packet (applyOption fields negated value field) other =
      m.holdsAt packet fields other := by
  cases field <;> cases other <;> simp_all [Netfilter.holdsAt, applyOption]

theorem isSet_apply {field other : Field} {value : Str} :
    (applyOption fields negated value field).isSet other =
      (decide (other = field) || fields.isSet other) := by
  cases field <;> cases other <;>
    simp [Fields.isSet, applyOption, Function.update_apply]
  rename_i f g
  by_cases h : g = f <;> simp [h]

def Item.inField (field : Field) : Item → Prop
  | .option own _ _ => own = field
  | _ => False

theorem holdsAt_foldl_none (h : ∀ item ∈ items, ¬item.inField field)
    (fields : Fields) :
    m.holdsAt packet (items.foldl applyItem fields) field = m.holdsAt packet fields field := by
  induction items generalizing fields with
  | nil => rfl
  | cons item items ih =>
    rw [List.foldl_cons, ih fun i hi => h i (List.mem_cons_of_mem _ hi)]
    have hitem := h item (by simp)
    cases item with
    | option other negated value =>
      exact holdsAt_apply_other fun heq => hitem heq.symm
    | module name => rfl
    | other o => rfl

theorem holdsAt_foldl_option {value : OptionValue}
    (hkept : ∀ item ∈ items, item.kept = true) (hlaw : ∀ item ∈ items, m.Respects item)
    (hsame : ∀ negated' value', Item.option field negated' value' ∈ items →
      negated' = negated ∧ value' = value)
    (hmem : Item.option field negated value ∈ items) (fields : Fields) :
    m.holdsAt packet (items.foldl applyItem fields) field =
      m.item packet (.option field negated value) := by
  induction items generalizing fields with
  | nil => simp at hmem
  | cons item items ih =>
    rw [List.foldl_cons]
    by_cases hrest : Item.option field negated value ∈ items
    · exact ih (fun i hi => hkept i (List.mem_cons_of_mem _ hi))
        (fun i hi => hlaw i (List.mem_cons_of_mem _ hi))
        (fun n v hnv => hsame n v (List.mem_cons_of_mem _ hnv)) hrest _
    · obtain rfl : Item.option field negated value = item :=
        (List.mem_cons.mp hmem).resolve_right hrest
      have hnone : ∀ i ∈ items, ¬i.inField field := by
        intro i hi hfield
        cases i with
        | option other negated' value' =>
          obtain rfl : other = field := hfield
          obtain ⟨rfl, rfl⟩ := hsame negated' value' (List.mem_cons_of_mem _ hi)
          exact hrest hi
        | module name => exact hfield
        | other o => exact hfield
      rw [holdsAt_foldl_none hnone]
      exact holdsAt_apply_same (hkept _ (by simp)) (hlaw _ (by simp))

theorem holds_iff_items {r : SavedRule} (hkept : ∀ item ∈ r.items, item.kept = true)
    (hlaw : ∀ item ∈ r.items, m.Respects item) (hunamb : r.Unambiguous) :
    (∀ field, m.holdsAt packet (r.items.foldl applyItem {}) field = true) ↔
      r.items.all (m.item packet) = true := by
  rw [List.all_eq_true]
  constructor
  · intro h item hitem
    cases item with
    | option field negated value =>
      rw [← holdsAt_foldl_option hkept hlaw
        (fun n v hnv => hunamb field n v negated value hnv hitem) hitem {}]
      exact h field
    | module name => rfl
    | other o => simpa [Item.kept] using hkept _ hitem
  · intro h field
    by_cases hex : ∃ item ∈ r.items, item.inField field
    · obtain ⟨item, hitem, hfield⟩ := hex
      cases item with
      | option other negated value =>
        obtain rfl : other = field := hfield
        rw [holdsAt_foldl_option hkept hlaw
          (fun n v hnv => hunamb other n v negated value hnv hitem) hitem {}]
        exact h _ hitem
      | module name => exact absurd hfield id
      | other o => exact absurd hfield id
    · push Not at hex
      rw [holdsAt_foldl_none hex]
      cases field <;> rfl

structure Fields.Proper (fields : Fields) : Prop where
  src : ∀ v, fields.src = some v → v ≠ []
  outIface : ∀ v, fields.outIface = some v → v ≠ []
  ctstate : ∀ s, fields.ctstate = some s → s ≠ ∅
  plain : ∀ field v, fields.plain field = some v → normaliseAddress v ≠ []

theorem OptionValue.ne_nil (value : OptionValue) : value.1 ≠ [] := by
  intro h
  exact value.2 (by rw [h]; decide)

theorem stateSet_ne_empty (value : Str) : stateSet value ≠ ∅ := by
  simpa [stateSet] using splitOnChar_ne_nil ',' value

theorem Fields.Proper.applyItem (h : fields.Proper) (item : Item) :
    (applyItem fields item).Proper := by
  cases item with
  | module name => exact h
  | other o => exact h
  | option field negated value =>
    cases field with
    | source => exact ⟨by simp [Firewall.applyItem, applyOption, value.2], h.outIface, h.ctstate, h.plain⟩
    | outInterface =>
      exact ⟨h.src, by simp [Firewall.applyItem, applyOption, value.ne_nil], h.ctstate, h.plain⟩
    | ctstate =>
      exact ⟨h.src, h.outIface, by simp [Firewall.applyItem, applyOption, stateSet_ne_empty], h.plain⟩
    | plain field =>
      refine ⟨h.src, h.outIface, h.ctstate, ?_⟩
      intro other v hv
      simp only [Firewall.applyItem, applyOption, Function.update_apply] at hv
      split_ifs at hv
      · rw [Option.some.injEq] at hv
        exact hv ▸ value.2
      · exact h.plain other v hv

theorem proper_foldl (items : List Item) {fields : Fields} (h : fields.Proper) :
    (items.foldl applyItem fields).Proper := by
  induction items generalizing fields with
  | nil => exact h
  | cons item items ih => exact ih (h.applyItem item)

theorem proper_keptFields (r : SavedRule) : (keptFields r).Proper := by
  have hempty : ({} : Fields).Proper := ⟨by simp, by simp, by simp, by simp⟩
  have h := proper_foldl r.items hempty
  rw [keptFields]
  cases r.target with
  | none => exact h
  | some t => exact ⟨h.src, h.outIface, h.ctstate, h.plain⟩

theorem target_foldl (items : List Item) (fields : Fields) :
    (items.foldl applyItem fields).target = fields.target := by
  induction items generalizing fields with
  | nil => rfl
  | cons item items ih =>
    rw [List.foldl_cons, ih]
    cases item with
    | option field negated value => cases field <;> rfl
    | module name => rfl
    | other o => rfl

theorem isSet_foldl
    (h : fields.isSet field = true ∨ ∃ item ∈ items, item.inField field) :
    (items.foldl applyItem fields).isSet field = true := by
  induction items generalizing fields with
  | nil => simpa using h
  | cons item items ih =>
    rw [List.foldl_cons]
    apply ih
    rcases h with hset | ⟨i, hi, hfield⟩
    · left
      cases item with
      | option other negated value => simp [applyItem, isSet_apply, hset]
      | module name => exact hset
      | other o => exact hset
    · rcases List.mem_cons.mp hi with rfl | hi
      · left
        cases i with
        | option other negated value =>
          obtain rfl : other = field := hfield
          simp [applyItem, isSet_apply]
        | module name => exact absurd hfield id
        | other o => exact absurd hfield id
      · exact Or.inr ⟨i, hi, hfield⟩

theorem satisfies_buildRule (h : fields.Proper)
    (hhost : ∀ field v, field = .dst ∨ field = .ctorigdst → fields.plain field = some v →
      m.plain field (normaliseAddress v) packet = m.plain field v packet) :
    m.satisfies packet (buildRule fields []) = true ↔
      ∀ field, m.holdsAt packet fields field = true := by
  have hnil : normaliseAddress [] = [] := by decide
  have hplain : ∀ field, (((fields.plain field).getD []).isEmpty ||
      m.plain field ((fields.plain field).getD []) packet) =
        m.holdsAt packet fields (.plain field) := by
    intro field
    cases hf : fields.plain field with
    | none => simp [Netfilter.holdsAt, hf]
    | some v =>
      have hne : v ≠ [] := fun hv => h.plain field v hf (by rw [hv, hnil])
      simp [Netfilter.holdsAt, hf, hne]
  have haddress : ∀ field, field = .dst ∨ field = .ctorigdst →
      ((normaliseAddress ((fields.plain field).getD [])).isEmpty ||
        m.plain field (normaliseAddress ((fields.plain field).getD [])) packet) =
          m.holdsAt packet fields (.plain field) := by
    intro field hfield
    cases hf : fields.plain field with
    | none => simp [Netfilter.holdsAt, hf, hnil]
    | some v => simp [Netfilter.holdsAt, hf, h.plain field v hf, hhost field v hfield hf]
  have hsource : ((fields.src.getD []).isEmpty ||
      negateIf (fields.srcNegated.getD false) (m.source (fields.src.getD []) packet)) =
        m.holdsAt packet fields .source := by
    cases hf : fields.src with
    | none => simp [Netfilter.holdsAt, hf]
    | some v => simp [Netfilter.holdsAt, hf, h.src v hf]
  have hout : ((fields.outIface.getD []).isEmpty ||
      negateIf (fields.outNegated.getD false) (m.outInterface (fields.outIface.getD []) packet)) =
        m.holdsAt packet fields .outInterface := by
    cases hf : fields.outIface with
    | none => simp [Netfilter.holdsAt, hf]
    | some v => simp [Netfilter.holdsAt, hf, h.outIface v hf]
  have hstate : (anyState (fields.ctstate.getD ∅) || m.ctstate (fields.ctstate.getD ∅) packet) =
      m.holdsAt packet fields .ctstate := by
    cases hf : fields.ctstate with
    | none => simp [Netfilter.holdsAt, hf, anyState]
    | some s => simp [Netfilter.holdsAt, hf, h.ctstate s hf, anyState]
  simp only [Netfilter.satisfies, buildRule, hplain, haddress .dst (Or.inl rfl),
    haddress .ctorigdst (Or.inr rfl), hsource, hout, hstate, Bool.and_eq_true]
  constructor
  · rintro ⟨⟨⟨⟨⟨⟨⟨⟨h1, h2⟩, h3⟩, h4⟩, h5⟩, h6⟩, h7⟩, h8⟩, h9⟩ field
    cases field with
    | source => exact h3
    | outInterface => exact h2
    | ctstate => exact h7
    | plain field => cases field <;> assumption
  · intro hall
    exact ⟨⟨⟨⟨⟨⟨⟨⟨hall _, hall _⟩, hall _⟩, hall _⟩, hall _⟩, hall _⟩, hall _⟩, hall _⟩, hall _⟩

/-- The addresses of a rule: an IPv6 policy has none. -/
def Rule.NoAddress (r : Rule) : Prop := r.src = [] ∧ r.dst = [] ∧ r.ctorigdst = []

variable {family : Family} {allowed : List Str}

theorem savedRule_eq_policyRule {r : SavedRule} (hlaw : m.Lawful family allowed)
    (hkept : r.Kept) (hunamb : r.Unambiguous)
    (haddress : family = .iptables ∨ (buildRule (keptFields r) []).NoAddress)
    (htarget : (buildRule (keptFields r) []).target ≠ []) :
    m.savedRule packet r = m.policyRule packet (buildRule (keptFields r) []) := by
  have hproper := proper_keptFields r
  have hholds : ∀ field, m.holdsAt packet (keptFields r) field =
      m.holdsAt packet (r.items.foldl applyItem {}) field := by
    intro field
    rw [keptFields]
    cases r.target <;> cases field <;> rfl
  have hset : ∀ field, (∃ item ∈ r.items, item.inField field) →
      (keptFields r).isSet field = true := by
    intro field hex
    have : (r.items.foldl applyItem {}).isSet field = true := isSet_foldl (Or.inr hex)
    rw [keptFields]
    cases r.target <;> cases field <;> exact this
  have hrespects : ∀ item ∈ r.items, m.Respects item := by
    intro item hitem
    cases item with
    | module name => trivial
    | other o => trivial
    | option field negated value =>
      cases field with
      | source =>
        rcases haddress with rfl | hno
        · exact fun packet => hlaw.sourceHost rfl value.1 packet
        · -- Without an address there is no such option.
          exfalso
          have hsome := hset .source ⟨_, hitem, rfl⟩
          obtain ⟨v, hv⟩ := Option.isSome_iff_exists.mp hsome
          have hempty := hno.1
          simp only [buildRule, hv, Option.getD_some] at hempty
          exact hproper.src v hv hempty
      | outInterface => trivial
      | ctstate => trivial
      | plain field => trivial
  have hhost : ∀ field v, field = .dst ∨ field = .ctorigdst → (keptFields r).plain field = some v →
      m.plain field (normaliseAddress v) packet = m.plain field v packet := by
    intro field v hfield hv
    rcases haddress with rfl | hno
    · exact hlaw.plainHost rfl field v packet hfield
    · exfalso
      rcases hfield with rfl | rfl
      · have hempty := hno.2.1
        simp only [buildRule, hv, Option.getD_some] at hempty
        exact hproper.plain _ v hv hempty
      · have hempty := hno.2.2
        simp only [buildRule, hv, Option.getD_some] at hempty
        exact hproper.plain _ v hv hempty
  have hmatch : m.satisfies packet (buildRule (keptFields r) []) = r.items.all (m.item packet) := by
    rw [Bool.eq_iff_iff, satisfies_buildRule hproper hhost]
    simp only [hholds]
    exact holds_iff_items hkept.items hrespects hunamb
  rw [Netfilter.savedRule, Netfilter.policyRule, hmatch]
  congr 1
  cases ht : r.target with
  | none => exact absurd (by simp [buildRule, keptFields, ht, applyTarget, target_foldl]) htarget
  | some t =>
    have hopts := hkept.target t ht
    simp only [Option.map_some, Option.getD_some, buildRule, keptFields, ht, applyTarget]
    rw [← hopts]

end Fields

end SharedInfra.Firewall
