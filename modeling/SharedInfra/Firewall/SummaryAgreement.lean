import SharedInfra.Firewall.ReadBackSpec

/-!
# The summary predicts the read-back

Mode check stops at the first thing it refuses; mode summary reports every row.
Both read the same tables (`listTable_ok_iff`), find the policy's rules with the
same scan and ask the same bypass question, so a chain is accepted exactly when
its summary is clean and the policy is complete in it (`accepts_iff_clean`).
-/

namespace SharedInfra.Firewall

open Python Sequences

section Rows

variable {p : ChainPolicy} {observed : List Rule} {allowed : List Str}

theorem mem_foreignRows {row : ForeignRow} :
    row ∈ foreignRows p observed allowed ↔
      ∃ rule index, observed[index]? = some rule ∧ index ∉ matchOwned p observed ∧ row = {
          position := index + 1
          target := shownTarget rule.target
          verdict := verdict p observed rule index (lastDrop p (matchOwned p observed))
            (matchOwned p observed) allowed } := by
  simp only [foreignRows, List.mem_map, List.mem_filter, decide_eq_true_eq, Prod.exists,
    List.mem_zipIdx_iff_getElem?]
  constructor
  · rintro ⟨rule, index, ⟨hget, hnot⟩, rfl⟩
    exact ⟨rule, index, hget, hnot, rfl⟩
  · rintro ⟨rule, index, hget, hnot, rfl⟩
    exact ⟨rule, index, ⟨hget, hnot⟩, rfl⟩

theorem verdict_wouldRefuse_iff {rule : Rule} {index : Nat} {last : Int} {matched : List Nat}
    (hlast : 0 ≤ last) :
    verdict p observed rule index last matched allowed = .wouldRefuse ↔
      (index : Int) ≤ last ∧ bypasses rule index matched allowed = true := by
  simp only [verdict, hlast, if_true]
  split_ifs with h1 h2
  · simp
    omega
  · simp only [true_iff]
    exact ⟨by omega, h2⟩
  · simp [h2]

theorem clean_iff_noBypass (hd : HasDrop p)
    (hfull : (matchOwned p observed).length = p.owned.length) :
    (∀ row ∈ foreignRows p observed allowed, row.verdict ≠ .wouldRefuse) ↔
      firstBypass observed (lastDrop p (matchOwned p observed)) (matchOwned p observed)
        allowed = none := by
  have hlast := lastDrop_nonneg hd hfull
  constructor
  · intro hclean
    cases hb : firstBypass observed (lastDrop p (matchOwned p observed))
        (matchOwned p observed) allowed with
    | none => rfl
    | some found =>
      obtain ⟨rule, index⟩ := found
      obtain ⟨hget, hlt, hbyp, _⟩ := firstBypass_some hlast hb
      have hnot : index ∉ matchOwned p observed := by
        simp only [bypasses, Bool.and_eq_true, decide_eq_true_eq] at hbyp
        exact hbyp.1
      refine absurd ?_ (hclean _ (mem_foreignRows.mpr ⟨rule, index, hget, hnot, rfl⟩))
      exact (verdict_wouldRefuse_iff hlast).mpr ⟨by omega, hbyp⟩
  · rintro hb row hrow
    obtain ⟨rule, index, hget, hnot, rfl⟩ := mem_foreignRows.mp hrow
    rw [ne_eq, verdict_wouldRefuse_iff hlast]
    rintro ⟨hle, hbyp⟩
    -- A rule that bypasses is not at a matched place, and the last drop is at one.
    have hne : (index : Int) ≠ lastDrop p (matchOwned p observed) := by
      obtain ⟨place, hplace, heq⟩ := lastDrop_mem hlast
      intro h
      have : index = place := by omega
      exact hnot (this ▸ hplace)
    rw [firstBypass_none hlast hb (by omega) hget] at hbyp
    cases hbyp

theorem accepts_iff_clean (hd : HasDrop p) :
    Accepts p observed allowed ↔ (matchOwned p observed).length = p.owned.length ∧
        (∀ row ∈ foreignRows p observed allowed, row.verdict ≠ .wouldRefuse) ∧
        ∀ o ∈ p.forbidden, o.rule ∉ observed := by
  constructor
  · intro ⟨hsub, hforb, hbyp⟩
    have hfull := matchOwned_full_iff.mpr hsub
    exact ⟨hfull, (clean_iff_noBypass hd hfull).mpr hbyp, hforb⟩
  · intro ⟨hfull, hclean, hforb⟩
    exact ⟨matchOwned_full_iff.mp hfull, hforb, (clean_iff_noBypass hd hfull).mp hclean⟩

end Rows

section Tables

variable {runner : Family → Listing} {family : Family}

theorem listTable_ok_iff {t : Table} :
    listTable family runner = .ok t ↔ tableOrStatus family runner = .ok (.ok t) := by
  simp only [listTable, tableOrStatus]
  split_ifs with h
  · constructor <;> intro hh <;> cases hh
  · cases parseListing (runner family).stdout with
    | none => constructor <;> intro hh <;> cases hh
    | some u =>
      constructor
      · intro hh
        cases hh
        rfl
      · intro hh
        cases hh
        rfl

/-- Every `-N` and `-P` line of a listing names its chain, as the tools print them. -/
def NamesChains (listing : Listing) : Prop :=
  ∀ line ∈ splitlines listing.stdout,
    startsWith line "-N " = true ∨ startsWith line "-P " = true → 2 ≤ (splitWords line).length

theorem foldlM_readLine_isSome {lines : List Str} {t : Table}
    (h : ∀ line ∈ lines, startsWith line "-N " = true ∨ startsWith line "-P " = true →
        2 ≤ (splitWords line).length) :
    ∃ t', lines.foldlM readLine t = some t' := by
  induction lines generalizing t with
  | nil => exact ⟨t, rfl⟩
  | cons line lines ih =>
    have hline : ∃ t', readLine t line = some t' := by
      unfold readLine
      split_ifs with hnp
      · have hlen := h line (by simp) (by simpa using hnp)
        exact ⟨_, by rw [List.getElem?_eq_getElem (by omega : 1 < (splitWords line).length)]; rfl⟩
      · exact ⟨_, rfl⟩
      · exact ⟨_, rfl⟩
    obtain ⟨t', ht'⟩ := hline
    obtain ⟨t'', ht''⟩ := ih (t := t') fun l hl => h l (List.mem_cons_of_mem _ hl)
    exact ⟨t'', by simp [List.foldlM_cons, ht', ht'']⟩

theorem tableOrStatus_of_names (h : NamesChains (runner family)) :
    ∃ table, tableOrStatus family runner = .ok table := by
  simp only [tableOrStatus]
  split_ifs with hs
  · exact ⟨_, rfl⟩
  · obtain ⟨t, ht⟩ := foldlM_readLine_isSome (t := {}) h
    have : parseListing (runner family).stdout = some t := ht
    rw [this]
    exact ⟨.ok t, rfl⟩

end Tables

section Summaries

variable {text : Str} {variant : Variant} {allowed : List Str} {runner : Family → Listing}

def summaryOf (l : Literals) (variant : Variant) (allowed : List Str)
    (tables : Family → Except Int Table) : Summary where
  chains := (policies l variant).map fun p => summariseChain p (tables p.family) allowed
  forwards :=
    [summariseForward .iptables (tables .iptables), summariseForward .ip6tables (tables .ip6tables)]

theorem summarise_eq {l : Literals} {tables : Family → Except Int Table}
    (hl : readLiterals text = .ok l) (ht : ∀ f, tableOrStatus f runner = .ok (tables f)) :
    summarise text variant allowed runner = .ok (summaryOf l variant allowed tables) := by
  simp only [summarise, hl, bind, Except.bind, policies, List.foldlM_cons, List.foldlM_nil,
    summarisePolicy, cached, ht, List.lookup, Except.map, pure, Except.pure, summaryOf,
    List.map, List.nil_append, List.cons_append, beq_self_eq_true,
    show (Family.ip6tables == Family.iptables) = false from rfl]

theorem summarise_ok {s : Summary} (h : summarise text variant allowed runner = .ok s) :
    ∃ l tables, readLiterals text = .ok l ∧ (∀ f, tableOrStatus f runner = .ok (tables f)) ∧
      s = summaryOf l variant allowed tables := by
  cases hl : readLiterals text with
  | error e => simp [summarise, hl, bind, Except.bind] at h
  | ok l =>
    cases h4 : tableOrStatus .iptables runner with
    | error e =>
      simp [summarise, hl, bind, Except.bind, policies, List.foldlM_cons, summarisePolicy,
        cached, h4, Except.map] at h
    | ok t4 =>
      cases h6 : tableOrStatus .ip6tables runner with
      | error e =>
        simp [summarise, hl, bind, Except.bind, policies, List.foldlM_cons,
          summarisePolicy, cached, List.lookup, h4, h6, Except.map, pure, Except.pure,
          show (Family.ip6tables == Family.iptables) = false from rfl] at h
      | ok t6 =>
        have hread : ∀ f, ∃ table, tableOrStatus f runner = .ok table := by
          intro f
          cases f
          · exact ⟨t4, h4⟩
          · exact ⟨t6, h6⟩
        choose tables ht using hread
        rw [summarise_eq hl ht, Except.ok.injEq] at h
        exact ⟨l, tables, rfl, ht, h.symm⟩

theorem wouldRefuse_eq_zero_iff {s : Summary} :
    s.wouldRefuse = 0 ↔ (∀ c ∈ s.chains, ∀ row ∈ c.rows, row.verdict ≠ .wouldRefuse) ∧
        (∀ c ∈ s.chains, c.refused = false) ∧ ∀ f ∈ s.forwards, f.refused = false := by
  have hrows : (s.chains.map ChainSummary.refusedRows).sum = 0 ↔
      ∀ c ∈ s.chains, ∀ row ∈ c.rows, row.verdict ≠ .wouldRefuse := by
    rw [List.sum_eq_zero_iff_forall_eq_nat]
    simp [ChainSummary.refusedRows]
  rw [← hrows]
  simp [Summary.wouldRefuse, and_assoc]

theorem unreadable_eq_zero_iff {s : Summary} :
    s.unreadable = 0 ↔
      (∀ c ∈ s.chains, c.state ≠ .unreadable) ∧ ∀ f ∈ s.forwards, f.first ≠ .unreadable := by
  simp only [Summary.unreadable, Nat.add_eq_zero_iff, List.countP_eq_zero, decide_eq_true_eq, ne_eq]

def NoForbidden (text : Str) (variant : Variant) (runner : Family → Listing) : Prop :=
  ∀ l, readLiterals text = .ok l → ∀ p ∈ policies l variant, ∀ t,
    listTable p.family runner = .ok t → ∀ o ∈ p.forbidden, o.rule ∉ t.rules p.chain

theorem summariseChain_listed {p : ChainPolicy} {t : Table} (h : p.chain ∈ t.chains) :
    summariseChain p (.ok t) allowed = {
      family := p.family
      chain := p.chain
      state := .listed
      required := !p.onlyIfPresent
      exitStatus := 0
      rules := (t.rules p.chain).length
      policyPresent := (matchOwned p (t.rules p.chain)).length
      policyTotal := p.owned.length
      rows := foreignRows p (t.rules p.chain) allowed } := by
  simp [summariseChain, h]

theorem summariseChain_absent {p : ChainPolicy} {t : Table} (allowed : List Str)
    (h : p.chain ∉ t.chains) :
    (summariseChain p (.ok t) allowed).state = .absent ∧
      (summariseChain p (.ok t) allowed).required = !p.onlyIfPresent ∧
      (summariseChain p (.ok t) allowed).rows = [] := by
  simp [summariseChain, h]

@[simp] theorem summariseChain_family (p : ChainPolicy) (table : Except Int Table) :
    (summariseChain p table allowed).family = p.family := by
  cases table
  · rfl
  · simp only [summariseChain]
    split_ifs <;> rfl

@[simp] theorem summariseChain_chain (p : ChainPolicy) (table : Except Int Table) :
    (summariseChain p table allowed).chain = p.chain := by
  cases table
  · rfl
  · simp only [summariseChain]
    split_ifs <;> rfl

theorem summariseForward_ok_iff {family : Family} {t : Table} :
    (summariseForward family (.ok t)).refused = false ↔ ForwardOk t := by
  simp only [summariseForward, ForwardOk, ForwardSummary.refused]
  split_ifs with h
  · simp only [h, forall_true_left]
    cases hf : forwardFirst t <;> simp [forwardFirst] at hf ⊢
    all_goals
      split at hf
      · cases hf
      · split_ifs at hf
  · simp [h]

theorem summariseForward_first_ne {family : Family} {t : Table} :
    (summariseForward family (.ok t)).first ≠ .unreadable := by
  simp only [summariseForward, forwardFirst]
  split_ifs
  · split
    · simp
    · split_ifs <;> simp
  · simp

end Summaries

section Agreement

variable {path text : Str} {variant : Variant} {allowed : List Str}
  {runner : Family → Listing}

/-- A passing read-back is predicted: nothing refused, nothing unreadable, every chain
the policy needs complete. -/
theorem summarise_of_checkAll_ok {result : Result}
    (h : checkAll ⟨path, .ok text, variant, allowed⟩ runner = .ok result) :
    ∃ s, summarise text variant allowed runner = .ok s ∧ s.wouldRefuse = 0 ∧ s.unreadable = 0 ∧
      ∀ c ∈ s.chains, c.required = true →
        c.state = .listed ∧ c.policyPresent = c.policyTotal := by
  obtain ⟨l, hl, hps, hforward⟩ := checkAll_ok h
  choose table htable hfwd using hforward
  have ht : ∀ f, tableOrStatus f runner = .ok (.ok (table f)) :=
    fun f => listTable_ok_iff.mp (htable f)
  refine ⟨_, summarise_eq hl ht, ?_⟩
  -- Every chain was checked against the table of its family.
  have hchain : ∀ p ∈ policies l variant, (p.chain ∈ (table p.family).chains ∧
          Accepts p ((table p.family).rules p.chain) allowed) ∨
        (p.chain ∉ (table p.family).chains ∧ p.onlyIfPresent = true) := by
    intro p hp
    obtain ⟨t, r, hlist, hr⟩ := hps p hp
    have heq : t = table p.family := by
      have := htable p.family
      rw [hlist, Except.ok.injEq] at this
      exact this
    exact heq ▸ checkChain_ok_iff.mp ⟨r, hr⟩
  have hforwards : ∀ f ∈ (summaryOf l variant allowed fun f => .ok (table f)).forwards,
      f.refused = false ∧ f.first ≠ .unreadable := by
    intro f hf
    simp only [summaryOf, List.mem_cons, List.not_mem_nil, or_false] at hf
    rcases hf with rfl | rfl
    · exact ⟨summariseForward_ok_iff.mpr (hfwd _), summariseForward_first_ne⟩
    · exact ⟨summariseForward_ok_iff.mpr (hfwd _), summariseForward_first_ne⟩
  have hrow : ∀ c ∈ (summaryOf l variant allowed fun f => .ok (table f)).chains,
      (∀ row ∈ c.rows, row.verdict ≠ .wouldRefuse) ∧ c.refused = false ∧ c.state ≠ .unreadable ∧
        (c.required = true → c.state = .listed ∧ c.policyPresent = c.policyTotal) := by
    intro c hc
    obtain ⟨p, hp, rfl⟩ := List.mem_map.mp hc
    rcases hchain p hp with ⟨hin, hacc⟩ | ⟨hin, hif⟩
    · obtain ⟨hfull, hclean, _⟩ := (accepts_iff_clean (policies_hasDrop hp)).mp hacc
      rw [summariseChain_listed hin]
      exact ⟨hclean, by simp [ChainSummary.refused], by simp, fun _ => ⟨rfl, hfull⟩⟩
    · obtain ⟨hstate, hreq, hrows⟩ := summariseChain_absent allowed hin
      simp [hstate, hreq, hrows, hif, ChainSummary.refused]
  refine ⟨wouldRefuse_eq_zero_iff.mpr ⟨fun c hc => (hrow c hc).1, fun c hc => (hrow c hc).2.1,
    fun f hf => (hforwards f hf).1⟩, unreadable_eq_zero_iff.mpr
      ⟨fun c hc => (hrow c hc).2.2.1, fun f hf => (hforwards f hf).2⟩, fun c hc => (hrow c hc).2.2.2⟩

theorem checkAll_ok_of_summarise {s : Summary}
    (h : summarise text variant allowed runner = .ok s) (hrefuse : s.wouldRefuse = 0)
    (hread : s.unreadable = 0)
    (hfull : ∀ c ∈ s.chains, c.state = .listed → c.policyPresent = c.policyTotal)
    (hforb : NoForbidden text variant runner) :
    ∃ result, checkAll ⟨path, .ok text, variant, allowed⟩ runner = .ok result := by
  obtain ⟨l, tables, hl, ht, rfl⟩ := summarise_ok h
  obtain ⟨hrows, habsent, hforwards⟩ := wouldRefuse_eq_zero_iff.mp hrefuse
  have hchains := (unreadable_eq_zero_iff.mp hread).1
  -- A family with a status is unreadable in every chain of its own.
  have htab : ∀ f, ∃ t, tables f = .ok t := by
    intro f
    obtain ⟨p, hp, rfl⟩ := exists_policy l variant f
    cases htf : tables p.family with
    | ok t => exact ⟨t, rfl⟩
    | error status =>
      refine absurd ?_ (hchains _ (List.mem_map.mpr ⟨p, hp, rfl⟩))
      simp [htf, summariseChain]
  have hliterals : literalsOf ⟨path, .ok text, variant, allowed⟩ = .ok l := hl
  refine checkAll_of_checks hliterals ?_ ?_
  · intro p hp
    obtain ⟨t, htt⟩ := htab p.family
    have hlist : listTable p.family runner = .ok t :=
      listTable_ok_iff.mpr (by rw [ht, htt])
    have hmem : summariseChain p (tables p.family) allowed ∈
        (summaryOf l variant allowed tables).chains := List.mem_map.mpr ⟨p, hp, rfl⟩
    have hchain : ∃ r, checkChain p t variant allowed = .ok r := by
      rw [checkChain_ok_iff]
      by_cases hin : p.chain ∈ t.chains
      · refine Or.inl ⟨hin, (accepts_iff_clean (policies_hasDrop hp)).mpr ?_⟩
        have h1 := hfull _ hmem
        have h2 := hrows _ hmem
        simp only [htt, summariseChain_listed hin] at h1 h2
        exact ⟨h1 trivial, h2, hforb l hl p hp t hlist⟩
      · obtain ⟨hstate, hreq, _⟩ := summariseChain_absent allowed hin
        have h1 := habsent _ hmem
        simp only [htt, ChainSummary.refused, hstate, hreq] at h1
        exact Or.inr ⟨hin, by simpa using h1⟩
    obtain ⟨r, hr⟩ := hchain
    exact ⟨t, r, hlist, hr⟩
  · intro f t hlist
    have htt : tables f = .ok t := by
      have := listTable_ok_iff.mp hlist
      rw [ht f, Except.ok.injEq] at this
      exact this
    have hmem : summariseForward f (tables f) ∈ (summaryOf l variant allowed tables).forwards := by
      cases f <;> simp [summaryOf]
    have := hforwards _ hmem
    rw [htt] at this
    exact summariseForward_ok_iff.mp this

theorem policies_key_inj {l : Literals} {p q : ChainPolicy} (hp : p ∈ policies l variant)
    (hq : q ∈ policies l variant) (hf : p.family = q.family) (hc : p.chain = q.chain) :
    p = q := by
  have hne : dockerUserChain ≠ inputChain := by decide
  simp only [policies, List.mem_cons, List.not_mem_nil, or_false] at hp hq
  rcases hp with rfl | rfl | rfl | rfl <;> rcases hq with rfl | rfl | rfl | rfl <;>
    first
      | rfl
      | exact absurd hc hne
      | exact absurd hc hne.symm
      | cases hf

structure ReportsBypass (c : ChainSummary) (position : Nat) : Prop where
  hasRow : ∃ row ∈ c.rows, row.position = position
  refused : ∀ row ∈ c.rows, row.position = position → row.verdict = .wouldRefuse
  earlier : ∀ row ∈ c.rows, row.position < position → row.verdict ≠ .wouldRefuse

theorem summarise_of_checkAll_bypass {family : Family} {chain target : Str}
    {position others : Nat}
    (h : checkAll ⟨path, .ok text, variant, allowed⟩ runner =
      .error (.ruleBypass family chain position target others)) {s : Summary}
    (hs : summarise text variant allowed runner = .ok s) :
    (∃ c ∈ s.chains, c.family = family ∧ c.chain = chain) ∧
      ∀ c ∈ s.chains, c.family = family → c.chain = chain → ReportsBypass c position := by
  obtain ⟨l, hl, p, hp, t, hlist, hin, hcheck⟩ := checkAll_bypass h
  obtain ⟨rfl, rfl, hfull, rule, index, rfl, hbyp⟩ := checkObserved_bypass hcheck
  obtain ⟨l', tables, hl', ht, rfl⟩ := summarise_ok hs
  have hll : l' = l := by
    have : readLiterals text = .ok l := hl
    rw [hl', Except.ok.injEq] at this
    exact this
  subst hll
  have htt : tables p.family = .ok t := by
    have := listTable_ok_iff.mp hlist
    rw [ht, Except.ok.injEq] at this
    exact this
  have hlast := lastDrop_nonneg (policies_hasDrop hp) hfull
  obtain ⟨hget, hlt, hb, hearlier⟩ := firstBypass_some hlast hbyp
  have hnot : index ∉ matchOwned p (t.rules p.chain) := by
    simp only [bypasses, Bool.and_eq_true, decide_eq_true_eq] at hb
    exact hb.1
  refine ⟨⟨_, List.mem_map.mpr ⟨p, hp, rfl⟩, by simp, by simp⟩, ?_⟩
  intro c hc hcf hcc
  obtain ⟨q, hq, rfl⟩ := List.mem_map.mp hc
  have hqp : q = p := policies_key_inj hq hp (by simpa using hcf) (by simpa using hcc)
  subst hqp
  rw [htt, summariseChain_listed hin]
  refine ⟨⟨_, mem_foreignRows.mpr ⟨rule, index, hget, hnot, rfl⟩, rfl⟩, ?_, ?_⟩
  · intro row hrow hpos
    obtain ⟨rule', index', hget', _, rfl⟩ := mem_foreignRows.mp hrow
    have hidx : index' = index := by simpa using hpos
    subst hidx
    rw [hget, Option.some.injEq] at hget'
    subst hget'
    exact (verdict_wouldRefuse_iff hlast).mpr ⟨by omega, hb⟩
  · intro row hrow hpos
    obtain ⟨rule', index', hget', _, rfl⟩ := mem_foreignRows.mp hrow
    rw [ne_eq, verdict_wouldRefuse_iff hlast, hearlier index' rule' (by simpa using hpos) hget']
    simp

theorem summarise_isOk {l : Literals} (hl : readLiterals text = .ok l)
    (hnames : ∀ f, NamesChains (runner f)) :
    ∃ s, summarise text variant allowed runner = .ok s := by
  choose tables ht using fun f => tableOrStatus_of_names (hnames f)
  exact ⟨_, summarise_eq hl ht⟩

end Agreement

end SharedInfra.Firewall
