import SharedInfra.Firewall.ChainSummary

/-!
# What a passing read-back says

The functions of the read-back are each given one specification here: when
`checkObserved` accepts a chain (`accepts_iff`), where it stops with a bypass
(`checkObserved_bypass`), and what a whole run of `checkAll` has checked
(`checkAll_ok`, `checkAll_of_checks`, `checkAll_bypass`).  Nothing after this
module unfolds the checks.
-/

namespace SharedInfra.Firewall

open Python Sequences

section Chain

variable {p : ChainPolicy} {observed : List Rule} {variant : Variant} {allowed : List Str}
variable {matched : List Nat}

theorem matchOwned_length_le : (matchOwned p observed).length ≤ p.owned.length := by
  simpa [matchOwned, ChainPolicy.ownedRules] using
    length_greedyPositions_le p.ownedRules 0 observed

theorem matchOwned_full_iff :
    (matchOwned p observed).length = p.owned.length ↔ p.ownedRules.Sublist observed := by
  simpa [matchOwned, ChainPolicy.ownedRules] using
    length_greedyPositions_iff p.ownedRules 0 observed

theorem matchOwned_get {i place : Nat} (h : (matchOwned p observed)[i]? = some place) :
    ∃ o, p.owned[i]? = some o ∧ observed[place]? = some o.rule := by
  obtain ⟨rule, hw, hx⟩ := getElem_greedyPositions h
  rw [ChainPolicy.ownedRules, List.getElem?_map] at hw
  obtain ⟨o, ho, rfl⟩ := Option.map_eq_some_iff.mp hw
  exact ⟨o, ho, by simpa using hx⟩

theorem maxPlace_bounds (places : List Nat) (start : Int) :
    start ≤ maxPlace start places ∧ (∀ q ∈ places, (q : Int) ≤ maxPlace start places) ∧
      (maxPlace start places = start ∨ ∃ q ∈ places, maxPlace start places = q) := by
  induction places generalizing start with
  | nil => simp [maxPlace]
  | cons q qs ih =>
    obtain ⟨hge, hall, hcase⟩ := ih (max start q)
    have hcons : maxPlace start (q :: qs) = maxPlace (max start q) qs := rfl
    rw [hcons]
    refine ⟨le_trans (le_max_left _ _) hge, ?_, ?_⟩
    · intro r hr
      rcases List.mem_cons.mp hr with rfl | hr
      · exact le_trans (le_max_right _ _) hge
      · exact hall r hr
    · rcases hcase with hstart | ⟨r, hr, heq⟩
      · rcases max_choice start (q : Int) with hm | hm
        · exact Or.inl (by rw [hstart, hm])
        · exact Or.inr ⟨q, by simp, by rw [hstart, hm]⟩
      · exact Or.inr ⟨r, List.mem_cons_of_mem _ hr, heq⟩

theorem mem_dropPlaces {place : Nat} :
    place ∈ dropPlaces p matched ↔
      ∃ (i : Nat) (o : Owned), p.owned[i]? = some o ∧ o.rule.target = dropTarget ∧
        matched[i]? = some place := by
  simp only [dropPlaces, List.mem_map, List.mem_filter, decide_eq_true_eq, Prod.exists]
  constructor
  · rintro ⟨o, q, ⟨hmem, ht⟩, rfl⟩
    obtain ⟨i, hi⟩ := List.mem_iff_getElem?.mp hmem
    obtain ⟨ho, hq⟩ := List.getElem?_zip_eq_some.mp hi
    exact ⟨i, o, ho, ht, hq⟩
  · rintro ⟨i, o, ho, ht, hq⟩
    refine ⟨o, place, ⟨List.mem_iff_getElem?.mpr ⟨i, ?_⟩, ht⟩, rfl⟩
    exact List.getElem?_zip_eq_some.mpr ⟨ho, hq⟩

theorem le_lastDrop {i place : Nat} {o : Owned}
    (ho : p.owned[i]? = some o) (ht : o.rule.target = dropTarget)
    (hm : matched[i]? = some place) : (place : Int) ≤ lastDrop p matched :=
  (maxPlace_bounds (dropPlaces p matched) (-1)).2.1 place
    (mem_dropPlaces.mpr ⟨i, o, ho, ht, hm⟩)

theorem lastDrop_mem (h : 0 ≤ lastDrop p matched) :
    ∃ place ∈ matched, lastDrop p matched = place := by
  rcases (maxPlace_bounds (dropPlaces p matched) (-1)).2.2 with hneg | ⟨q, hq, heq⟩
  · rw [lastDrop, hneg] at h
    omega
  · obtain ⟨i, o, _, _, hm⟩ := mem_dropPlaces.mp hq
    exact ⟨q, List.mem_of_getElem? hm, heq⟩

/-- What `checkObserved` asks of a chain. -/
structure Accepts (p : ChainPolicy) (observed : List Rule) (allowed : List Str) : Prop where
  inOrder : p.ownedRules.Sublist observed
  noForbidden : ∀ o ∈ p.forbidden, o.rule ∉ observed
  noBypass : firstBypass observed (lastDrop p (matchOwned p observed))
    (matchOwned p observed) allowed = none

/-- A chain is accepted exactly when the policy's rules stand in order in it, it carries
no forbidden rule and no rule above the last drop can let a packet past. -/
theorem accepts_iff :
    (∃ r, checkObserved p observed variant allowed = .ok r) ↔ Accepts p observed allowed := by
  have hle : (matchOwned p observed).length ≤ p.owned.length := matchOwned_length_le
  constructor
  · rintro ⟨r, h⟩
    simp only [checkObserved] at h
    split at h
    · split at h <;> cases h
    · rename_i hnone
      split at h
      · cases h
      · rename_i hforb
        split at h
        · cases h
        · rename_i hbyp
          refine ⟨matchOwned_full_iff.mp ?_, ?_, hbyp⟩
          · have := List.getElem?_eq_none_iff.mp hnone
            omega
          · intro o ho
            simpa using List.find?_eq_none.mp hforb o ho
  · intro ⟨hsub, hforb, hbyp⟩
    have hfull := matchOwned_full_iff.mpr hsub
    have hnone : p.owned[(matchOwned p observed).length]? = none :=
      List.getElem?_eq_none_iff.mpr (by omega)
    have hfind : (p.forbidden.find? fun o => decide (o.rule ∈ observed)) = none :=
      List.find?_eq_none.mpr fun o ho => by simpa using hforb o ho
    refine ⟨⟨p.owned.length, observed.length - p.owned.length⟩, ?_⟩
    simp only [checkObserved, hnone, hfind, hbyp]
    rfl

/-- Where the check stops with a bypass: at the first rule above the last drop that could
let a packet past it, with the whole policy found in order. -/
theorem checkObserved_bypass {family : Family} {chain target : Str} {position others : Nat}
    (h : checkObserved p observed variant allowed =
      .error (.ruleBypass family chain position target others)) :
    family = p.family ∧ chain = p.chain ∧ (matchOwned p observed).length = p.owned.length ∧
      ∃ rule index, position = index + 1 ∧
        firstBypass observed (lastDrop p (matchOwned p observed)) (matchOwned p observed)
          allowed = some (rule, index) := by
  have hle : (matchOwned p observed).length ≤ p.owned.length := matchOwned_length_le
  simp only [checkObserved] at h
  split at h
  · split at h <;> cases h
  · rename_i hnone
    have hlen := List.getElem?_eq_none_iff.mp hnone
    split at h
    · cases h
    · split at h
      · rename_i rule index hbyp
        cases h
        exact ⟨rfl, rfl, by omega, rule, index, rfl, hbyp⟩
      · cases h

theorem firstBypass_some {last : Int} {rule : Rule} {index : Nat}
    (hlast : 0 ≤ last) (h : firstBypass observed last matched allowed = some (rule, index)) :
    observed[index]? = some rule ∧ (index : Int) < last ∧
      bypasses rule index matched allowed = true ∧
      ∀ (j : Nat) r, j < index → observed[j]? = some r → bypasses r j matched allowed = false := by
  simp only [firstBypass, sliceTo, hlast, if_true] at h
  obtain ⟨hb, before, after, hsplit, hbefore⟩ := List.find?_eq_some_iff_append.mp h
  have hmem : (rule, index) ∈ (observed.take last.toNat).zipIdx := by
    rw [hsplit]
    simp
  have hget := List.mem_zipIdx_iff_getElem?.mp hmem
  rw [List.getElem?_take] at hget
  split_ifs at hget with hlt
  refine ⟨hget, by omega, hb, ?_⟩
  intro j r hj hr
  have hjmem : (r, j) ∈ (observed.take last.toNat).zipIdx := by
    apply List.mem_zipIdx_iff_getElem?.mpr
    rw [List.getElem?_take, if_pos (by omega)]
    exact hr
  rw [hsplit] at hjmem
  rcases List.mem_append.mp hjmem with hjb | hjb
  · simpa using hbefore (r, j) hjb
  · -- The pairs are in order of their places, so none after the bypass has a smaller one.
    have hpair : ((observed.take last.toNat).zipIdx.map Prod.snd).Pairwise (· < ·) := by
      rw [List.zipIdx_map_snd]
      exact List.pairwise_lt_range'
    rw [hsplit, List.map_append, List.map_cons] at hpair
    have hrest := (List.pairwise_append.mp hpair).2.1
    rcases List.mem_cons.mp hjb with heq | hja
    · cases heq
      omega
    · have := (List.pairwise_cons.mp hrest).1 j (List.mem_map.mpr ⟨(r, j), hja, rfl⟩)
      omega

theorem firstBypass_none {last : Int} (hlast : 0 ≤ last)
    (h : firstBypass observed last matched allowed = none) {index : Nat} {rule : Rule}
    (hi : (index : Int) < last) (hr : observed[index]? = some rule) :
    bypasses rule index matched allowed = false := by
  simp only [firstBypass, sliceTo, hlast, if_true] at h
  have hmem : (rule, index) ∈ (observed.take last.toNat).zipIdx := by
    apply List.mem_zipIdx_iff_getElem?.mpr
    rw [List.getElem?_take, if_pos (by omega)]
    exact hr
  simpa using List.find?_eq_none.mp h (rule, index) hmem

/-- A policy with at least one drop, as every policy of the module has. -/
def HasDrop (p : ChainPolicy) : Prop :=
  ∃ (i : Nat) (o : Owned), p.owned[i]? = some o ∧ o.rule.target = dropTarget

theorem policies_hasDrop {l : Literals} {v : Variant} (hp : p ∈ policies l v) : HasDrop p := by
  simp only [policies, List.mem_cons, List.not_mem_nil, or_false] at hp
  rcases hp with rfl | rfl | rfl | rfl
  · exact ⟨1, spoolForwardDrop l, rfl, rfl⟩
  · exact ⟨1, _, rfl, rfl⟩
  · exact ⟨1, _, rfl, rfl⟩
  · exact ⟨0, spoolForwardDrop l, rfl, rfl⟩

theorem lastDrop_nonneg (hd : HasDrop p)
    (hfull : (matchOwned p observed).length = p.owned.length) :
    0 ≤ lastDrop p (matchOwned p observed) := by
  obtain ⟨i, o, ho, ht⟩ := hd
  have hi : i < (matchOwned p observed).length := by
    rw [hfull]
    exact (List.getElem?_eq_some_iff.mp ho).1
  have hm := List.getElem?_eq_getElem hi
  have := le_lastDrop ho ht hm
  omega

theorem checkChain_ok_iff {p : ChainPolicy} {t : Table} :
    (∃ r, checkChain p t variant allowed = .ok r) ↔
      (p.chain ∈ t.chains ∧ Accepts p (t.rules p.chain) allowed) ∨
        (p.chain ∉ t.chains ∧ p.onlyIfPresent = true) := by
  simp only [checkChain]
  split_ifs with hin hif
  · rw [accepts_iff]
    simp [hin]
  · simp [hin, hif, pure, Except.pure]
  · simp [hin, hif]

end Chain

section Cache

variable {τ : Type} {list : Family → Except CheckError τ}
variable {family : Family} {tables : List (Family × τ)} {t : τ}

/-- A cache of tables holds only what listing gives. -/
def Consistent (list : Family → Except CheckError τ) (tables : List (Family × τ)) : Prop :=
  ∀ ft ∈ tables, list ft.1 = .ok ft.2

theorem lookup_mem
    (h : tables.lookup family = some t) : (family, t) ∈ tables := by
  induction tables with
  | nil => simp at h
  | cons ft rest ih =>
    obtain ⟨f, u⟩ := ft
    rw [List.lookup_cons] at h
    by_cases hf : family = f
    · subst hf
      simp only [beq_self_eq_true, Option.some.injEq] at h
      simp [h]
    · simp only [beq_eq_false_iff_ne.mpr hf] at h
      exact List.mem_cons_of_mem _ (ih h)

theorem cached_ok {tables tables' : List (Family × τ)}
    (hc : Consistent list tables) (h : cached list tables family = .ok (tables', t)) :
    list family = .ok t ∧ Consistent list tables' ∧ tables ⊆ tables' ∧
      (family, t) ∈ tables' := by
  simp only [cached] at h
  split at h
  · rename_i u hu
    cases h
    exact ⟨hc _ (lookup_mem hu), hc, fun _ hx => hx, lookup_mem hu⟩
  · cases hl : list family with
    | error e => simp [hl, Except.map] at h
    | ok u =>
      simp only [hl, Except.map, Except.ok.injEq, Prod.mk.injEq] at h
      obtain ⟨rfl, rfl⟩ := h
      refine ⟨rfl, ?_, List.subset_append_left _ _, by simp⟩
      intro ft hft
      rcases List.mem_append.mp hft with hft | hft
      · exact hc ft hft
      · rw [List.mem_singleton.mp hft]
        exact hl

theorem cached_of_ok
    (hc : Consistent list tables) (h : list family = .ok t) :
    ∃ tables', cached list tables family = .ok (tables', t) := by
  simp only [cached]
  split
  · rename_i u hu
    have := hc _ (lookup_mem hu)
    rw [h, Except.ok.injEq] at this
    exact ⟨tables, by rw [this]⟩
  · exact ⟨tables ++ [(family, t)], by rw [h]; rfl⟩

theorem cached_error {e : CheckError}
    (h : cached list tables family = .error e) : list family = .error e := by
  simp only [cached] at h
  split at h
  · cases h
  · cases hl : list family with
    | error e' =>
      simp only [hl, Except.map, Except.error.injEq] at h
      rw [h]
    | ok u => simp [hl, Except.map] at h

end Cache

section Run

variable {params : Params} {runner : Family → Listing}
variable {progress : Progress} {e : CheckError} {family : Family} {t : Table}
  {ps : List ChainPolicy} {chain target : Str} {position others : Nat}

theorem checkPolicy_ok {progress progress' : Progress} {p : ChainPolicy}
    (hc : Consistent (listTable · runner) progress.tables)
    (h : checkPolicy params runner progress p = .ok progress') :
    Consistent (listTable · runner) progress'.tables ∧ progress.tables ⊆ progress'.tables ∧
      ∃ t r, (p.family, t) ∈ progress'.tables ∧ listTable p.family runner = .ok t ∧
        checkChain p t params.variant params.allowed = .ok r := by
  simp only [checkPolicy, bind, Except.bind] at h
  split at h
  · cases h
  · rename_i found hfound
    obtain ⟨tables', t⟩ := found
    obtain ⟨hl, hc', hsub, hmem⟩ := cached_ok hc hfound
    dsimp only at h
    split at h
    · cases h
    · rename_i r hr
      cases h
      exact ⟨hc', hsub, t, r, hmem, hl, hr⟩

theorem checkPolicy_of_ok {p : ChainPolicy} {r : Result}
    (hc : Consistent (listTable · runner) progress.tables)
    (hl : listTable p.family runner = .ok t)
    (hr : checkChain p t params.variant params.allowed = .ok r) :
    ∃ progress', checkPolicy params runner progress p = .ok progress' := by
  obtain ⟨tables', htables⟩ := cached_of_ok hc hl
  simp only [checkPolicy, bind, Except.bind, htables, hr]
  exact ⟨_, rfl⟩

theorem checkPolicy_error {p : ChainPolicy}
    (hc : Consistent (listTable · runner) progress.tables)
    (h : checkPolicy params runner progress p = .error e) :
    listTable p.family runner = .error e ∨ ∃ t, listTable p.family runner = .ok t ∧
        checkChain p t params.variant params.allowed = .error e := by
  simp only [checkPolicy, bind, Except.bind] at h
  split at h
  · rename_i e' he
    cases h
    exact Or.inl (cached_error he)
  · rename_i found hfound
    obtain ⟨tables', t⟩ := found
    obtain ⟨hl, _, _, _⟩ := cached_ok hc hfound
    dsimp only at h
    split at h
    · rename_i e' he
      cases h
      exact Or.inr ⟨t, hl, he⟩
    · cases h

theorem foldlM_checkPolicy_ok {progress progress' : Progress}
    (hc : Consistent (listTable · runner) progress.tables)
    (h : ps.foldlM (checkPolicy params runner) progress = .ok progress') :
    Consistent (listTable · runner) progress'.tables ∧ progress.tables ⊆ progress'.tables ∧
      ∀ p ∈ ps, ∃ t r, (p.family, t) ∈ progress'.tables ∧ listTable p.family runner = .ok t ∧
        checkChain p t params.variant params.allowed = .ok r := by
  induction ps generalizing progress with
  | nil =>
    cases h
    exact ⟨hc, fun _ hx => hx, by simp⟩
  | cons p ps ih =>
    simp only [List.foldlM_cons, bind, Except.bind] at h
    split at h
    · cases h
    · rename_i mid hmid
      obtain ⟨hc', hsub, hp⟩ := checkPolicy_ok hc hmid
      obtain ⟨hc'', hsub', hps⟩ := ih hc' h
      refine ⟨hc'', fun x hx => hsub' (hsub hx), ?_⟩
      intro q hq
      rcases List.mem_cons.mp hq with rfl | hq
      · obtain ⟨t, r, hmem, hl, hr⟩ := hp
        exact ⟨t, r, hsub' hmem, hl, hr⟩
      · exact hps q hq

theorem foldlM_checkPolicy_of_ok
    (hc : Consistent (listTable · runner) progress.tables)
    (h : ∀ p ∈ ps, ∃ t r, listTable p.family runner = .ok t ∧
      checkChain p t params.variant params.allowed = .ok r) :
    ∃ progress', ps.foldlM (checkPolicy params runner) progress = .ok progress' := by
  induction ps generalizing progress with
  | nil => exact ⟨progress, rfl⟩
  | cons p ps ih =>
    obtain ⟨t, r, hl, hr⟩ := h p (by simp)
    obtain ⟨mid, hmid⟩ := checkPolicy_of_ok hc hl hr
    obtain ⟨progress', hp'⟩ :=
      ih (checkPolicy_ok hc hmid).1 fun q hq => h q (List.mem_cons_of_mem _ hq)
    refine ⟨progress', ?_⟩
    simp only [List.foldlM_cons, bind, Except.bind, hmid]
    exact hp'

theorem foldlM_checkPolicy_error (hc : Consistent (listTable · runner) progress.tables)
    (h : ps.foldlM (checkPolicy params runner) progress = .error e) :
    ∃ p ∈ ps, listTable p.family runner = .error e ∨ ∃ t, listTable p.family runner = .ok t ∧
        checkChain p t params.variant params.allowed = .error e := by
  induction ps generalizing progress with
  | nil => cases h
  | cons p ps ih =>
    simp only [List.foldlM_cons, bind, Except.bind] at h
    split at h
    · rename_i e' he
      cases h
      exact ⟨p, by simp, checkPolicy_error hc he⟩
    · rename_i mid hmid
      obtain ⟨q, hq, hcase⟩ := ih (checkPolicy_ok hc hmid).1 h
      exact ⟨q, List.mem_cons_of_mem _ hq, hcase⟩

/-- `FORWARD` is right in a table where `DOCKER-USER` exists. -/
def ForwardOk (t : Table) : Prop :=
  dockerUserChain ∈ t.chains → forwardFirst t = .jumpToDockerUser

theorem checkForward_ok_iff :
    checkForward family t = .ok () ↔ forwardFirst t = .jumpToDockerUser := by
  simp only [checkForward]
  split_ifs with h
  · simp [h, pure, Except.pure]
  · simp [h]

theorem checkForwards_cons {rest : List (Family × Table)} :
    checkForwards ((family, t) :: rest) =
      if dockerUserChain ∈ t.chains then
        (checkForward family t).bind fun _ => checkForwards rest
      else checkForwards rest := by
  simp only [checkForwards]
  split_ifs <;> rfl

theorem checkForwards_ok_iff {tables : List (Family × Table)} :
    checkForwards tables = .ok () ↔ ∀ ft ∈ tables, ForwardOk ft.2 := by
  induction tables with
  | nil => simp [checkForwards, pure, Except.pure]
  | cons ft rest ih =>
    obtain ⟨family, t⟩ := ft
    rw [checkForwards_cons, List.forall_mem_cons, ← ih]
    split_ifs with hd
    · cases hf : checkForward family t with
      | error e =>
        have : forwardFirst t ≠ .jumpToDockerUser := fun h => by
          rw [checkForward_ok_iff.mpr h] at hf
          cases hf
        simp [Except.bind, ForwardOk, hd, this]
      | ok u =>
        have := checkForward_ok_iff.mp hf
        simp [Except.bind, ForwardOk, this]
    · simp [ForwardOk, hd]

theorem checkForwards_error {tables : List (Family × Table)}
    (h : checkForwards tables = .error e) : ∃ family others, e = .forwardBypass family others := by
  induction tables with
  | nil => cases h
  | cons ft rest ih =>
    obtain ⟨family, t⟩ := ft
    rw [checkForwards_cons] at h
    split_ifs at h with hd
    · cases hf : checkForward family t with
      | error e' =>
        simp only [hf, Except.bind, Except.error.injEq] at h
        subst h
        simp only [checkForward] at hf
        split_ifs at hf
        · cases hf
        · cases hf
          exact ⟨_, _, rfl⟩
      | ok u =>
        rw [hf] at h
        exact ih h
    · exact ih h

def literalsOf (params : Params) : Except CheckError Literals :=
  match params.text with
  | .ok text => readLiterals text
  | .error reason => .error (.reconcilerUnreadable params.reconcilerPath reason)

theorem checkAll_eq :
    checkAll params runner = (literalsOf params).bind fun literals =>
      ((policies literals params.variant).foldlM (checkPolicy params runner) {}).bind
        fun progress => (checkForwards progress.tables).bind
          fun _ => .ok ⟨progress.owned, progress.foreign⟩ := by
  simp only [checkAll, literalsOf]
  cases params.text <;> rfl

theorem exists_policy (l : Literals) (v : Variant) (family : Family) :
    ∃ p ∈ policies l v, p.family = family := by
  cases family <;> simp [policies]

theorem checkAll_ok {result : Result} (h : checkAll params runner = .ok result) :
    ∃ l, literalsOf params = .ok l ∧
      (∀ p ∈ policies l params.variant, ∃ t r, listTable p.family runner = .ok t ∧
        checkChain p t params.variant params.allowed = .ok r) ∧
      ∀ family, ∃ t, listTable family runner = .ok t ∧ ForwardOk t := by
  rw [checkAll_eq] at h
  cases hl : literalsOf params with
  | error e => simp [hl, Except.bind] at h
  | ok l =>
    simp only [hl, Except.bind] at h
    split at h
    · cases h
    · rename_i progress hp
      obtain ⟨hc, _, hps⟩ := foldlM_checkPolicy_ok (by simp [Consistent]) hp
      split at h
      · cases h
      · rename_i _ hf
        have hforward := checkForwards_ok_iff.mp hf
        refine ⟨l, rfl, ?_, ?_⟩
        · intro p hmem
          obtain ⟨t, r, _, ht, hr⟩ := hps p hmem
          exact ⟨t, r, ht, hr⟩
        · intro family
          obtain ⟨p, hmem, rfl⟩ := exists_policy l params.variant family
          obtain ⟨t, r, hin, ht, _⟩ := hps p hmem
          exact ⟨t, ht, hforward _ hin⟩

theorem checkAll_of_checks {l : Literals} (hl : literalsOf params = .ok l)
    (hps : ∀ p ∈ policies l params.variant, ∃ t r, listTable p.family runner = .ok t ∧
      checkChain p t params.variant params.allowed = .ok r)
    (hforward : ∀ family t, listTable family runner = .ok t → ForwardOk t) :
    ∃ result, checkAll params runner = .ok result := by
  rw [checkAll_eq, hl]
  have hempty : Consistent (listTable · runner) ({} : Progress).tables := by simp [Consistent]
  obtain ⟨progress, hp⟩ := foldlM_checkPolicy_of_ok hempty hps
  have hc := (foldlM_checkPolicy_ok hempty hp).1
  have hf : checkForwards progress.tables = .ok () :=
    checkForwards_ok_iff.mpr fun ft hft => hforward ft.1 ft.2 (hc ft hft)
  exact ⟨⟨progress.owned, progress.foreign⟩, by simp [Except.bind, hp, hf]⟩

theorem readLiterals_error {text : Str} (h : readLiterals text = .error e) :
    (∃ name found, e = .literalMissing name found) ∨
      ∃ name value, e = .literalInvalid name value := by
  simp only [readLiterals] at h
  split at h
  · cases h
    exact Or.inl ⟨_, _, rfl⟩
  · simp only [checkedLiterals] at h
    split at h
    · cases h
      exact Or.inr ⟨_, _, rfl⟩
    · cases h

theorem literalsOf_ne_bypass :
    literalsOf params ≠ .error (.ruleBypass family chain position target others) := by
  intro h
  simp only [literalsOf] at h
  split at h
  · rcases readLiterals_error h with ⟨_, _, he⟩ | ⟨_, _, he⟩ <;> cases he
  · cases h

theorem listTable_ne_bypass {f family : Family} :
    listTable f runner ≠ .error (.ruleBypass family chain position target others) := by
  intro h
  simp only [listTable] at h
  split_ifs at h
  · cases h
  · split at h <;> cases h

theorem checkAll_bypass
    (h : checkAll params runner = .error (.ruleBypass family chain position target others)) :
    ∃ l, literalsOf params = .ok l ∧ ∃ p ∈ policies l params.variant, ∃ t,
      listTable p.family runner = .ok t ∧ p.chain ∈ t.chains ∧
      checkObserved p (t.rules p.chain) params.variant params.allowed =
        .error (.ruleBypass family chain position target others) := by
  rw [checkAll_eq] at h
  cases hl : literalsOf params with
  | error e =>
    simp only [hl, Except.bind, Except.error.injEq] at h
    exact absurd (h ▸ hl) literalsOf_ne_bypass
  | ok l =>
    simp only [hl, Except.bind] at h
    refine ⟨l, rfl, ?_⟩
    split at h
    · rename_i e he
      cases h
      obtain ⟨p, hp, hcase⟩ := foldlM_checkPolicy_error (by simp [Consistent]) he
      rcases hcase with hlist | ⟨t, ht, hcheck⟩
      · exact absurd hlist listTable_ne_bypass
      · refine ⟨p, hp, t, ht, ?_⟩
        simp only [checkChain] at hcheck
        split_ifs at hcheck with hin hif
        · exact ⟨hin, hcheck⟩
        · cases hcheck
        · cases hcheck
    · split at h
      · rename_i e he
        cases h
        obtain ⟨_, _, hfb⟩ := checkForwards_error he
        cases hfb
      · cases h

end Run

end SharedInfra.Firewall
