import SharedInfra.HetznerDeletes.PreviewPlan

/-!
# What a clean exit of the preview gate says

A URN is read here as Pulumi reads it, from the left: the stack, the project and
the type end at the first `::` that follows them, and the rest is the name, which
may hold `::` itself (`NamesType`).  The gate splits from the right instead.
-/

namespace SharedInfra.HetznerDeletes

open Python Sequences

/-- A component of a URN that ends at the `::` right after it. -/
def Component (part : Str) : Prop := ¬ colons <:+: part ++ [':']

/-- The own type of a chain of types: what stands right of the last `$`. -/
def OwnType (chain typeToken : Str) : Prop :=
  '$' ∉ typeToken ∧ (chain = typeToken ∨ ∃ parents, chain = parents ++ '$' :: typeToken)

def NamesType (urn typeToken : Str) : Prop :=
  ∃ stack project chain name,
    urn = "urn:pulumi:".toList ++ stack ++ colons ++ project ++ colons ++ chain ++
      colons ++ name ∧
    Component stack ∧ Component project ∧ Component chain ∧ OwnType chain typeToken

def NamesProtected (urn : Str) : Prop := ∃ typeToken ∈ protectedTypes, NamesType urn typeToken

def IsStep (step : Json) (op urn : Str) : Prop :=
  ∃ members, step = .object members ∧ Json.member members "op" = some (.string op) ∧
    Json.member members "urn" = some (.string urn)

def IsPlan (document : Json) (steps : List Json) : Prop :=
  ∃ members, document = .object members ∧ Json.member members "steps" = some (.array steps) ∧
    ∀ step ∈ steps, ∃ op urn, IsStep step op urn

/-- Some step destroys something whose URN has the property. -/
def Destroys (steps : List Json) (named : Str → Prop) : Prop :=
  ∃ step ∈ steps, ∃ op urn, IsStep step op urn ∧ isDestructive op = true ∧ named urn

def IsClean (document : Json) : Prop :=
  ∃ steps, IsPlan document steps ∧ ¬ Destroys steps NamesProtected

/-- What is asked of a run over a document. -/
def Guards (document : Json) (ended : Ended) : Prop :=
  (ended.status = some 0 → IsClean document) ∧ (¬ IsClean document → ended.status = some 1)

/-- A name that a split from the right takes for the name. -/
def PlainName (name : Str) : Prop := ¬ colons <:+: ':' :: name

/-- A URN with too few separators, or one that ends in a protected type and a plain name. -/
def StandsOut (urn : Str) : Prop :=
  (¬ ∃ a b c, urn = a ++ colons ++ b ++ colons ++ c) ∨
    ∃ before typeToken name, typeToken ∈ protectedTypes ∧ PlainName name ∧
      (urn = before ++ colons ++ typeToken ++ colons ++ name ∨
        urn = before ++ '$' :: typeToken ++ colons ++ name)

section Split

variable {urn chain typeToken name : Str}

theorem protectedType_plain (h : typeToken ∈ protectedTypes) :
    '$' ∉ typeToken ∧ ¬ colons <:+: ':' :: typeToken := by
  have hall : ∀ t ∈ protectedTypes, '$' ∉ t ∧ ¬ colons <:+: ':' :: t := by decide
  exact hall typeToken h

theorem cut_plainName {left : Str} (hname : PlainName name) :
    cutLast colons (left ++ colons ++ name) = some (left, name) :=
  cutLast_eq_some_iff.mpr ⟨rfl, hname⟩

theorem splitUrn_eq_ok_iff :
    splitUrn urn = .ok (typeToken, name) ↔
      ∃ left before chain, cutLast colons urn = some (left, name) ∧
        cutLast colons left = some (before, chain) ∧
        (rsplit ['$'] 1 chain).getLast?.getD [] = typeToken := by
  constructor
  · intro h
    rw [splitUrn] at h
    split at h
    · rename_i before chain last hsplit
      obtain ⟨left, hcut, hcut'⟩ := rsplit_two_eq_iff.mp hsplit
      cases h
      exact ⟨left, before, chain, hcut, hcut', rfl⟩
    · cases h
  · rintro ⟨left, before, chain, hcut, hcut', rfl⟩
    rw [splitUrn, rsplit_two_eq_iff.mpr ⟨left, hcut, hcut'⟩]

theorem splitUrn_eq_error_iff :
    (∃ e, splitUrn urn = .error e) ↔
      ¬ ∃ a b c, urn = a ++ colons ++ b ++ colons ++ c := by
  rw [← exists_rsplit_two_iff]
  constructor
  · rintro ⟨e, herror⟩ ⟨a, b, c, hsplit⟩
    rw [splitUrn, hsplit] at herror
    cases herror
  · intro hnone
    refine ⟨.notResourceUrn urn, ?_⟩
    rw [splitUrn]
    split
    · rename_i a b c hsplit
      exact absurd ⟨a, b, c, hsplit⟩ hnone
    · rfl

theorem ownType_getLast : OwnType chain ((rsplit ['$'] 1 chain).getLast?.getD []) := by
  obtain ⟨piece, hlast, hmem, hchain⟩ := @getLast_rsplit_one _ _ chain '$'
  rw [hlast]
  exact ⟨hmem, hchain⟩

theorem OwnType.unique {other : Str} (h : OwnType chain typeToken) (h' : OwnType chain other) :
    typeToken = other := by
  obtain ⟨hmem, rfl | ⟨parents, rfl⟩⟩ := h
  · obtain ⟨-, heq | ⟨parents, rfl⟩⟩ := h'
    · exact heq
    · exact absurd (by simp) hmem
  · obtain ⟨hmem', heq | ⟨parents', heq⟩⟩ := h'
    · exact absurd (by simp [← heq]) hmem'
    · obtain ⟨r, -, hr⟩ | ⟨r, -, hr⟩ := List.append_eq_append_iff.mp heq
      · cases r with
        | nil => exact (List.cons.inj hr).2
        | cons c r =>
          refine absurd ?_ hmem
          simp [(List.cons.inj hr).2]
      · cases r with
        | nil => exact (List.cons.inj hr).2.symm
        | cons c r =>
          refine absurd ?_ hmem'
          simp [(List.cons.inj hr).2]

/-- A step whose URN is split into a protected type, or not at all, fails the run. -/
def Caught (urn : Str) : Prop :=
  (∃ e, splitUrn urn = .error e) ∨
    ∃ typeToken name, splitUrn urn = .ok (typeToken, name) ∧ typeToken ∈ protectedTypes

theorem chain_of_dollar {before left : Str} (htype : typeToken ∈ protectedTypes)
    (hcut : cutLast colons (before ++ '$' :: typeToken) = some (left, chain)) :
    ∃ parents, chain = parents ++ '$' :: typeToken := by
  obtain ⟨heq, -⟩ := cutLast_eq_some_iff.mp hcut
  obtain ⟨taken, hleft, htaken⟩ | ⟨parents, -, hchain⟩ := List.append_eq_append_iff.mp heq
  · cases taken with
    | nil => exact ⟨[], htaken.symm⟩
    | cons c taken =>
      obtain ⟨rfl, htype'⟩ := List.cons.inj htaken
      refine absurd ?_ (protectedType_plain htype).2
      have hreverse := congrArg List.reverse hleft
      simp only [List.reverse_append, List.reverse_cons, List.reverse_nil, List.nil_append,
        List.append_assoc, List.cons_append] at hreverse
      cases htaken' : taken.reverse with
      | nil => simp [htaken'] at hreverse
      | cons x rest =>
        cases rest with
        | nil => simp [htaken'] at hreverse
        | cons y rest =>
          simp only [htaken', List.cons_append, List.cons.injEq] at hreverse
          obtain ⟨rfl, rfl, -⟩ := hreverse
          refine ⟨':' :: rest.reverse, chain, ?_⟩
          rw [htype', ← List.reverse_reverse taken, htaken']
          simp
  · exact ⟨parents, hchain⟩

theorem standsOut_of_plainName {before : Str} (htype : typeToken ∈ protectedTypes)
    (hown : OwnType chain typeToken) (hname : PlainName name) :
    StandsOut (before ++ colons ++ chain ++ colons ++ name) := by
  obtain ⟨-, rfl | ⟨parents, rfl⟩⟩ := hown
  · exact .inr ⟨before, chain, name, htype, hname, .inl rfl⟩
  · exact .inr ⟨before ++ colons ++ parents, typeToken, name, htype, hname, .inr (by simp)⟩

theorem standsOut_of_caught (h : Caught urn) : StandsOut urn := by
  refine h.imp splitUrn_eq_error_iff.mp ?_
  rintro ⟨typeToken, name, hsplit, htype⟩
  obtain ⟨left, before, chain, hcut, hcut', rfl⟩ := splitUrn_eq_ok_iff.mp hsplit
  obtain ⟨rfl, hname⟩ := cutLast_eq_some_iff.mp hcut
  obtain ⟨rfl, -⟩ := cutLast_eq_some_iff.mp hcut'
  exact (standsOut_of_plainName htype ownType_getLast hname).resolve_left fun hfew =>
    hfew ⟨before, chain, name, rfl⟩

theorem caught_of_cut {left before name : Str} (hcut : cutLast colons urn = some (left, name))
    (hcut' : cutLast colons left = some (before, chain)) (htype : typeToken ∈ protectedTypes)
    (hown : OwnType chain typeToken) : Caught urn :=
  .inr ⟨typeToken, name,
    splitUrn_eq_ok_iff.mpr ⟨left, before, chain, hcut, hcut', ownType_getLast.unique hown⟩, htype⟩

theorem caught_of_standsOut (h : StandsOut urn) : Caught urn := by
  rcases h with hfew | ⟨before, typeToken, name, htype, hname, rfl | rfl⟩
  · exact .inl (splitUrn_eq_error_iff.mpr hfew)
  · exact caught_of_cut (cut_plainName hname)
      (cutLast_eq_some_iff.mpr ⟨rfl, (protectedType_plain htype).2⟩) htype
      ⟨(protectedType_plain htype).1, .inl rfl⟩
  · cases hcut : cutLast colons (before ++ '$' :: typeToken) with
    | none =>
      left
      refine splitUrn_eq_error_iff.mpr fun htwo => ?_
      obtain ⟨a, b, c, hsplit⟩ := exists_rsplit_two_iff.mpr htwo
      obtain ⟨left, hleft, hcut'⟩ := rsplit_two_eq_iff.mp hsplit
      rw [cut_plainName hname] at hleft
      cases hleft
      rw [hcut] at hcut'
      cases hcut'
    | some sides =>
      obtain ⟨left, chain⟩ := sides
      exact caught_of_cut (cut_plainName hname) hcut htype
        ⟨(protectedType_plain htype).1, .inr (chain_of_dollar htype hcut)⟩

end Split

section Steps

variable {step document : Json} {steps : List Json} {op urn : Str}

theorem IsStep.unique {op' urn' : Str} (h : IsStep step op urn) (h' : IsStep step op' urn') :
    op = op' ∧ urn = urn' := by
  obtain ⟨members, rfl, hop, hurn⟩ := h
  obtain ⟨members', heq, hop', hurn'⟩ := h'
  cases heq
  rw [hop] at hop'
  rw [hurn] at hurn'
  cases hop'
  cases hurn'
  exact ⟨rfl, rfl⟩

theorem IsPlan.unique {steps' : List Json} (h : IsPlan document steps)
    (h' : IsPlan document steps') : steps = steps' := by
  obtain ⟨members, rfl, hsteps, -⟩ := h
  obtain ⟨members', heq, hsteps', -⟩ := h'
  cases heq
  rw [hsteps] at hsteps'
  cases hsteps'
  rfl

theorem checkStep_eq_ok_none_iff :
    checkStep step = .ok none ↔
      ∃ op urn, IsStep step op urn ∧ ¬ (isDestructive op = true ∧ Caught urn) := by
  constructor
  · intro hnone
    unfold checkStep at hnone
    split at hnone
    · split at hnone
      · rename_i members _ _ op urn hop hurn
        refine ⟨op, urn, ⟨members, rfl, hop, hurn⟩, ?_⟩
        rintro ⟨hdestroys, hcaught⟩
        rw [if_pos hdestroys] at hnone
        obtain ⟨e, herror⟩ | ⟨typeToken, name, hsplit, htype⟩ := hcaught
        · rw [herror] at hnone
          cases hnone
        · rw [hsplit] at hnone
          simp [htype] at hnone
      · cases hnone
    · cases hnone
  · rintro ⟨op, urn, ⟨members, rfl, hop, hurn⟩, hspared⟩
    simp only [checkStep, hop, hurn]
    split_ifs with hdestroys
    · cases hsplit : splitUrn urn with
      | error e => exact absurd ⟨hdestroys, .inl ⟨e, hsplit⟩⟩ hspared
      | ok parts =>
        have htype : parts.1 ∉ protectedTypes := fun htype =>
          hspared ⟨hdestroys, .inr ⟨parts.1, parts.2, hsplit, htype⟩⟩
        simp [htype]
    · rfl

theorem findSteps_eq_ok_nil_iff :
    findSteps steps = .ok [] ↔ ∀ step ∈ steps, checkStep step = .ok none := by
  induction steps with
  | nil => simp [findSteps]
  | cons step steps ih =>
    rw [findSteps, List.forall_mem_cons, ← ih]
    cases checkStep step with
    | error e => simp
    | ok found =>
      cases hfound : findSteps steps with
      | error e => simp [Functor.map, Except.map]
      | ok rest => cases found <;> simp [Functor.map, Except.map]

theorem checkPlan_status {members : List (Str × Json)} :
    (checkPlan (.object members)).status = some 0 ↔
      ∃ steps, IsPlan (.object members) steps ∧ ¬ Destroys steps StandsOut := by
  have hfound : (checkPlan (.object members)).status = some 0 ↔
      ∃ steps, Json.member members "steps" = some (.array steps) ∧ findSteps steps = .ok [] := by
    rw [checkPlan, destructiveSteps]
    cases hmember : Json.member members "steps" with
    | none => simp [Ended.status]
    | some value =>
      cases value with
      | array steps =>
        cases hsteps : findSteps steps with
        | error e => simp [Functor.map, Except.map, Ended.status, hsteps]
        | ok found =>
          cases found with
          | nil => simp [Functor.map, Except.map, Ended.status, hsteps]
          | cons pair found =>
            have hlength := List.length_insertionSort pairLe (pair :: found)
            obtain ⟨first, rest, hsorted⟩ := List.exists_cons_of_ne_nil
              (List.ne_nil_of_length_eq_add_one hlength)
            simp [Functor.map, Except.map, Ended.status, hsteps, hsorted, -List.insertionSort_cons]
      | _ => simp [Ended.status]
  rw [hfound]
  constructor
  · rintro ⟨steps, hsteps, hnone⟩
    rw [findSteps_eq_ok_nil_iff] at hnone
    refine ⟨steps, ⟨members, rfl, hsteps, fun step hstep => ?_⟩, ?_⟩
    · obtain ⟨op, urn, hstep, -⟩ := checkStep_eq_ok_none_iff.mp (hnone step hstep)
      exact ⟨op, urn, hstep⟩
    · rintro ⟨step, hmem, op, urn, hstep, hdestroys, hout⟩
      obtain ⟨op', urn', hstep', hspared⟩ := checkStep_eq_ok_none_iff.mp (hnone step hmem)
      obtain ⟨rfl, rfl⟩ := hstep.unique hstep'
      exact hspared ⟨hdestroys, caught_of_standsOut hout⟩
  · rintro ⟨steps, ⟨members', heq, hsteps, hall⟩, hspared⟩
    cases heq
    refine ⟨steps, hsteps, findSteps_eq_ok_nil_iff.mpr fun step hmem => ?_⟩
    obtain ⟨op, urn, hstep⟩ := hall step hmem
    refine checkStep_eq_ok_none_iff.mpr ⟨op, urn, hstep, fun hbad => hspared ?_⟩
    exact ⟨step, hmem, op, urn, hstep, hbad.1, standsOut_of_caught hbad.2⟩

theorem checkPlan_zero_or_one (members : List (Str × Json)) :
    (checkPlan (.object members)).status = some 0 ∨
      (checkPlan (.object members)).status = some 1 := by
  rw [checkPlan]
  split
  · exact .inr rfl
  · exact .inl rfl
  · exact .inr rfl

variable {members : List (Str × Json)}

theorem isClean_iff (hplan : IsPlan document steps) :
    IsClean document ↔ ¬ Destroys steps NamesProtected := by
  constructor
  · rintro ⟨steps', hplan', hclean⟩
    rwa [hplan.unique hplan']
  · exact fun hclean => ⟨steps, hplan, hclean⟩

end Steps

/-- The gate keeps its promise over an object whose harm stands out. -/
theorem main_guards_iff (selfTest : Ended) (verifyCoverage : Str → Ended) (load : Str → Loaded)
    (script path : Str) (document : Json) (hmode : path ≠ "--self-test")
    (hload : load path = .document document) :
    Guards document (main selfTest verifyCoverage load [script, path]) ↔
      (∃ members, document = .object members) ∧
        ∀ steps, IsPlan document steps → Destroys steps NamesProtected →
          Destroys steps StandsOut := by
  have hmain : main selfTest verifyCoverage load [script, path] = checkPlan document := by
    rw [main, if_neg hmode, hload]
  rw [hmain]
  constructor
  · rintro ⟨-, hfails⟩
    have hobject : ∃ members, document = .object members := by
      by_contra hother
      have hunclean : ¬ IsClean document := by
        rintro ⟨steps, ⟨members, rfl, -⟩, -⟩
        exact hother ⟨members, rfl⟩
      cases document with
      | object members => exact hother ⟨members, rfl⟩
      | _ => cases hfails hunclean
    refine ⟨hobject, fun steps hplan hharm => ?_⟩
    obtain ⟨members, rfl⟩ := hobject
    by_contra hspared
    have hzero := checkPlan_status.mpr ⟨steps, hplan, hspared⟩
    rw [hfails fun hclean => (isClean_iff hplan).mp hclean hharm] at hzero
    cases hzero
  · rintro ⟨⟨members, rfl⟩, hout⟩
    have hsafe : (checkPlan (.object members)).status = some 0 → IsClean (.object members) := by
      intro hzero
      obtain ⟨steps, hplan, hspared⟩ := checkPlan_status.mp hzero
      exact ⟨steps, hplan, fun hharm => hspared (hout steps hplan hharm)⟩
    exact ⟨hsafe, fun hunclean =>
      (checkPlan_zero_or_one members).resolve_left fun hzero => hunclean (hsafe hzero)⟩

/-- A plan that deletes a server whose name holds the separator. -/
def hiddenDelete : Json :=
  .object [("steps", .array [.object [("op", .string "delete"),
    ("urn", .string "urn:pulumi:p::mail::hcloud:index/server:Server::mx1::old")]])]

theorem main_guards_iff_hiddenDelete :
    Guards hiddenDelete (main .raises (fun _ => .raises) (fun _ => .document hiddenDelete)
      ["gate", "plan.json"]) ↔
      (∃ members, hiddenDelete = .object members) ∧
        ∀ steps, IsPlan hiddenDelete steps → Destroys steps NamesProtected →
          Destroys steps StandsOut :=
  main_guards_iff .raises (fun _ => .raises) _ "gate" "plan.json" hiddenDelete (by decide) rfl

theorem hidden_delete_passes :
    ¬ Guards hiddenDelete (main .raises (fun _ => .raises) (fun _ => .document hiddenDelete)
      ["gate", "plan.json"]) := by
  rintro ⟨hclean, -⟩
  obtain ⟨steps, ⟨members, heq, hsteps, -⟩, hspared⟩ := hclean (by decide)
  cases heq
  cases hsteps
  refine hspared ⟨_, List.mem_singleton_self _, "delete", _, ⟨_, rfl, rfl, rfl⟩, by decide,
    "hcloud:index/server:Server", by decide, "p", "mail", "hcloud:index/server:Server", "mx1::old",
    by decide, ?_, ?_, ?_, by decide, .inl rfl⟩
  all_goals
    unfold Component
    decide

end SharedInfra.HetznerDeletes
