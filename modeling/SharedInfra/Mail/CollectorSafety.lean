import SharedInfra.Effects.Moves
import SharedInfra.Mail.Submission

/-!
# The collector and its domains

A run takes four kinds of steps on the sender expressions (`ScopeStep`): it exempts the
collector only where the stored domain restriction is its own.  So no stored and no loaded pair
exempts it without holding it to its domains.  What a failed run left stored is loaded by a
later green one only if that one sets something (`scope_kept`).
-/

namespace SharedInfra.Mail
namespace Submission

open Python Effects Prog SenderScope Relation

section Targets

def holder : Str := address collectorAccountLocal collectorAccountDomain

/-- What the script stores as `isSenderAllowed`, for a list of domains. -/
def allowing (domains : List Str) : Target where
  condition := collectorCondition holder
  consequence := senderDomainCheck domains
  otherwise := defaultIsSenderAllowed

def allowedTarget : Target := allowing collectorSendingDomains

/-- What the script stores as `mustMatchSender`. -/
def matchingTarget : Target := buildMustMatchSender holder

/-- Both expressions are the targets, up to white space. -/
def Reconciled (e : Expressions) : Prop :=
  sameExpression e.isSenderAllowed allowedTarget = .ok true ∧
    sameExpression e.mustMatchSender matchingTarget = .ok true

def IsDefault (v : Val) (defaultElse : Str) : Prop :=
  v = .null ∨ ∃ fields, v = .object fields ∧ matchesOf v = .ok [] ∧
    normalise (getOr fields "else" (.string defaultElse)) = some (normal defaultElse)

/-- The one branch of an expression has the condition of the collector, beside the default. -/
def NamesCollector (v : Val) (defaultElse : Str) : Prop :=
  ∃ fields branch, v = .object fields ∧ matchesOf v = .ok [branch] ∧
    branchText branch "if" = .ok (some (normal (collectorCondition holder))) ∧
    normalise (getOr fields "else" (.string defaultElse)) = some (normal defaultElse)

variable {v : Val} {t : Target} {planned : Option Target} {defaultElse : Str}

theorem sameExpression_value (t : Target) : sameExpression t.value t = .ok true := by
  have helse : getOr t.fields "else" (text "") = .string t.otherwise := rfl
  have hbranches : matchesOf (.object t.fields) = .ok [.object t.branch] := rfl
  have hif : branchText (.object t.branch) "if" = .ok (some (normal t.condition)) := rfl
  have hthen : branchText (.object t.branch) "then" = .ok (some (normal t.consequence)) := rfl
  rw [Target.value, sameExpression, helse, normalise, if_pos rfl, hbranches]
  change sameBranch (.object t.branch) t = _
  rw [sameBranch, hif, hthen]
  change Except.ok _ = _
  simp

theorem branch_of_same (h : sameExpression v t = .ok true) :
    ∃ fields branch, v = .object fields ∧ matchesOf v = .ok [branch] ∧
      branchText branch "if" = .ok (some (normal t.condition)) ∧
      branchText branch "then" = .ok (some (normal t.consequence)) := by
  cases v with
  | object fields =>
    rw [sameExpression] at h
    split at h
    · obtain ⟨branches, hbranches, h⟩ := bind_eq_ok_iff.mp h
      match branches, h with
      | [branch], h =>
        obtain ⟨condition, hcondition, h⟩ := bind_eq_ok_iff.mp h
        obtain ⟨consequence, hconsequence, h⟩ := bind_eq_ok_iff.mp h
        have hboth := Except.ok.inj h
        rw [Bool.and_eq_true, beq_iff_eq, beq_iff_eq] at hboth
        obtain ⟨rfl, rfl⟩ := hboth
        exact ⟨fields, branch, rfl, hbranches, hcondition, hconsequence⟩
      | [], h => cases h
      | _ :: _ :: _, h => cases h
    · cases h
  | _ => cases h

theorem planBranches_ok {branches : List Val} (h : planBranches branches t = .ok planned) :
    planned = some t ∧ (branches = [] ∨ ∃ branch, branches = [branch] ∧
      branchText branch "if" = .ok (some (normal t.condition))) := by
  match branches, h with
  | [], h =>
    cases h
    exact ⟨rfl, .inl rfl⟩
  | [branch], h =>
    obtain ⟨condition, hcondition, h⟩ := bind_eq_ok_iff.mp h
    split at h
    · rename_i heq
      subst heq
      cases h
      exact ⟨rfl, .inr ⟨branch, rfl, hcondition⟩⟩
    · cases h
  | _ :: _ :: _, h => cases h

theorem planOther_ok (hcondition : t.condition = collectorCondition holder)
    (h : planOther v t defaultElse = .ok planned) :
    planned = some t ∧ (IsDefault v defaultElse ∨ NamesCollector v defaultElse) := by
  cases v with
  | null =>
    cases h
    exact ⟨rfl, .inl (.inl rfl)⟩
  | object fields =>
    obtain ⟨branches, hbranches, h⟩ := bind_eq_ok_iff.mp h
    split at h
    · rename_i helse
      obtain ⟨rfl, rfl | ⟨branch, rfl, hif⟩⟩ := planBranches_ok h
      · exact ⟨rfl, .inl (.inr ⟨fields, rfl, hbranches, helse⟩)⟩
      · exact ⟨rfl, .inr ⟨fields, branch, rfl, hbranches, hcondition ▸ hif, helse⟩⟩
    · cases h
  | _ => cases h

theorem planExpression_ok (hcondition : t.condition = collectorCondition holder)
    (h : planExpression v t defaultElse = .ok planned) :
    planned = none ∧ sameExpression v t = .ok true ∨
      planned = some t ∧ sameExpression v t = .ok false ∧
        (IsDefault v defaultElse ∨ NamesCollector v defaultElse) := by
  obtain ⟨same, hsame, h⟩ := bind_eq_ok_iff.mp h
  cases same with
  | true =>
    cases h
    exact .inl ⟨rfl, hsame⟩
  | false =>
    obtain ⟨hplanned, hreplaces⟩ := planOther_ok hcondition h
    exact .inr ⟨hplanned, hsame, hreplaces⟩

end Targets

section Steps

def World.scope (w : World) : Expressions × Expressions × List (Field × Val) :=
  (w.stored, w.loaded, w.replaced)

/-- One step of a run of the collector script, as to the sender expressions. -/
inductive ScopeStep (w w' : World) : Prop where
  | quiet (h : w'.scope = w.scope)
  | allow (hplan : planExpression w.stored.isSenderAllowed allowedTarget defaultIsSenderAllowed =
      .ok (some allowedTarget)) (h : w'.scope = (w.setSenderAllowed allowedTarget.value).scope)
  | exempt (hallowed : sameExpression w.stored.isSenderAllowed allowedTarget = .ok true)
      (hplan : planExpression w.stored.mustMatchSender matchingTarget defaultMustMatchSender =
        .ok (some matchingTarget))
      (h : w'.scope = (w.setMustMatchSender matchingTarget.value).scope)
  | load (h : w'.scope = (w.stored, w.stored, w.replaced))

/-- The operations that leave the sender expressions. -/
def Op.leavesScope : Op → Bool
  | .setSenderAllowed _ => false
  | .setMustMatchSender _ => false
  | .dockerRestart => false
  | _ => true

variable {α : Type} {w w' : World}

theorem scope_of_does {op : Op} {a : Ans op} (hop : op.leavesScope = true)
    (h : does w op a w') : w'.scope = w.scope := by
  cases op with
  | createAccount account =>
    obtain ⟨rfl, -⟩ | ⟨-, rfl⟩ := h <;> rfl
  | createAppPassword account description =>
    cases a with
    | ok secret =>
      obtain ⟨-, -, id, -, rfl⟩ := h
      rfl
    | error e =>
      obtain rfl | ⟨secret, -, -, id, -, rfl⟩ := h <;> rfl
  | destroyAppPasswords ids =>
    obtain ⟨part, -, -, rfl⟩ := h
    rfl
  | append line => obtain ⟨rfl, -⟩ | rfl := h <;> rfl
  | replaceCredentialsFile text => obtain ⟨rfl, -⟩ | rfl := h <;> rfl
  | setSenderAllowed v => cases hop
  | setMustMatchSender v => cases hop
  | dockerRestart => cases hop
  | loadCredentials => rw [h]
  | chmod => rw [h]
  | waitForReady => rw [h]
  | _ =>
    cases a with
    | ok value => rw [h.1]
    | error e => rw [h]

/-- A program whose every operation is a step of the collector script. -/
abbrev Scoped (p : Run α) (post : Except Failure α → World → Prop) (w : World) : Prop :=
  p.Keeps (fun _ : Unit => does) (fun _ => ScopeStep) () post w

/-- A program that leaves the sender expressions. -/
abbrev Quiet (p : Run α) : Prop := Leaves does (fun _ => ScopeStep) World.scope p

theorem quiet_call {op : Op} (hop : op.leavesScope = true) : Quiet (call op) :=
  fun _ => keeps_perform fun _ _ hdoes =>
    ⟨.quiet (scope_of_does hop hdoes), scope_of_does hop hdoes⟩

variable (s : Script)

theorem quiet_require (b : Bool) (e : Failure) : Quiet (require b e) :=
  leaves_ite (leaves_done _) (leaves_done _)

theorem quiet_recordedLocally : Quiet (recordedLocally s) := by
  refine leaves_bind (quiet_call rfl) fun file => ?_
  split <;> exact leaves_done _

theorem quiet_createAndRecord : Quiet (createAndRecord s) :=
  leaves_bind (quiet_call rfl) fun _ => leaves_bind (quiet_call rfl) fun _ => quiet_call rfl

theorem quiet_planRun : Quiet (planRun s) :=
  leaves_bind (quiet_call rfl) fun _ =>
    leaves_bind (leaves_ite (quiet_call rfl) (leaves_done _)) fun _ =>
      leaves_bind (quiet_recordedLocally s) fun _ =>
        leaves_bind (leaves_done _) fun _ => leaves_done _

theorem quiet_provision (accountExists : Bool) (action : Action) :
    Quiet (provision s accountExists action) := by
  refine leaves_bind (leaves_ite (leaves_done _) (quiet_call rfl)) fun _ => ?_
  split
  · exact quiet_createAndRecord s
  · exact leaves_done _

theorem quiet_destroyFound (ids : List Nat) : Quiet (destroyFound ids) :=
  leaves_ite (leaves_done _) (quiet_call rfl)

theorem quiet_destroyOn (accountExists : Bool) : Quiet (destroyOn s accountExists) :=
  leaves_ite (leaves_bind (quiet_call rfl) quiet_destroyFound) (leaves_done _)

theorem quiet_removeRecord : Quiet (removeRecord s) := by
  refine leaves_bind (quiet_call rfl) fun file => ?_
  split
  · exact leaves_done _
  · exact quiet_call rfl

theorem quiet_revoke : Quiet (revoke s) :=
  leaves_bind (quiet_call rfl) fun _ => leaves_bind (quiet_call rfl) fun _ =>
    leaves_bind (leaves_ite (quiet_call rfl) (leaves_done _)) fun accountExists =>
      leaves_bind (quiet_destroyOn s accountExists) fun _ =>
        leaves_bind (quiet_removeRecord s) fun _ => leaves_done _

theorem quiet_readBack (allowed matching : Target) : Quiet (readBack allowed matching) :=
  leaves_bind (quiet_call rfl) fun _ => leaves_bind (quiet_call rfl) fun _ =>
    leaves_bind (leaves_done _) fun _ => quiet_require _ _

end Steps

section Runs

variable {w w' : World} {patch : Option Target} {changed : Bool}
variable {patches : Option Target × Option Target}

/-- What a run that is not dry leaves if it returns 0: it has loaded what it stored, or there
was nothing to store. -/
def Green (w w' : World) : Prop :=
  Reconciled w.stored ∧ w'.scope = w.scope ∨
    ¬ Reconciled w.stored ∧ Reconciled w'.stored ∧ w'.loaded = w'.stored

/-- The two plans of a run. -/
structure Planned (w : World) (patches : Option Target × Option Target) : Prop where
  allowed : planExpression w.stored.isSenderAllowed allowedTarget defaultIsSenderAllowed =
    .ok patches.1
  matching : planExpression w.stored.mustMatchSender matchingTarget defaultMustMatchSender =
    .ok patches.2

theorem stored_of_scope (h : w'.scope = w.scope) : w'.stored = w.stored := congrArg Prod.fst h

theorem loaded_of_scope (h : w'.scope = w.scope) : w'.loaded = w.loaded :=
  congrArg (fun scope => scope.2.1) h

theorem reconciled_iff (h : Planned w patches) :
    Reconciled w.stored ↔ patches.1 = none ∧ patches.2 = none := by
  obtain ⟨hallowed, hmatching⟩ := h
  have hfirst := planExpression_ok rfl hallowed
  have hsecond := planExpression_ok rfl hmatching
  constructor
  · rintro ⟨hsame, hsame'⟩
    rw [hsame] at hfirst
    rw [hsame'] at hsecond
    simp only [Except.ok.injEq, Bool.true_eq_false, false_and, and_false, or_false, and_true]
      at hfirst hsecond
    exact ⟨hfirst, hsecond⟩
  · rintro ⟨hnone, hnone'⟩
    rw [hnone] at hfirst
    rw [hnone'] at hsecond
    simp only [true_and, reduceCtorEq, false_and, or_false] at hfirst hsecond
    exact ⟨hfirst, hsecond⟩

theorem scoped_setSenderAllowedIf (hplan : planExpression w.stored.isSenderAllowed allowedTarget
    defaultIsSenderAllowed = .ok patch) :
    Scoped (setSenderAllowedIf patch) (fun r w' => r = .ok () →
      sameExpression w'.stored.isSenderAllowed allowedTarget = .ok true ∧
        w'.stored.mustMatchSender = w.stored.mustMatchSender ∧
        (patch = none → w'.scope = w.scope)) w := by
  obtain ⟨rfl, hsame⟩ | ⟨rfl, -, -⟩ := planExpression_ok rfl hplan
  · exact fun _ => ⟨hsame, rfl, fun _ => rfl⟩
  · refine keeps_perform fun a w' hdoes => ?_
    obtain ⟨rfl, ha⟩ | rfl := hdoes
    · exact ⟨.quiet rfl, fun hr => absurd hr ha⟩
    · exact ⟨.allow hplan rfl, fun _ => ⟨sameExpression_value allowedTarget, rfl, nofun⟩⟩

theorem scoped_setMustMatchSenderIf
    (hallowed : sameExpression w.stored.isSenderAllowed allowedTarget = .ok true)
    (hplan : planExpression w.stored.mustMatchSender matchingTarget defaultMustMatchSender =
      .ok patch) :
    Scoped (setMustMatchSenderIf patch) (fun r w' => r = .ok () →
      Reconciled w'.stored ∧ (patch = none → w'.scope = w.scope)) w := by
  obtain ⟨rfl, hsame⟩ | ⟨rfl, -, -⟩ := planExpression_ok rfl hplan
  · exact fun _ => ⟨⟨hallowed, hsame⟩, fun _ => rfl⟩
  · refine keeps_perform fun a w' hdoes => ?_
    obtain ⟨rfl, ha⟩ | rfl := hdoes
    · exact ⟨.quiet rfl, fun hr => absurd hr ha⟩
    · exact ⟨.exempt hallowed hplan rfl,
        fun _ => ⟨⟨hallowed, sameExpression_value matchingTarget⟩, nofun⟩⟩

theorem scoped_restartIf : Scoped (restartIf changed) (fun r w' => r = .ok () →
    w'.stored = w.stored ∧ (changed = true → w'.loaded = w'.stored) ∧
      (changed = false → w'.scope = w.scope)) w := by
  cases changed with
  | false => exact fun _ => ⟨rfl, nofun, fun _ => rfl⟩
  | true =>
    refine keeps_perform fun a mid hdoes => ?_
    obtain ⟨rfl, ha⟩ | rfl := hdoes
    · cases a with
      | ok value => exact absurd rfl ha
      | error e => exact ⟨.quiet rfl, nofun⟩
    · cases a with
      | error e => exact ⟨.load rfl, nofun⟩
      | ok value =>
        refine ⟨.load rfl, (quiet_call rfl _).mono fun r w' hscope _ => ?_⟩
        have hstored : w'.stored = w.stored := congrArg Prod.fst hscope
        have hloaded : w'.loaded = w.stored := congrArg (fun scope => scope.2.1) hscope
        exact ⟨hstored, fun _ => hloaded.trans hstored.symm, nofun⟩

theorem scoped_setScope (hplan : Planned w patches) :
    Scoped (setScope patches) (fun r w' => r = .ok () → Green w w') w := by
  refine (scoped_setSenderAllowedIf hplan.allowed).bind (fun _ w₁ h₁ => ?_) nofun
  obtain ⟨hsame, hmatching, hquiet⟩ := h₁ rfl
  refine (scoped_setMustMatchSenderIf hsame (hmatching ▸ hplan.matching)).bind
    (fun _ w₂ h₂ => ?_) nofun
  obtain ⟨hreconciled, hquiet'⟩ := h₂ rfl
  refine scoped_restartIf.mono fun r w' h hr => ?_
  obtain ⟨hstored, hchanged, hsame'⟩ := h hr
  by_cases hstart : Reconciled w.stored
  · obtain ⟨hnone, hnone'⟩ := (reconciled_iff hplan).mp hstart
    refine .inl ⟨hstart, ?_⟩
    rw [hsame' (by simp [hnone, hnone']), hquiet' hnone', hquiet hnone]
  · have hsome : (patches.1.isSome || patches.2.isSome) = true := by
      rw [reconciled_iff hplan] at hstart
      cases h₁ : patches.1 <;> cases h₂ : patches.2 <;> simp_all
    exact .inr ⟨hstart, hstored ▸ hreconciled, hchanged hsome⟩

theorem Green.after (h : Green w w') {w₀ w₁ : World} (hstart : w.scope = w₀.scope)
    (hend : w₁.scope = w'.scope) : Green w₀ w₁ := by
  have hstored : w.stored = w₀.stored := stored_of_scope hstart
  have hstored' : w₁.stored = w'.stored := stored_of_scope hend
  obtain ⟨hsame, hscope⟩ | ⟨hnot, hsame, hloaded⟩ := h
  · exact .inl ⟨hstored ▸ hsame, (hend.trans hscope).trans hstart⟩
  · refine .inr ⟨hstored ▸ hnot, hstored' ▸ hsame, ?_⟩
    rw [loaded_of_scope hend, hloaded, hstored']

variable (s : Script) {mode : Mode}

theorem scoped_finishCollector
    {planned : Bool × Action} (hplan : Planned w patches) :
    Scoped (finishCollector s mode allowedTarget matchingTarget patches planned)
      (fun r w' => r = .ok 0 → mode = .provision → Green w w') w := by
  unfold finishCollector
  split
  · exact nofun
  · split
    · rename_i hdry
      subst hdry
      exact fun _ => nofun
    · refine (scoped_setScope hplan).bind (fun _ w₁ h₁ => ?_) nofun
      have hrest : Quiet (do
          provision s planned.1 planned.2
          readBack allowedTarget matchingTarget
          return 0) :=
        leaves_bind (quiet_provision s _ _) fun _ =>
          leaves_bind (quiet_readBack _ _) fun _ => leaves_done _
      exact (hrest w₁).mono fun r w' hscope _ _ => (h₁ rfl).after rfl hscope

theorem planned_of_planScope {mail : MailStage} {mustMatchSender : Val}
    (hmail : mail.isSenderAllowed = w.stored.isSenderAllowed)
    (hmatching : mustMatchSender = w.stored.mustMatchSender)
    (h : planScope mail mustMatchSender allowedTarget matchingTarget = .ok patches) :
    Planned w patches := by
  obtain ⟨_, -, h⟩ := bind_eq_ok_iff.mp h
  obtain ⟨first, hfirst, h⟩ := bind_eq_ok_iff.mp h
  obtain ⟨second, hsecond, h⟩ := bind_eq_ok_iff.mp h
  cases h
  exact ⟨hmail ▸ hfirst, hmatching ▸ hsecond⟩

theorem Planned.of_scope (h : Planned w patches)
    (hscope : w'.scope = w.scope) : Planned w' patches := by
  have hstored : w'.stored = w.stored := stored_of_scope hscope
  exact ⟨hstored ▸ h.allowed, hstored ▸ h.matching⟩

theorem scoped_read {β : Type} {op : Op} {f : Returns op → Run β}
    {post : Except Failure β → World → Prop} (hop : op.leavesScope = true)
    (hok : ∀ a w', does w op (.ok a) w' → Scoped (f a) post w')
    (herror : ∀ e w', post (.error e) w') : Scoped (call op >>= f) post w := by
  refine keeps_perform fun a w' hdoes => ⟨.quiet (scope_of_does hop hdoes), ?_⟩
  cases a with
  | ok a => exact hok a w' hdoes
  | error e => exact herror e w'

theorem scoped_runCollector : Scoped (runCollector s mode allowedTarget matchingTarget)
    (fun r w' => r = .ok 0 → mode = .provision → Green w w') w := by
  refine scoped_read rfl (fun _ w₁ h₁ => ?_) nofun
  refine scoped_read rfl (fun names w₂ h₂ => ?_) nofun
  refine ((quiet_require _ _) w₂).bind (fun _ w₃ h₃ => ?_) nofun
  refine scoped_read rfl (fun mail w₄ h₄ => ?_) nofun
  refine scoped_read rfl (fun mustMatchSender w₅ h₅ => ?_) nofun
  obtain ⟨rfl, rfl⟩ := h₄
  obtain ⟨rfl, rfl⟩ := h₅
  have hscope : w₅.scope = w.scope := (h₃.trans (congrArg World.scope h₂.1)).trans
    (congrArg World.scope h₁)
  cases hplan : planScope ⟨w₅.stored.isSenderAllowed, w₅.rewrite, w₅.script⟩
      w₅.stored.mustMatchSender allowedTarget matchingTarget with
  | error e => exact nofun
  | ok patches =>
    have hplanned : Planned w₅ patches := planned_of_planScope rfl rfl hplan
    refine ((quiet_planRun s) w₅).bind (fun planned w₆ h₆ => ?_) nofun
    refine (scoped_finishCollector s (hplanned.of_scope h₆)).mono fun r w' hgreen hr hmode => ?_
    exact (hgreen hr hmode).after (h₆.trans hscope) rfl

theorem scoped_mainCollector (label : Str) (mode : Mode) (w : World) :
    Scoped (mainCollector label mode)
      (fun r w' => r = .ok 0 → mode = .provision → Green w w') w := by
  unfold mainCollector
  split
  · rename_i hrevoke
    subst hrevoke
    exact ((quiet_revoke _) w).mono fun _ _ _ _ => nofun
  · exact scoped_runCollector (collector label)

end Runs

section Evaluation

/-- How the server evaluates the text of an expression for a login and a sender domain, and what
it makes of a value of no known shape.  The two texts that the script writes say what they say,
white space aside. -/
structure Semantics where
  truth : Str → Str → Str → Bool
  odd : Val → Str → Str → Bool
  condition : ∀ text login domain, normal text = normal (collectorCondition holder) →
    truth text login domain = (login == holder)
  domainCheck : ∀ text login domain,
    normal text = normal (senderDomainCheck collectorSendingDomains) →
    truth text login domain = collectorSendingDomains.contains domain

variable (sem : Semantics) (login domain : Str)

def Semantics.part (v : Val) : Bool :=
  match v with
  | .string s => sem.truth s login domain
  | v => sem.odd v login domain

def Semantics.partOf (branch : Val) (name : String) : Bool :=
  match branch with
  | .object fields => sem.part login domain (getOr fields name (text ""))
  | v => sem.odd v login domain

/-- Branch by branch, and last the `else`. -/
def Semantics.branches (otherwise : Val) : List Val → Bool
  | [] => sem.part login domain otherwise
  | branch :: rest =>
    if sem.partOf login domain branch "if" then sem.partOf login domain branch "then"
    else Semantics.branches otherwise rest

/-- The value of an expression; one that is absent is its default. -/
def Semantics.evaluate (defaultElse : Str) (v : Val) : Bool :=
  match v with
  | .null => sem.truth defaultElse login domain
  | .object fields =>
    match matchesOf v with
    | .ok branches =>
      sem.branches login domain (getOr fields "else" (.string defaultElse)) branches
    | .error _ => sem.odd v login domain
  | v => sem.odd v login domain

def Exempts (v : Val) : Prop :=
  ∃ domain, sem.evaluate holder domain defaultMustMatchSender v = false

/-- The collector is held to its domains, if it may send as another address at all. -/
def Held (e : Expressions) : Prop :=
  Exempts sem e.mustMatchSender → ∀ domain,
    sem.evaluate holder domain defaultIsSenderAllowed e.isSenderAllowed = true →
      domain ∈ collectorSendingDomains

variable {sem login domain} {v branch : Val}

theorem partOf_of_branchText (sem : Semantics) (login domain : Str) {name : String} {t : Str}
    (h : branchText branch name = .ok (some (normal t))) :
    ∃ s, normal s = normal t ∧ sem.partOf login domain branch name = sem.truth s login domain := by
  cases branch with
  | object fields =>
    have hpart : normalise (getOr fields name (text "")) = some (normal t) := Except.ok.inj h
    rw [Semantics.partOf]
    cases hvalue : getOr fields name (text "") with
    | string s =>
      rw [hvalue, normalise, Option.some.injEq] at hpart
      exact ⟨s, hpart, rfl⟩
    | _ =>
      rw [hvalue, normalise] at hpart
      · cases hpart
      · exact nofun
  | _ => cases h

theorem domain_of_same (hsame : sameExpression v allowedTarget = .ok true)
    (h : sem.evaluate holder domain defaultIsSenderAllowed v = true) :
    domain ∈ collectorSendingDomains := by
  obtain ⟨fields, branch, rfl, hbranches, hif, hthen⟩ := branch_of_same hsame
  obtain ⟨condition, hcondition, hif⟩ := partOf_of_branchText sem holder domain hif
  obtain ⟨consequence, hconsequence, hthen⟩ := partOf_of_branchText sem holder domain
    hthen
  have htrue : sem.truth condition holder domain = true := by
    rw [sem.condition condition holder domain hcondition, beq_self_eq_true]
  rw [Semantics.evaluate, hbranches] at h
  change sem.branches holder domain _ [branch] = true at h
  rw [Semantics.branches, hif, htrue, if_pos rfl, hthen,
    sem.domainCheck consequence holder domain hconsequence, List.contains_iff_mem] at h
  exact h

/-- What exempts the collector has the domain restriction of the script beside it. -/
def Safe (sem : Semantics) (e : Expressions) : Prop :=
  Exempts sem e.mustMatchSender → sameExpression e.isSenderAllowed allowedTarget = .ok true

theorem held_of_safe {e : Expressions} (h : Safe sem e) : Held sem e :=
  fun hexempts _ hallowed => domain_of_same (h hexempts) hallowed

end Evaluation

section Histories

/-- An expression that this script has written, for some list of domains. -/
def Own : Field → Val → Prop
  | .isSenderAllowed, v => ∃ domains, validateSendingDomains domains = .ok () ∧
      sameExpression v (allowing domains) = .ok true
  | .mustMatchSender, v => sameExpression v matchingTarget = .ok true

def defaultOf : Field → Str
  | .isSenderAllowed => defaultIsSenderAllowed
  | .mustMatchSender => defaultMustMatchSender

/-- What may be overwritten: absent, the default, or the script's own. -/
def Replaceable (field : Field) (v : Val) : Prop := IsDefault v (defaultOf field) ∨ Own field v

def Expressions.of (e : Expressions) : Field → Val
  | .isSenderAllowed => e.isSenderAllowed
  | .mustMatchSender => e.mustMatchSender

/-- A branch of the collector is beside the default, and the script has not written it. -/
def Foreign (e : Expressions) (field : Field) : Prop :=
  NamesCollector (e.of field) (defaultOf field) ∧ ¬ Own field (e.of field)

variable {sem : Semantics} {w w' : World}

theorem safe_of_step (h : ScopeStep w w') (hw : Safe sem w.stored ∧ Safe sem w.loaded) :
    Safe sem w'.stored ∧ Safe sem w'.loaded := by
  cases h with
  | quiet h => exact stored_of_scope h ▸ loaded_of_scope h ▸ hw
  | allow _ h =>
    exact stored_of_scope h ▸ loaded_of_scope h ▸
      ⟨fun _ => sameExpression_value allowedTarget, hw.2⟩
  | exempt hallowed _ h =>
    exact stored_of_scope h ▸ loaded_of_scope h ▸ ⟨fun _ => hallowed, hw.2⟩
  | load h =>
    have hstored : w'.stored = w.stored := congrArg Prod.fst h
    have hloaded : w'.loaded = w.stored := congrArg (fun scope => scope.2.1) h
    rw [hstored, hloaded]
    exact ⟨hw.1, hw.1⟩

/-- Nothing foreign is stored, and nothing foreign has been overwritten. -/
def Kept (w : World) : Prop :=
  (∀ field, ¬ Foreign w.stored field) ∧ ∀ r ∈ w.replaced, Replaceable r.1 r.2

theorem replaceable_of_plan (field : Field) (h : IsDefault (w.stored.of field) (defaultOf field) ∨
    NamesCollector (w.stored.of field) (defaultOf field)) (hw : Kept w) :
    Replaceable field (w.stored.of field) := by
  refine h.imp_right fun hnames => ?_
  by_contra hown
  exact hw.1 field ⟨hnames, hown⟩

theorem own_allowedTarget : Own .isSenderAllowed allowedTarget.value :=
  ⟨collectorSendingDomains, by decide, sameExpression_value allowedTarget⟩

theorem kept_of_step (h : ScopeStep w w') (hw : Kept w) : Kept w' := by
  have hscope : ∀ {stored : Expressions} {loaded : Expressions} {replaced : List (Field × Val)},
      w'.scope = (stored, loaded, replaced) → (∀ field, ¬ Foreign stored field) →
      (∀ r ∈ replaced, Replaceable r.1 r.2) → Kept w' := by
    intro stored loaded replaced h hforeign hreplaced
    have hstored : w'.stored = stored := congrArg Prod.fst h
    have hlist : w'.replaced = replaced := congrArg (fun scope => scope.2.2) h
    rw [Kept, hstored, hlist]
    exact ⟨hforeign, hreplaced⟩
  cases h with
  | quiet h => exact hscope h hw.1 hw.2
  | load h => exact hscope h hw.1 hw.2
  | allow hplan h =>
    refine hscope h (fun field => ?_) (List.forall_mem_append.mpr ⟨hw.2, ?_⟩)
    · cases field with
      | isSenderAllowed => exact fun hforeign => hforeign.2 own_allowedTarget
      | mustMatchSender => exact hw.1 .mustMatchSender
    · obtain ⟨hnone, -⟩ | ⟨-, -, hreplaces⟩ := planExpression_ok rfl hplan
      · cases hnone
      · exact List.forall_mem_singleton.mpr
          (replaceable_of_plan .isSenderAllowed hreplaces hw)
  | exempt _ hplan h =>
    refine hscope h (fun field => ?_) (List.forall_mem_append.mpr ⟨hw.2, ?_⟩)
    · cases field with
      | isSenderAllowed => exact hw.1 .isSenderAllowed
      | mustMatchSender => exact fun hforeign => hforeign.2 (sameExpression_value matchingTarget)
    · obtain ⟨hnone, -⟩ | ⟨-, -, hreplaces⟩ := planExpression_ok rfl hplan
      · cases hnone
      · exact List.forall_mem_singleton.mpr
          (replaceable_of_plan .mustMatchSender hreplaces hw)

theorem loaded_of_green (h : Green w w') :
    Reconciled w'.loaded ↔ (Reconciled w.stored → Reconciled w.loaded) := by
  obtain ⟨hstored, hscope⟩ | ⟨hnot, hstored, hloaded⟩ := h
  · rw [loaded_of_scope hscope]
    exact ⟨fun hloaded _ => hloaded, fun hloaded => hloaded hstored⟩
  · rw [hloaded]
    exact ⟨fun _ hreconciled => absurd hreconciled hnot, fun _ => hstored⟩

variable (start : World)

/-- Runs one after another, each of which may end at any of its operations.  Of those that
returned 0 and were to provision, where each started and ended. -/
inductive History : List (World × World) → World → Prop where
  | start : History [] start
  | stopped {greens : List (World × World)} {w w' : World} (label : Str) (mode : Mode)
      (h : History greens w) (hrun : Passes does (mainCollector label mode) w w') :
      History greens w'
  | green {greens : List (World × World)} {w w' : World} (label : Str) (h : History greens w)
      (hrun : Exec does (mainCollector label .provision) w (.ok 0) w') :
      History (greens ++ [(w, w')]) w'

variable {start} {greens : List (World × World)}

theorem History.keeps (inv : World → Prop) (hstep : ∀ w w', ScopeStep w w' → inv w → inv w')
    (hstart : inv start) (h : History start greens w) : inv w := by
  have hpasses : ∀ {label : Str} {mode : Mode} {w w' : World},
      Passes does (mainCollector label mode) w w' → inv w → inv w' := by
    intro label mode w w' hrun hw
    have hsteps := (scoped_mainCollector label mode w).steps_alone hrun
    clear hrun
    induction hsteps with
    | refl => exact hw
    | tail _ hlast ih => exact hstep _ _ hlast ih
  induction h with
  | start => exact hstart
  | stopped label mode _ hrun ih => exact hpasses hrun ih
  | green label _ hrun ih => exact hpasses (passes_of_exec hrun) ih

/-- The collector is held to its domains in every state.  The runs that return 0 leave the
targets loaded exactly if each started with the targets loaded or not both stored, and nothing
is overwritten but the default and the script's own, if no branch of the collector was stored
that is not. -/
theorem scope_kept (hstored : ¬ Exempts sem start.stored.mustMatchSender)
    (hloaded : ¬ Exempts sem start.loaded.mustMatchSender) (hreplaced : start.replaced = [])
    (h : History start greens w) :
    (Held sem w.stored ∧ Held sem w.loaded) ∧ ((∀ run ∈ greens, Reconciled run.2.loaded) ↔
        ∀ run ∈ greens, Reconciled run.1.stored → Reconciled run.1.loaded) ∧
      ((∀ field, ¬ Foreign start.stored field) → ∀ r ∈ w.replaced, Replaceable r.1 r.2) := by
  refine ⟨?_, ?_, fun hforeign => ?_⟩
  · have hsafe : Safe sem w.stored ∧ Safe sem w.loaded :=
      h.keeps (fun w => Safe sem w.stored ∧ Safe sem w.loaded)
        (fun _ _ hstep hw => safe_of_step hstep hw)
        ⟨fun hexempts => absurd hexempts hstored, fun hexempts => absurd hexempts hloaded⟩
    exact ⟨held_of_safe hsafe.1, held_of_safe hsafe.2⟩
  · clear hstored hloaded hreplaced
    induction h with
    | start => simp
    | stopped _ _ _ _ ih => exact ih
    | green label _ hrun ih =>
      have hgreen := (scoped_mainCollector label .provision _).result_alone hrun rfl rfl
      rw [List.forall_mem_append, List.forall_mem_append, ih, List.forall_mem_singleton,
        List.forall_mem_singleton, loaded_of_green hgreen]
  · have hkept : Kept w := h.keeps Kept (fun _ _ hstep hw => kept_of_step hstep hw)
      ⟨hforeign, by simp [hreplaced]⟩
    exact hkept.2

end Histories

/-- The evaluation of the texts that are met here. -/
def serverSemantics : Semantics where
  truth text login domain :=
    if normal text = normal (collectorCondition holder) then login == holder
    else if normal text = normal (senderDomainCheck collectorSendingDomains) then
      collectorSendingDomains.contains domain
    else if normal text = defaultMustMatchSender then true
    else !login.isEmpty
  odd _ _ _ := true
  condition text login domain h := by rw [if_pos h]
  domainCheck text login domain h := by
    rw [if_neg, if_pos h]
    rw [h]
    decide

def collectorLabel : Str := "collector-smtp".toList

/-- A server with the app password of the collector, and the default expressions. -/
def defaults : World where
  stored := ⟨.null, .null⟩
  loaded := ⟨.null, .null⟩
  rewrite := .null
  script := .null
  domains := collectorSendingDomains
  accounts := [holder]
  passwords := [⟨0, holder, "mail-collector-submission".toList, "pw".toList⟩]
  file := some (secretLine collectorLabel "pw".toList)
  replaced := []

/-- A server that restarts, or does not; nothing is created on it. -/
def server (restarts : Bool) : Handler Op Ans World
  | w, .domainNames => (.ok w.domains, w)
  | w, .findAccount account => (.ok (w.accounts.contains account), w)
  | w, .createAccount _ => (.error .urlError, w)
  | w, .appPasswordExists account description =>
    (.ok (w.passwords.any (AppPassword.isOf account description)), w)
  | w, .createAppPassword _ _ => (.error .urlError, w)
  | w, .appPasswordIds account description =>
    (.ok ((w.passwords.filter (AppPassword.isOf account description)).map AppPassword.id), w)
  | w, .destroyAppPasswords ids =>
    (.ok (), { w with passwords := w.passwords.filter fun p => !ids.contains p.id })
  | w, .readCredentialsFile => (.ok w.file, w)
  | w, .append line => (.ok (), { w with file := some (w.file.getD [] ++ line) })
  | w, .replaceCredentialsFile text => (.ok (), { w with file := some text })
  | w, .getMailStage => (.ok ⟨w.stored.isSenderAllowed, w.rewrite, w.script⟩, w)
  | w, .getMustMatchSender => (.ok w.stored.mustMatchSender, w)
  | w, .setSenderAllowed v => (.ok (), w.setSenderAllowed v)
  | w, .setMustMatchSender v => (.ok (), w.setMustMatchSender v)
  | w, .dockerRestart =>
    if restarts then (.ok (), { w with loaded := w.stored }) else (.error .processError, w)
  | w, .loadCredentials => (.ok (), w)
  | w, .chmod => (.ok (), w)
  | w, .waitForReady => (.ok (), w)

theorem does_server (restarts : Bool) (w : World) (op : Op) :
    does w op (server restarts w op).1 (server restarts w op).2 := by
  cases op with
  | createAccount account => exact .inl ⟨rfl, nofun⟩
  | createAppPassword account description => exact .inl rfl
  | destroyAppPasswords ids => exact ⟨ids, .refl _, fun _ => rfl, rfl⟩
  | append line => exact .inr rfl
  | replaceCredentialsFile text => exact .inr rfl
  | setSenderAllowed v => exact .inr rfl
  | setMustMatchSender v => exact .inr rfl
  | dockerRestart =>
    cases restarts with
    | true => exact .inr rfl
    | false => exact .inl ⟨rfl, nofun⟩
  | loadCredentials => rfl
  | chmod => rfl
  | waitForReady => rfl
  | _ => exact ⟨rfl, rfl⟩

def stored : World := (defaults.setSenderAllowed allowedTarget.value).setMustMatchSender
  matchingTarget.value

theorem unrestarted_run : (mainCollector collectorLabel .provision).run (server false) defaults =
    (.error .processError, stored) := by
  rfl

theorem next_run : (mainCollector collectorLabel .provision).run (server true) stored =
    (.ok 0, stored) := by
  rfl

theorem not_exempts_default : ¬ Exempts serverSemantics .null := by
  rintro ⟨domain, h⟩
  have htrue : serverSemantics.evaluate holder domain defaultMustMatchSender .null = true := rfl
  rw [htrue] at h
  cases h

/-- The restart fails, and the next run returns 0 without one. -/
theorem unloaded_expressions_stay :
    ¬ Exempts serverSemantics defaults.stored.mustMatchSender ∧
      ¬ Exempts serverSemantics defaults.loaded.mustMatchSender ∧
      ∃ greens w, History defaults greens w ∧ ∃ run ∈ greens, ¬ Reconciled run.2.loaded := by
  have hfirst := exec_run (does_server false) (mainCollector collectorLabel .provision) defaults
  rw [unrestarted_run] at hfirst
  have hsecond := exec_run (does_server true) (mainCollector collectorLabel .provision) stored
  rw [next_run] at hsecond
  refine ⟨not_exempts_default, not_exempts_default, _, _,
    (History.start.stopped _ _ (passes_of_exec hfirst)).green _ hsecond, _,
    List.mem_singleton.mpr rfl, fun hreconciled => ?_⟩
  exact absurd hreconciled.1 nofun

def loadedWorld : World := { stored with loaded := stored.stored }

theorem unbroken_run : (mainCollector collectorLabel .provision).run (server true) defaults =
    (.ok 0, loadedWorld) := by
  rfl

/-- A run that is not stopped loads what it stores, and holds the collector to its domains. -/
theorem scope_kept_for_one :
    Held serverSemantics loadedWorld.loaded ∧ Reconciled loadedWorld.loaded := by
  have hexec := exec_run (does_server true) (mainCollector collectorLabel .provision) defaults
  rw [unbroken_run] at hexec
  have hstart : ¬ Exempts serverSemantics defaults.stored.mustMatchSender := not_exempts_default
  obtain ⟨⟨-, hheld⟩, hgreens, -⟩ := scope_kept hstart not_exempts_default rfl
    (History.start.green collectorLabel hexec)
  refine ⟨hheld, hgreens.mpr (fun run hrun hstored => ?_) _ (List.mem_singleton.mpr rfl)⟩
  rw [List.mem_singleton.mp hrun] at hstored
  exact absurd hstored.1 nofun

end Submission
end SharedInfra.Mail
