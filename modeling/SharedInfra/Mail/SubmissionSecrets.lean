import SharedInfra.Mail.RecordLines
import SharedInfra.Mail.CollectorSafety

/-!
# Recorded secrets that work

What one step of a run does to the credentials file and the app passwords (`SecretStep`): a
secret is appended only where its label has none and it is that of every app password of its
script.  So a run that returns 0 leaves the secret of a live app password under its label
(`recorded_secrets_work`), unless the website script meets a record whose app password is gone.
-/

namespace SharedInfra.Mail
namespace Submission

open Python Effects Prog SenderScope Relation

section Meaning

/-- What `_load_recorded_secret` returns for a label. -/
def World.recorded (w : World) (label : Str) : Option (Option Str) :=
  loadRecordedSecret label w.file

def World.live (w : World) (s : Script) : List AppPassword :=
  w.passwords.filter (AppPassword.isOf s.account s.description)

def Works (s : Script) (w : World) : Prop :=
  ∃ p ∈ w.live s, w.recorded s.label = some (some p.secret)

def Stale (s : Script) (w : World) : Prop :=
  (∃ secret, w.recorded s.label = some (some secret)) ∧ w.live s = []

def Agrees (s : Script) (w : World) : Prop :=
  ∀ secret, w.recorded s.label = some (some secret) → ∀ p ∈ w.live s, p.secret = secret

def World.secrets (w : World) : Option Str × List AppPassword := (w.file, w.passwords)

def Owned (w : World) : Prop := ∀ p ∈ w.passwords, p.account ∈ w.accounts

variable {s : Script} {w w' : World} {label : Str}

theorem recorded_of_secrets (h : w'.secrets = w.secrets) (label : Str) :
    w'.recorded label = w.recorded label :=
  congrArg (loadRecordedSecret label) (congrArg Prod.fst h)

theorem live_of_secrets (h : w'.secrets = w.secrets) (s : Script) : w'.live s = w.live s :=
  congrArg (List.filter _) (congrArg Prod.snd h)

theorem works_of_secrets (h : w'.secrets = w.secrets) (hw : Works s w) : Works s w' := by
  rw [Works, live_of_secrets h, recorded_of_secrets h]
  exact hw

theorem stale_of_secrets (h : w'.secrets = w.secrets) (hw : Stale s w) : Stale s w' := by
  rw [Stale, live_of_secrets h, recorded_of_secrets h]
  exact hw

theorem agrees_of_secrets (h : w'.secrets = w.secrets) (hw : Agrees s w) : Agrees s w' := by
  rw [Agrees, live_of_secrets h, recorded_of_secrets h]
  exact hw

theorem recorded_append {secret : Str} (hlabel : PlainLabel s.label) (hplain : PlainSecret secret)
    (hends : EndsLine (w.file.getD []))
    (h : w'.file = some (w.file.getD [] ++ secretLine s.label secret)) (label : Str) :
    w'.recorded label = if w.recorded label = some none ∧ s.label = label then some (some secret)
      else w.recorded label := by
  rw [World.recorded, World.recorded, loadRecordedSecret_eq, loadRecordedSecret_eq, h,
    Option.getD_some, textLines_append hends, textLines_secretLine hlabel hplain,
    lookupLine_append (splitColon_line hlabel.colon secret)]

theorem live_append {p : AppPassword} (hp : p.isOf s.account s.description = true)
    (hlive : w.live s = []) (h : w'.passwords = w.passwords ++ [p]) : w'.live s = [p] := by
  rw [World.live] at hlive ⊢
  rw [h, List.filter_append, hlive, List.nil_append, List.filter_cons_of_pos hp, List.filter_nil]

theorem live_eq_nil_iff : w.live s = [] ↔
    w.passwords.any (AppPassword.isOf s.account s.description) = false := by
  rw [World.live, List.filter_eq_nil_iff, List.any_eq_false]

end Meaning

section Steps

inductive SecretStep (s : Script) (w w' : World) : Prop where
  | quiet (h : w'.secrets = w.secrets)
  | mint (p : AppPassword) (hp : p.isOf s.account s.description = true)
      (haccount : p.account ∈ w.accounts) (hnone : w.recorded s.label = some none)
      (h : w'.secrets = (w.file, w.passwords ++ [p]))
  | record (secret : Str) (hplain : PlainSecret secret) (hnone : w.recorded s.label = some none)
      (hlive : ∀ p ∈ w.live s, p.secret = secret)
      (h : w'.secrets = (some (w.file.getD [] ++ secretLine s.label secret), w.passwords))
  | destroy (passwords : List AppPassword) (hsub : passwords.Sublist w.passwords)
      (h : w'.secrets = (w.file, passwords))
  | forget (text : Str) (hfile : removeRecordedSecret s.label w.file = some text)
      (h : w'.secrets = (some text, w.passwords))

/-- The promise of a run: no account goes. -/
def Promise (s : Script) (w w' : World) : Prop := SecretStep s w w' ∧ w.accounts ⊆ w'.accounts

def Op.leavesSecrets : Op → Bool
  | .createAppPassword _ _ => false
  | .destroyAppPasswords _ => false
  | .append _ => false
  | .replaceCredentialsFile _ => false
  | _ => true

/-- The operations that only read. -/
def Op.reads : Op → Bool
  | .loadCredentials => true
  | .domainNames => true
  | .findAccount _ => true
  | .appPasswordExists _ _ => true
  | .appPasswordIds _ _ => true
  | .readCredentialsFile => true
  | .getMailStage => true
  | .getMustMatchSender => true
  | _ => false

variable {s : Script} {w w' : World}

theorem secrets_of_does {op : Op} {a : Ans op} (hop : op.leavesSecrets = true)
    (h : does w op a w') : w'.secrets = w.secrets ∧ w.accounts ⊆ w'.accounts := by
  cases op with
  | createAccount account =>
    obtain ⟨rfl, -⟩ | ⟨-, rfl⟩ := h
    · exact ⟨rfl, fun _ h => h⟩
    · exact ⟨rfl, fun _ h => List.mem_cons_of_mem _ h⟩
  | createAppPassword account description => cases hop
  | destroyAppPasswords ids => cases hop
  | append line => cases hop
  | replaceCredentialsFile text => cases hop
  | setSenderAllowed v => obtain ⟨rfl, -⟩ | rfl := h <;> exact ⟨rfl, fun _ h => h⟩
  | setMustMatchSender v => obtain ⟨rfl, -⟩ | rfl := h <;> exact ⟨rfl, fun _ h => h⟩
  | dockerRestart => obtain ⟨rfl, -⟩ | rfl := h <;> exact ⟨rfl, fun _ h => h⟩
  | loadCredentials => exact h ▸ ⟨rfl, fun _ h => h⟩
  | chmod => exact h ▸ ⟨rfl, fun _ h => h⟩
  | waitForReady => exact h ▸ ⟨rfl, fun _ h => h⟩
  | _ =>
    cases a with
    | ok value => exact h.1 ▸ ⟨rfl, fun _ h => h⟩
    | error e => exact h ▸ ⟨rfl, fun _ h => h⟩

theorem eq_of_reads {op : Op} {a : Ans op} (hop : op.reads = true) (h : does w op a w') :
    w' = w := by
  cases op with
  | loadCredentials => exact h
  | createAccount account => cases hop
  | createAppPassword account description => cases hop
  | destroyAppPasswords ids => cases hop
  | append line => cases hop
  | chmod => cases hop
  | replaceCredentialsFile text => cases hop
  | setSenderAllowed v => cases hop
  | setMustMatchSender v => cases hop
  | dockerRestart => cases hop
  | waitForReady => cases hop
  | _ =>
    cases a with
    | ok value => exact h.1
    | error e => exact h

end Steps

section Parts

variable {α : Type} {s : Script} {w w' : World}

/-- A program whose every operation is a step of the script. -/
abbrev Secure (s : Script) (p : Run α) (post : Except Failure α → World → Prop) (w : World) :
    Prop :=
  p.Keeps (fun _ : Unit => does) (fun _ => Promise s) () post w

/-- A program that leaves the file and the app passwords. -/
abbrev Calm (s : Script) (p : Run α) : Prop :=
  Leaves does (fun _ => Promise s) World.secrets p

theorem promise_refl (s : Script) (w : World) : Promise s w w := ⟨.quiet rfl, fun _ h => h⟩

theorem calm_call {op : Op} (hop : op.leavesSecrets = true) : Calm s (call op) :=
  fun _ => keeps_perform fun _ _ hdoes =>
    have h := secrets_of_does hop hdoes
    ⟨⟨.quiet h.1, h.2⟩, h.1⟩

theorem secure_read {op : Op} {f : Returns op → Run α} {post : Except Failure α → World → Prop}
    (hop : op.reads = true) (hok : ∀ a, does w op (.ok a) w → Secure s (f a) post w)
    (herror : ∀ e, post (.error e) w) : Secure s (call op >>= f) post w := by
  refine keeps_perform fun a w' hdoes => ?_
  cases eq_of_reads hop hdoes
  refine ⟨promise_refl s w, ?_⟩
  cases a with
  | ok a => exact hok a hdoes
  | error e => exact herror e

theorem creates_cases {secret : Str} (h : Creates w s.account s.description secret w') :
    PlainSecret secret ∧ s.account ∈ w.accounts ∧ w'.accounts = w.accounts ∧ ∃ p : AppPassword,
      p.isOf s.account s.description = true ∧ p.secret = secret ∧ p.account = s.account ∧
        w'.secrets = (w.file, w.passwords ++ [p]) := by
  obtain ⟨haccount, hplain, id, -, rfl⟩ := h
  exact ⟨hplain, haccount, rfl, _, by simp [AppPassword.isOf], rfl, rfl, rfl⟩

theorem promise_of_creates {secret : Str} (hnone : w.recorded s.label = some none)
    (h : Creates w s.account s.description secret w') : Promise s w w' := by
  obtain ⟨-, haccount, haccounts, p, hp, -, hpaccount, hsecrets⟩ := creates_cases h
  exact ⟨.mint p hp (hpaccount ▸ haccount) hnone hsecrets, haccounts ▸ fun _ h => h⟩

theorem secure_record {p : AppPassword} (hlabel : PlainLabel s.label)
    (hends : EndsLine (w.file.getD [])) (hnone : w.recorded s.label = some none)
    (hplain : PlainSecret p.secret) (hlive : w.live s = [p]) :
    Secure s (do
      call (.append (secretLine s.label p.secret))
      call .chmod) (fun r w' => r = .ok () → Works s w') w := by
  refine keeps_perform fun a w₁ happend => ?_
  obtain ⟨rfl, ha⟩ | rfl := happend
  · cases a with
    | ok value => exact absurd rfl ha
    | error e => exact ⟨promise_refl s _, nofun⟩
  · refine ⟨⟨.record p.secret hplain hnone (fun q hq => ?_) rfl, fun _ h => h⟩, ?_⟩
    · rw [hlive, List.mem_singleton] at hq
      rw [hq]
    · cases a with
      | error e => exact nofun
      | ok value =>
        refine (calm_call rfl _).mono fun r w' hsecrets _ => works_of_secrets hsecrets ?_
        refine ⟨p, hlive ▸ List.mem_singleton.mpr rfl, ?_⟩
        rw [recorded_append hlabel hplain hends rfl, hnone, if_pos ⟨rfl, rfl⟩]

theorem secure_createAndRecord (hlabel : PlainLabel s.label) (hends : EndsLine (w.file.getD []))
    (hnone : w.recorded s.label = some none) (hlive : w.live s = []) :
    Secure s (createAndRecord s) (fun r w' => r = .ok () → Works s w') w := by
  refine keeps_perform fun a w₁ hcreate => ?_
  cases a with
  | error e =>
    obtain rfl | ⟨secret, hcreates⟩ := hcreate
    · exact ⟨promise_refl s _, nofun⟩
    · exact ⟨promise_of_creates hnone hcreates, nofun⟩
  | ok secret =>
    refine ⟨promise_of_creates hnone hcreate, ?_⟩
    obtain ⟨hplain, -, -, p, hp, rfl, -, hsecrets⟩ := creates_cases hcreate
    have hfile : w₁.file = w.file := congrArg Prod.fst hsecrets
    refine secure_record hlabel (hfile ▸ hends) ?_ hplain
      (live_append hp hlive (congrArg Prod.snd hsecrets))
    rw [World.recorded, hfile]
    exact hnone

theorem secure_recordedLocally : Secure s (recordedLocally s) (fun r w' => w' = w ∧
    ∀ b, r = .ok b → ∃ secret, w.recorded s.label = some secret ∧ b = secret.isSome) w := by
  refine secure_read rfl (fun file hfile => ?_) fun _ => ⟨rfl, fun b hb => by cases hb⟩
  obtain ⟨-, rfl⟩ := hfile
  cases hrecorded : loadRecordedSecret s.label w.file with
  | none => exact ⟨rfl, fun b hb => by cases hb⟩
  | some secret =>
    refine ⟨rfl, fun b hb => ⟨secret, hrecorded, ?_⟩⟩
    exact (Except.ok.inj hb).symm

/-- What a plan says of the world it is made in. -/
structure Means (s : Script) (w : World) (action : Action) : Prop where
  create : action = .create → w.live s = []
  fresh : action = .create → ¬ Stale s w → w.recorded s.label = some none
  none : action = .none → w.live s ≠ [] ∧ ∃ secret, w.recorded s.label = some (some secret)

theorem means_of_secrets {action : Action} (h : w'.secrets = w.secrets) (hw : Means s w action) :
    Means s w' action := by
  obtain ⟨hcreate, hfresh, hnone⟩ := hw
  refine ⟨?_, fun haction hstale => ?_, ?_⟩
  · rw [live_of_secrets h]
    exact hcreate
  · rw [recorded_of_secrets h]
    exact hfresh haction fun hw => hstale (stale_of_secrets h hw)
  · rw [live_of_secrets h, recorded_of_secrets h]
    exact hnone

theorem means_plan {existsRemotely : Bool} {secret : Option Str}
    (hexists : existsRemotely = true ↔ w.live s ≠ []) (hsecret : w.recorded s.label = some secret) :
    Means s w (planAppPasswordAction existsRemotely secret.isSome) := by
  have hlive : existsRemotely = false → w.live s = [] := by
    intro hfalse
    by_contra hne
    rw [hexists.mpr hne] at hfalse
    cases hfalse
  cases existsRemotely with
  | false =>
    refine ⟨fun _ => hlive rfl, fun _ hfresh => ?_, nofun⟩
    cases secret with
    | none => exact hsecret
    | some secret => exact absurd ⟨⟨secret, hsecret⟩, hlive rfl⟩ hfresh
  | true =>
    cases secret with
    | none => exact ⟨nofun, nofun, nofun⟩
    | some secret => exact ⟨nofun, nofun, fun _ => ⟨hexists.mp rfl, secret, hsecret⟩⟩

theorem works_of_means (h : Means s w .none) (hagrees : Agrees s w) : Works s w := by
  obtain ⟨hlive, secret, hsecret⟩ := h.none rfl
  obtain ⟨p, hp⟩ := List.exists_mem_of_ne_nil _ hlive
  exact ⟨p, hp, hagrees secret hsecret p hp ▸ hsecret⟩

theorem secure_existsOn (howned : Owned w) :
    Secure s (existsOn s (w.accounts.contains s.account)) (fun r w' => w' = w ∧
      ∀ existing, r = .ok existing → (existing = true ↔ w.live s ≠ [])) w := by
  cases haccount : w.accounts.contains s.account with
  | false =>
    refine ⟨rfl, fun existing h => ?_⟩
    have hlive : w.live s = [] := by
      rw [live_eq_nil_iff, List.any_eq_false]
      intro p hp hof
      have hmem := howned p hp
      rw [AppPassword.isOf, Bool.and_eq_true, beq_iff_eq] at hof
      rw [hof.1, ← List.contains_iff_mem, haccount] at hmem
      cases hmem
    rw [hlive, ← Except.ok.inj h]
    simp
  | true =>
    refine keeps_perform fun a w' hdoes => ?_
    cases eq_of_reads rfl hdoes
    refine ⟨promise_refl s w, rfl, fun existing h => ?_⟩
    subst h
    rw [hdoes.2, ne_eq, live_eq_nil_iff, Bool.not_eq_false]

theorem secure_planRun (howned : Owned w) : Secure s (planRun s) (fun r w' => w' = w ∧
    ∀ planned, r = .ok planned → Means s w planned.2 ∧ ¬ Stale s w) w := by
  refine secure_read rfl (fun accountExists hfound => ?_) fun _ => ⟨rfl, nofun⟩
  obtain ⟨-, rfl⟩ := hfound
  refine (secure_existsOn howned).bind (fun existing w₁ h₁ => ?_) fun _ _ h => ⟨h.1, nofun⟩
  obtain ⟨rfl, hexists⟩ := h₁
  refine secure_recordedLocally.bind (fun recorded w₂ h₂ => ?_) fun _ _ h => ⟨h.1, nofun⟩
  obtain ⟨rfl, hrecorded⟩ := h₂
  obtain ⟨secret, hsecret, rfl⟩ := hrecorded recorded rfl
  cases hrefused : secret.isSome && !existing with
  | true =>
    rw [planCredential, hrefused]
    exact ⟨rfl, nofun⟩
  | false =>
    rw [planCredential, hrefused]
    refine ⟨rfl, fun planned hplanned => ?_⟩
    cases hplanned
    refine ⟨means_plan (hexists existing rfl) hsecret, fun hstale => ?_⟩
    obtain ⟨⟨stale, hstale⟩, hnone⟩ := hstale
    cases hsecret.symm.trans hstale
    rw [Option.isSome_some, Bool.true_and, Bool.not_eq_false'] at hrefused
    exact (hexists existing rfl).mp hrefused hnone

theorem secure_provision (accountExists : Bool) {action : Action} (hlabel : PlainLabel s.label)
    (hends : EndsLine (w.file.getD [])) (hmeans : Means s w action) (hfresh : ¬ Stale s w)
    (horphaned : action ≠ .orphaned) :
    Secure s (provision s accountExists action)
      (fun r w' => r = .ok () → Agrees s w → Works s w') w := by
  have haccount : Calm s (ensureAccount s accountExists) :=
    leaves_ite (leaves_done _) (calm_call rfl)
  refine (haccount w).bind (fun _ w₁ hsecrets => ?_) nofun
  cases action with
  | orphaned => exact absurd rfl horphaned
  | none => exact fun _ hagrees => works_of_secrets hsecrets (works_of_means hmeans hagrees)
  | create =>
    have hfile : w₁.file = w.file := congrArg Prod.fst hsecrets
    refine (secure_createAndRecord hlabel (hfile ▸ hends) ?_ ?_).mono fun r w' h hr _ => h hr
    · rw [recorded_of_secrets hsecrets]
      exact hmeans.fresh rfl hfresh
    · rw [live_of_secrets hsecrets]
      exact hmeans.create rfl

end Parts

section Mains

variable {s : Script} {w : World} {mode : Mode}

theorem calm_require (b : Bool) (e : Failure) : Calm s (require b e) :=
  leaves_ite (leaves_done _) (leaves_done _)

theorem eq_of_require {b : Bool} {e : Failure} : Secure s (require b e) (fun _ w' => w' = w) w := by
  unfold require
  split <;> rfl

theorem secure_check {α β : Type} {r : Except Failure α} {f : α → Run β}
    {post : Except Failure β → World → Prop} (hok : ∀ a, r = .ok a → Secure s (f a) post w)
    (herror : ∀ e, post (.error e) w) : Secure s ((done r : Run α) >>= f) post w := by
  cases r with
  | ok a => exact hok a rfl
  | error e => exact herror e

theorem secure_actWebsite {action : Action} (hlabel : PlainLabel s.label)
    (hends : EndsLine (w.file.getD [])) (hmeans : Means s w action) (hfresh : ¬ Stale s w) :
    Secure s (actWebsite s action) (fun r w' => r = .ok 0 → Agrees s w → Works s w') w := by
  cases action with
  | orphaned => exact nofun
  | none => exact fun _ => works_of_means hmeans
  | create =>
    refine (secure_createAndRecord hlabel hends (hmeans.fresh rfl hfresh)
      (hmeans.create rfl)).bind (fun _ w₁ hworks => ?_) nofun
    exact fun _ _ => hworks rfl

theorem secure_mainWebsite (hlabel : PlainLabel s.label) (hends : EndsLine (w.file.getD []))
    (howned : Owned w) (hfresh : ¬ Stale s w) :
    Secure s (mainWebsite s) (fun r w' => r = .ok 0 → Agrees s w → Works s w') w := by
  refine secure_read rfl (fun _ _ => ?_) nofun
  refine secure_read rfl (fun names _ => ?_) nofun
  refine eq_of_require.bind (fun _ w₁ hw₁ => ?_) nofun
  cases hw₁
  refine secure_read rfl (fun accountExists hfound => ?_) nofun
  obtain ⟨-, rfl⟩ := hfound
  cases haccount : w.accounts.contains s.account with
  | false => exact nofun
  | true =>
    have hexists := secure_existsOn (s := s) howned
    rw [haccount] at hexists
    change Secure s (call (.appPasswordExists s.account s.description) >>= _) _ w
    refine hexists.bind (fun existing w₂ h₂ => ?_) nofun
    obtain ⟨rfl, hexisting⟩ := h₂
    refine secure_recordedLocally.bind (fun recorded w₃ h₃ => ?_) nofun
    obtain ⟨rfl, hrecorded⟩ := h₃
    obtain ⟨secret, hsecret, rfl⟩ := hrecorded recorded rfl
    exact secure_actWebsite hlabel hends (means_plan (hexisting existing rfl) hsecret) hfresh

theorem secure_finishZitadel {planned : Bool × Action} (hlabel : PlainLabel s.label)
    (hends : EndsLine (w.file.getD [])) (hmeans : Means s w planned.2) (hfresh : ¬ Stale s w) :
    Secure s (finishZitadel s mode planned)
      (fun r w' => r = .ok 0 → mode = .provision → Agrees s w → Works s w') w := by
  unfold finishZitadel
  split
  · exact nofun
  · rename_i horphaned
    split
    · rename_i hdry
      subst hdry
      exact fun _ => nofun
    · refine (secure_provision _ hlabel hends hmeans hfresh horphaned).bind
        (fun _ w₁ hworks => ?_) nofun
      exact fun _ _ => hworks rfl

theorem secure_runZitadel {address : Str} (hlabel : PlainLabel s.label)
    (hends : EndsLine (w.file.getD [])) (howned : Owned w) :
    Secure s (runZitadel s mode address)
      (fun r w' => r = .ok 0 → mode = .provision → Agrees s w → Works s w') w := by
  refine secure_read rfl (fun _ _ => ?_) nofun
  refine secure_read rfl (fun names _ => ?_) nofun
  refine eq_of_require.bind (fun _ w₁ hw₁ => ?_) nofun
  cases hw₁
  refine secure_read rfl (fun current _ => ?_) nofun
  refine secure_check (fun _ _ => ?_) nofun
  refine (secure_planRun howned).bind (fun planned w₂ h₂ => ?_) nofun
  obtain ⟨rfl, hplanned⟩ := h₂
  obtain ⟨hmeans, hfresh⟩ := hplanned planned rfl
  exact secure_finishZitadel hlabel hends hmeans hfresh

theorem calm_setScope (patches : Option Target × Option Target) : Calm s (setScope patches) := by
  refine leaves_bind ?_ fun _ => leaves_bind ?_ fun _ => leaves_ite ?_ (leaves_done _)
  · cases patches.1 with
    | none => exact leaves_done _
    | some patch => exact calm_call rfl
  · cases patches.2 with
    | none => exact leaves_done _
    | some patch => exact calm_call rfl
  · exact leaves_bind (calm_call rfl) fun _ => calm_call rfl

theorem calm_readBack (allowed matching : Target) : Calm s (readBack allowed matching) :=
  leaves_bind (calm_call rfl) fun _ => leaves_bind (calm_call rfl) fun _ =>
    leaves_bind (leaves_done _) fun _ => calm_require _ _

theorem secure_finishCollector {allowed matching : Target} {planned : Bool × Action}
    {patches : Option Target × Option Target} (hlabel : PlainLabel s.label)
    (hends : EndsLine (w.file.getD [])) (hmeans : Means s w planned.2) (hfresh : ¬ Stale s w) :
    Secure s (finishCollector s mode allowed matching patches planned)
      (fun r w' => r = .ok 0 → mode = .provision → Agrees s w → Works s w') w := by
  unfold finishCollector
  split
  · exact nofun
  · rename_i horphaned
    split
    · rename_i hdry
      subst hdry
      exact fun _ => nofun
    · refine (calm_setScope patches w).bind (fun _ w₁ h₁ => ?_) nofun
      have hfile : w₁.file = w.file := congrArg Prod.fst h₁
      have hprovision := secure_provision planned.1 hlabel (hfile ▸ hends)
        (means_of_secrets h₁ hmeans) (fun hstale => hfresh (stale_of_secrets h₁.symm hstale))
        horphaned
      refine hprovision.bind (fun _ w₂ hworks => ?_) nofun
      refine (calm_readBack allowed matching w₂).bind (fun _ w₃ h₃ => ?_) nofun
      exact fun _ _ hagrees => works_of_secrets h₃ (hworks rfl (agrees_of_secrets h₁ hagrees))

theorem secure_runCollector {allowed matching : Target} (hlabel : PlainLabel s.label)
    (hends : EndsLine (w.file.getD [])) (howned : Owned w) :
    Secure s (runCollector s mode allowed matching)
      (fun r w' => r = .ok 0 → mode = .provision → Agrees s w → Works s w') w := by
  refine secure_read rfl (fun _ _ => ?_) nofun
  refine secure_read rfl (fun names _ => ?_) nofun
  refine eq_of_require.bind (fun _ w₁ hw₁ => ?_) nofun
  cases hw₁
  refine secure_read rfl (fun mail _ => ?_) nofun
  refine secure_read rfl (fun mustMatchSender _ => ?_) nofun
  refine secure_check (fun patches _ => ?_) nofun
  refine (secure_planRun howned).bind (fun planned w₂ h₂ => ?_) nofun
  obtain ⟨rfl, hplanned⟩ := h₂
  obtain ⟨hmeans, hfresh⟩ := hplanned planned rfl
  exact secure_finishCollector hlabel hends hmeans hfresh

theorem secure_destroyOn (accountExists : Bool) :
    Secure s (destroyOn s accountExists) (fun _ _ => True) w := by
  unfold destroyOn
  split
  · refine secure_read rfl (fun ids _ => ?_) fun _ => trivial
    unfold destroyFound
    split
    · trivial
    · refine keeps_perform fun a w' hdoes => ?_
      obtain ⟨part, -, -, rfl⟩ := hdoes
      exact ⟨⟨.destroy _ List.filter_sublist rfl, fun _ h => h⟩, trivial⟩
  · trivial

theorem secure_removeRecord : Secure s (removeRecord s) (fun _ _ => True) w := by
  refine secure_read rfl (fun file hfile => ?_) fun _ => trivial
  obtain ⟨-, rfl⟩ := hfile
  split
  · trivial
  · rename_i text hremoved
    refine keeps_perform fun a w' hdoes => ?_
    obtain ⟨rfl, -⟩ | rfl := hdoes
    · exact ⟨promise_refl s _, trivial⟩
    · exact ⟨⟨.forget text hremoved rfl, fun _ h => h⟩, trivial⟩

theorem secure_findOn (domainExists : Bool) :
    Secure s (findOn s domainExists) (fun _ _ => True) w := by
  unfold findOn
  split
  · refine keeps_perform fun a w' hdoes => ?_
    cases eq_of_reads rfl hdoes
    exact ⟨promise_refl s w, trivial⟩
  · trivial

theorem secure_revoke : Secure s (revoke s) (fun _ _ => True) w := by
  refine secure_read rfl (fun _ _ => ?_) fun _ => trivial
  refine secure_read rfl (fun names _ => ?_) fun _ => trivial
  refine (secure_findOn _).bind (fun accountExists w₁ _ => ?_) fun _ _ _ => trivial
  refine (secure_destroyOn accountExists).bind (fun _ w₂ _ => ?_) fun _ _ _ => trivial
  exact secure_removeRecord.bind (fun _ _ _ => trivial) fun _ _ _ => trivial

variable {label : Str}

theorem secure_mainZitadel (hlabel : PlainLabel label) (hends : EndsLine (w.file.getD []))
    (howned : Owned w) :
    Secure (zitadel label) (mainZitadel label mode) (fun r w' => r = .ok 0 →
      mode = .provision → Agrees (zitadel label) w → Works (zitadel label) w') w := by
  unfold mainZitadel
  split
  · rename_i hrevoke
    subst hrevoke
    exact secure_revoke.mono fun _ _ _ _ => nofun
  · exact secure_runZitadel hlabel hends howned

theorem secure_mainCollector (hlabel : PlainLabel label) (hends : EndsLine (w.file.getD []))
    (howned : Owned w) :
    Secure (collector label) (mainCollector label mode) (fun r w' => r = .ok 0 →
      mode = .provision → Agrees (collector label) w → Works (collector label) w') w := by
  unfold mainCollector
  split
  · rename_i hrevoke
    subst hrevoke
    exact secure_revoke.mono fun _ _ _ _ => nofun
  · exact secure_runCollector hlabel hends howned

end Mains

section Sharing

/-- The scripts that share a credentials file, under labels of their own. -/
structure Setup where
  websites : List Script
  zitadelLabel : Str
  collectorLabel : Str
  plain : ∀ s ∈ zitadel zitadelLabel :: collector collectorLabel :: websites,
    PlainLabel s.label ∧ strip s.label = s.label
  apart : ∀ s ∈ zitadel zitadelLabel :: collector collectorLabel :: websites,
    ∀ t ∈ zitadel zitadelLabel :: collector collectorLabel :: websites, s ≠ t →
      s.label ≠ t.label ∧ ¬ (s.account = t.account ∧ s.description = t.description)

variable (u : Setup)

def Setup.scripts : List Script :=
  zitadel u.zitadelLabel :: collector u.collectorLabel :: u.websites

def GoodLine (line : Str) : Prop :=
  ∃ label secret, splitColon line = some (label, secret) ∧
    ∀ s ∈ u.scripts, strip label = s.label → label = s.label

/-- What every state of a history keeps. -/
structure Sound (w : World) : Prop where
  owned : Owned w
  ends : EndsLine (w.file.getD [])
  lines : ∀ line ∈ textLines (w.file.getD []), GoodLine u line
  agrees : ∀ s ∈ u.scripts, Agrees s w

variable {u} {s t : Script} {w w' : World}

theorem isOf_apart (h : ¬ (s.account = t.account ∧ s.description = t.description))
    {p : AppPassword} (hp : p.isOf s.account s.description = true) :
    p.isOf t.account t.description = false := by
  simp only [AppPassword.isOf, Bool.and_eq_true, beq_iff_eq, Bool.and_eq_false_iff,
    beq_eq_false_iff_ne] at hp ⊢
  obtain ⟨haccount, hdescription⟩ := hp
  rw [haccount, hdescription]
  exact not_and_or.mp h

theorem agrees_of_sublist (hfile : w'.file = w.file) (hsub : w'.passwords.Sublist w.passwords)
    (hw : Agrees s w) : Agrees s w' := by
  intro secret hsecret p hp
  rw [World.recorded, hfile] at hsecret
  exact hw secret hsecret p ((hsub.filter _).subset hp)

theorem owned_of_sublist (haccounts : w.accounts ⊆ w'.accounts)
    (hsub : w'.passwords.Sublist w.passwords) (hw : Owned w) : Owned w' :=
  fun p hp => haccounts (hw p (hsub.subset hp))

theorem sound_of_secrets (h : w'.secrets = w.secrets) (haccounts : w.accounts ⊆ w'.accounts)
    (hw : Sound u w) : Sound u w' := by
  have hfile : w'.file = w.file := congrArg Prod.fst h
  have hpasswords : w'.passwords = w.passwords := congrArg Prod.snd h
  exact ⟨owned_of_sublist haccounts (hpasswords ▸ .refl _) hw.owned, hfile ▸ hw.ends,
    hfile ▸ hw.lines, fun s hs => agrees_of_secrets h (hw.agrees s hs)⟩

theorem sound_of_destroy (hfile : w'.file = w.file) (haccounts : w.accounts ⊆ w'.accounts)
    (hsub : w'.passwords.Sublist w.passwords) (hw : Sound u w) : Sound u w' :=
  ⟨owned_of_sublist haccounts hsub hw.owned, hfile ▸ hw.ends, hfile ▸ hw.lines,
    fun s hs => agrees_of_sublist hfile hsub (hw.agrees s hs)⟩

theorem sound_of_mint (hs : s ∈ u.scripts) {p : AppPassword}
    (hp : p.isOf s.account s.description = true) (haccount : p.account ∈ w.accounts)
    (hnone : w.recorded s.label = some none) (h : w'.secrets = (w.file, w.passwords ++ [p]))
    (haccounts : w.accounts ⊆ w'.accounts) (hw : Sound u w) : Sound u w' := by
  have hfile : w'.file = w.file := congrArg Prod.fst h
  have hpasswords : w'.passwords = w.passwords ++ [p] := congrArg Prod.snd h
  refine ⟨fun q hq => ?_, hfile ▸ hw.ends, hfile ▸ hw.lines, fun t ht secret hsecret q hq => ?_⟩
  · rw [hpasswords] at hq
    rcases List.mem_append.mp hq with hq | hq
    · exact haccounts (hw.owned q hq)
    · rw [List.mem_singleton.mp hq]
      exact haccounts haccount
  · rw [World.recorded, hfile] at hsecret
    by_cases hst : s = t
    · subst hst
      cases hnone.symm.trans hsecret
    · have hnot := isOf_apart (u.apart s hs t ht hst).2 hp
      rw [World.live, hpasswords, List.filter_append, List.filter_cons_of_neg (by simp [hnot]),
        List.filter_nil, List.append_nil] at hq
      exact hw.agrees t ht secret hsecret q hq

theorem sound_of_record (hs : s ∈ u.scripts) {secret : Str} (hplain : PlainSecret secret)
    (hnone : w.recorded s.label = some none) (hlive : ∀ p ∈ w.live s, p.secret = secret)
    (h : w'.secrets = (some (w.file.getD [] ++ secretLine s.label secret), w.passwords))
    (haccounts : w.accounts ⊆ w'.accounts) (hw : Sound u w) :
    Sound u w' ∧ ∀ label, label ≠ s.label → w'.recorded label = w.recorded label := by
  have hfile : w'.file = some (w.file.getD [] ++ secretLine s.label secret) := congrArg Prod.fst h
  have hpasswords : w'.passwords = w.passwords := congrArg Prod.snd h
  obtain ⟨hlabel, hstrip⟩ := u.plain s hs
  have hrecorded := recorded_append hlabel hplain hw.ends hfile
  have hothers : ∀ label, label ≠ s.label → w'.recorded label = w.recorded label := by
    intro label hne
    rw [hrecorded, if_neg fun h => hne h.2.symm]
  refine ⟨⟨owned_of_sublist haccounts (hpasswords ▸ .refl _) hw.owned, ?_, ?_, ?_⟩, hothers⟩
  · rw [hfile, Option.getD_some]
    exact endsLine_append (by simp [secretLine]) (endsLine_secretLine _ _)
  · rw [hfile, Option.getD_some, textLines_append hw.ends, textLines_secretLine hlabel hplain,
      List.forall_mem_append, List.forall_mem_singleton]
    refine ⟨hw.lines, s.label, secret, splitColon_line hlabel.colon secret, fun t _ heq => ?_⟩
    exact hstrip.symm.trans heq
  · intro t ht stored hstored q hq
    rw [World.live, hpasswords] at hq
    by_cases hst : s = t
    · subst hst
      rw [hrecorded, hnone, if_pos ⟨rfl, rfl⟩] at hstored
      cases hstored
      exact hlive q hq
    · rw [hothers _ (Ne.symm (u.apart s hs t ht hst).1)] at hstored
      exact hw.agrees t ht stored hstored q hq

theorem sound_of_forget (hs : s ∈ u.scripts) {text : Str}
    (hremoved : removeRecordedSecret s.label w.file = some text)
    (h : w'.secrets = (some text, w.passwords)) (haccounts : w.accounts ⊆ w'.accounts)
    (hw : Sound u w) :
    Sound u w' ∧ ∀ label, label ≠ s.label → w'.recorded label = w.recorded label := by
  have hfile : w'.file = some text := congrArg Prod.fst h
  have hpasswords : w'.passwords = w.passwords := congrArg Prod.snd h
  have htext : text = (keptLines s.label (w.file.getD [])).flatten := by
    unfold removeRecordedSecret at hremoved
    split at hremoved
    · cases hremoved
    · split at hremoved
      · cases hremoved
      · rename_i before hbefore _
        rw [hbefore]
        exact (Option.some.inj hremoved).symm
  have hlines : textLines (w'.file.getD []) =
      (textLines (w.file.getD [])).filter fun line => lineKey line != s.label := by
    rw [hfile, Option.getD_some, htext, textLines_kept hw.ends]
  have hothers : ∀ label, label ≠ s.label → w'.recorded label = w.recorded label := by
    intro label hne
    rw [World.recorded, World.recorded, loadRecordedSecret_eq, loadRecordedSecret_eq, hlines]
    refine lookupLine_filter fun line hline hdropped => ?_
    obtain ⟨other, secret, hsplit, hpadded⟩ := hw.lines line hline
    refine ⟨other, secret, hsplit, fun heq => hne ?_⟩
    rw [bne_eq_false_iff_eq, splitColon_key hsplit] at hdropped
    rw [← heq]
    exact hpadded s hs hdropped
  have hgone : w'.recorded s.label = some none := by
    rw [World.recorded, loadRecordedSecret_eq, hlines]
    refine lookupLine_eq_none fun line hline => ?_
    obtain ⟨hline, hkept⟩ := List.mem_filter.mp hline
    obtain ⟨other, secret, hsplit, -⟩ := hw.lines line hline
    refine ⟨other, secret, hsplit, ?_⟩
    rintro rfl
    rw [splitColon_key hsplit, (u.plain s hs).2, bne_self_eq_false] at hkept
    cases hkept
  refine ⟨⟨owned_of_sublist haccounts (hpasswords ▸ .refl _) hw.owned, ?_, ?_, ?_⟩, hothers⟩
  · rw [hfile, Option.getD_some, htext]
    exact endsLine_kept hw.ends
  · rw [hlines]
    exact fun line hline => hw.lines line (List.mem_of_mem_filter hline)
  · intro t ht stored hstored q hq
    rw [World.live, hpasswords] at hq
    by_cases hst : s = t
    · subst hst
      cases hgone.symm.trans hstored
    · rw [hothers _ (Ne.symm (u.apart s hs t ht hst).1)] at hstored
      exact hw.agrees t ht stored hstored q hq

theorem sound_of_step (hs : s ∈ u.scripts) (h : Promise s w w') (hw : Sound u w) :
    Sound u w' ∧ ∀ label, label ≠ s.label → w'.recorded label = w.recorded label := by
  obtain ⟨hstep, haccounts⟩ := h
  have hsame : w'.file = w.file → ∀ label, label ≠ s.label →
      w'.recorded label = w.recorded label := by
    intro hfile label _
    rw [World.recorded, World.recorded, hfile]
  cases hstep with
  | quiet h => exact ⟨sound_of_secrets h haccounts hw, hsame (congrArg Prod.fst h)⟩
  | mint p hp haccount hnone h =>
    exact ⟨sound_of_mint hs hp haccount hnone h haccounts hw, hsame (congrArg Prod.fst h)⟩
  | record secret hplain hnone hlive h =>
    exact sound_of_record hs hplain hnone hlive h haccounts hw
  | destroy passwords hsub h =>
    have hpasswords : w'.passwords = passwords := congrArg Prod.snd h
    exact ⟨sound_of_destroy (congrArg Prod.fst h) haccounts (hpasswords ▸ hsub) hw,
      hsame (congrArg Prod.fst h)⟩
  | forget text hremoved h => exact sound_of_forget hs hremoved h haccounts hw

end Sharing

section Histories

/-- A run of one of the scripts. -/
inductive Job (u : Setup) where
  | websiteScript (s : Script) (h : s ∈ u.websites)
  | zitadelScript (mode : Mode)
  | collectorScript (mode : Mode)

variable {u : Setup}

def Job.script : Job u → Script
  | .websiteScript s _ => s
  | .zitadelScript _ => zitadel u.zitadelLabel
  | .collectorScript _ => collector u.collectorLabel

def Job.main : Job u → Run Nat
  | .websiteScript s _ => mainWebsite s
  | .zitadelScript mode => mainZitadel u.zitadelLabel mode
  | .collectorScript mode => mainCollector u.collectorLabel mode

/-- Neither a dry run nor a revocation. -/
def Job.provisions : Job u → Prop
  | .websiteScript _ _ => True
  | .zitadelScript mode => mode = .provision
  | .collectorScript mode => mode = .provision

def Job.isWebsite : Job u → Prop
  | .websiteScript _ _ => True
  | _ => False

/-- A run in a history: where it started and ended, and whether it provisioned and returned 0. -/
structure Entry (u : Setup) where
  job : Job u
  before : World
  after : World
  green : Prop

variable (u) (start : World)

/-- Runs one after another, each of which may end at any of its operations, with app passwords
destroyed by hand in between. -/
inductive Runs : List (Entry u) → World → Prop where
  | start : Runs [] start
  | byHand {runs : List (Entry u)} {w : World} {passwords : List AppPassword}
      (h : Runs runs w) (hsub : passwords.Sublist w.passwords) :
      Runs runs { w with passwords }
  | stopped {runs : List (Entry u)} {w w' : World} (job : Job u) (h : Runs runs w)
      (hrun : Passes does job.main w w') : Runs (runs ++ [⟨job, w, w', False⟩]) w'
  | green {runs : List (Entry u)} {w w' : World} (job : Job u) (hjob : job.provisions)
      (h : Runs runs w) (hrun : Exec does job.main w (.ok 0) w') :
      Runs (runs ++ [⟨job, w, w', True⟩]) w'

variable {u start} {runs : List (Entry u)} {w w' : World} {job : Job u}

theorem Job.script_mem (job : Job u) : job.script ∈ u.scripts := by
  cases job with
  | websiteScript s h => exact List.mem_cons_of_mem _ (List.mem_cons_of_mem _ h)
  | zitadelScript mode => exact List.mem_cons_self
  | collectorScript mode => exact List.mem_cons_of_mem _ List.mem_cons_self

theorem secure_main (hw : Sound u w) (hfresh : job.isWebsite → ¬ Stale job.script w) :
    Secure job.script job.main
      (fun r w' => r = .ok 0 → job.provisions → Agrees job.script w → Works job.script w') w := by
  have hlabel := (u.plain _ job.script_mem).1
  cases job with
  | websiteScript s h =>
    refine (secure_mainWebsite hlabel hw.ends hw.owned (hfresh trivial)).mono ?_
    exact fun r w' h hr _ => h hr
  | zitadelScript mode => exact secure_mainZitadel hlabel hw.ends hw.owned
  | collectorScript mode => exact secure_mainCollector hlabel hw.ends hw.owned

theorem sound_of_passes (hw : Sound u w) (hfresh : job.isWebsite → ¬ Stale job.script w)
    (hrun : Passes does job.main w w') :
    Sound u w' ∧ ∀ label, label ≠ job.script.label → w'.recorded label = w.recorded label := by
  have hsteps := (secure_main hw hfresh).steps_alone hrun
  clear hrun hfresh
  induction hsteps with
  | refl => exact ⟨hw, fun _ _ => rfl⟩
  | tail _ hlast ih =>
    obtain ⟨hsound, hothers⟩ := sound_of_step job.script_mem hlast ih.1
    exact ⟨hsound, fun label hne => (hothers label hne).trans (ih.2 label hne)⟩

def Fresh (runs : List (Entry u)) : Prop :=
  ∀ run ∈ runs, run.job.isWebsite → ¬ Stale run.job.script run.before

theorem sound_of_history (hstart : Sound u start) (h : Runs u start runs w)
    (hfresh : Fresh runs) : Sound u w := by
  induction h with
  | start => exact hstart
  | byHand _ hsub ih =>
    refine sound_of_destroy ?_ ?_ hsub (ih hfresh)
    · rfl
    · exact fun _ h => h
  | stopped job _ hrun ih =>
    obtain ⟨hbefore, hlast⟩ := List.forall_mem_append.mp hfresh
    exact (sound_of_passes (ih hbefore) (hlast _ (List.mem_singleton.mpr rfl)) hrun).1
  | green job _ _ hrun ih =>
    obtain ⟨hbefore, hlast⟩ := List.forall_mem_append.mp hfresh
    exact (sound_of_passes (ih hbefore) (hlast _ (List.mem_singleton.mpr rfl))
      (passes_of_exec hrun)).1

/-- Every run that returns 0 leaves the secret of a live app password under its label, and every
run leaves the lookups of the other labels, if no website script is run at a stale record. -/
theorem recorded_secrets_work (hstart : Sound u start) (h : Runs u start runs w)
    (hfresh : Fresh runs) : ∀ run ∈ runs, (run.green → Works run.job.script run.after) ∧
      ∀ label, label ≠ run.job.script.label →
        run.after.recorded label = run.before.recorded label := by
  induction h with
  | start => exact nofun
  | byHand _ _ ih => exact ih hfresh
  | stopped job hhistory hrun ih =>
    obtain ⟨hbefore, hlast⟩ := List.forall_mem_append.mp hfresh
    refine List.forall_mem_append.mpr ⟨ih hbefore, List.forall_mem_singleton.mpr ⟨nofun, ?_⟩⟩
    exact (sound_of_passes (sound_of_history hstart hhistory hbefore)
      (hlast _ (List.mem_singleton.mpr rfl)) hrun).2
  | green job hjob hhistory hrun ih =>
    obtain ⟨hbefore, hlast⟩ := List.forall_mem_append.mp hfresh
    have hsound := sound_of_history hstart hhistory hbefore
    have hjobfresh := hlast _ (List.mem_singleton.mpr rfl)
    refine List.forall_mem_append.mpr
      ⟨ih hbefore, List.forall_mem_singleton.mpr ⟨fun _ => ?_, ?_⟩⟩
    · exact (secure_main hsound hjobfresh).result_alone hrun rfl hjob
        (hsound.agrees _ job.script_mem)
    · exact (sound_of_passes hsound hjobfresh (passes_of_exec hrun)).2

end Histories

def contactForm : Script where
  domain := mainDomain
  account := address "info".toList mainDomain
  description := "website-contact-form-submission".toList
  label := "info-website-submission".toList

theorem plainLabel_of_letters {label : Str}
    (h : (label.all fun c => c != ':' && !isSpace c) = true) :
    PlainLabel label ∧ strip label = label := by
  have hletter : ∀ c ∈ label, c ≠ ':' ∧ isSpace c = false := by
    intro c hc
    have hc := List.all_eq_true.mp h c hc
    rwa [Bool.and_eq_true, bne_iff_ne, Bool.not_eq_true'] at hc
  have hspace : ∀ c, isSpace c = true → c ∉ label := by
    intro c hc hmem
    rw [(hletter c hmem).2] at hc
    cases hc
  refine ⟨⟨fun hmem => (hletter _ hmem).1 rfl, hspace _ (by decide), hspace _ (by decide), ?_⟩,
    strip_of_noSpace fun c hc => (hletter c hc).2⟩
  exact fun c hc => (hletter c (List.mem_of_mem_head? hc)).2

def shared : Setup where
  websites := [contactForm]
  zitadelLabel := "zitadel-smtp".toList
  collectorLabel := collectorLabel
  plain := by
    intro s hs
    fin_cases hs <;> exact plainLabel_of_letters (by decide)
  apart := by decide

def minting : Handler Op Ans World
  | w, .createAppPassword account description =>
    if account ∈ w.accounts ∧ 0 ∉ w.passwords.map AppPassword.id then
      (.ok "new".toList,
        { w with passwords := w.passwords ++ [⟨0, account, description, "new".toList⟩] })
    else (.error .urlError, w)
  | w, op => server true w op

def mailbox (file : Option Str) : World where
  stored := ⟨.null, .null⟩
  loaded := ⟨.null, .null⟩
  rewrite := .null
  script := .null
  domains := [mainDomain]
  accounts := [contactForm.account]
  passwords := []
  file := file
  replaced := []

theorem does_minting (w : World) (op : Op) : does w op (minting w op).1 (minting w op).2 := by
  cases op with
  | createAppPassword account description =>
    by_cases h : account ∈ w.accounts ∧ 0 ∉ w.passwords.map AppPassword.id
    · simp only [minting, if_pos h]
      have hletters : ("new".toList.all fun c => !isSpace c) = true := by decide
      refine ⟨h.1, fun c hc => ?_, 0, h.2, rfl⟩
      rw [← Bool.not_eq_true']
      exact List.all_eq_true.mp hletters c hc
    · simp only [minting, if_neg h]
      exact .inl rfl
  | _ => exact does_server true w _

def stale : Str := secretLine contactForm.label "old".toList

theorem stale_run : (mainWebsite contactForm).run minting (mailbox (some stale)) =
    (.ok 0, { mailbox (some (stale ++ secretLine contactForm.label "new".toList)) with
      passwords := [⟨0, contactForm.account, contactForm.description, "new".toList⟩] }) := by
  rfl

/-- Beside a stale record the website script returns 0, and the stale secret is what is read. -/
theorem stale_record_shadows :
    ∃ runs w, Runs shared (mailbox (some stale)) runs w ∧
      ∃ run ∈ runs, run.green ∧ ¬ Works run.job.script run.after := by
  have hexec := exec_run does_minting (mainWebsite contactForm) (mailbox (some stale))
  rw [stale_run] at hexec
  let job : Job shared := .websiteScript contactForm (List.mem_singleton.mpr rfl)
  refine ⟨_, _, Runs.start.green job trivial hexec, _, List.mem_singleton.mpr rfl, trivial, ?_⟩
  rintro ⟨p, hp, hrecorded⟩
  rw [List.mem_singleton.mp hp] at hrecorded
  exact absurd hrecorded (by decide)

theorem fresh_run : (mainWebsite contactForm).run minting (mailbox none) =
    (.ok 0, { mailbox (some (secretLine contactForm.label "new".toList)) with
      passwords := [⟨0, contactForm.account, contactForm.description, "new".toList⟩] }) := by
  rfl

theorem sound_mailbox : Sound shared (mailbox none) where
  owned := nofun
  ends := .inl rfl
  lines := nofun
  agrees _ _ := nofun

/-- Without a record the secret of the app password that was created is what is read. -/
theorem recorded_secret_works_for_one : Works contactForm
    { mailbox (some (secretLine contactForm.label "new".toList)) with
      passwords := [⟨0, contactForm.account, contactForm.description, "new".toList⟩] } := by
  have hexec := exec_run does_minting (mainWebsite contactForm) (mailbox none)
  rw [fresh_run] at hexec
  let job : Job shared := .websiteScript contactForm (List.mem_singleton.mpr rfl)
  have hworks := recorded_secrets_work sound_mailbox (Runs.start.green job trivial hexec)
    (fun run hrun _ hstale => ?_) _ (List.mem_singleton.mpr rfl)
  · exact hworks.1 trivial
  · rw [List.mem_singleton.mp hrun] at hstale
    exact absurd hstale.1 nofun

end Submission
end SharedInfra.Mail
