import SharedInfra.Mail.SecretLines
import SharedInfra.Effects.Succession

/-!
# Provisioning the mailboxes

`_load_recorded_secrets`, `resolve_mailbox_secret`, `_record_mailbox_secret`,
`_reconcile_accounts` and `main` of `provision_mailboxes.py`.  The world is the credentials
file and the accounts of the server; an append may reach the file in part, and an account
may be created although the answer is lost (`does`).
-/

namespace SharedInfra.Mail
namespace Mailboxes

open Python Effects Prog

/-- `_load_recorded_secrets`, over the text of the file; `none` is a `ValueError`. -/
def loadRecordedSecrets (file : Option Str) : Option (List (Str × Str)) :=
  match file with
  | none => some []
  | some text => (textLines text).mapM splitColon

/-- The secret a `dict` holds for a name; of several the last counts. -/
def secretOf (recorded : List (Str × Str)) (mailbox : Str) : Option Str :=
  recorded.reverse.lookup mailbox

def missingMailboxes (mailboxes existingNames : List Str) : List Str :=
  mailboxes.filter fun mailbox => !existingNames.contains mailbox

/-- A call that fails; what it did may have been done. -/
inductive Failure where
  | urlError
  | rejected
  | osError
  | valueError
deriving DecidableEq

inductive Op where
  | loadAdminCredentials
  | getDomainId
  | getExistingAccountNames
  | readRecordedSecrets
  | tokenUrlsafe
  | append (line : Str)
  | chmod
  | createAccount (mailbox secret : Str)
  | reconcileRoleSieveScript (mailbox : Str)

abbrev Returns : Op → Type
  | .getExistingAccountNames => List Str
  | .readRecordedSecrets => Option Str
  | .tokenUrlsafe => Str
  | _ => Unit

abbrev Ans (op : Op) : Type := Except Failure (Returns op)

abbrev Run (α : Type) := Prog Op Ans Failure α

def call (op : Op) : Run (Returns op) := perform op fun answer => done answer

def resolveMailboxSecret (mailbox : Str) (recorded : List (Str × Str)) : Run Str :=
  match secretOf recorded mailbox with
  | some secret => done (.ok secret)
  | none => call .tokenUrlsafe

def recordMailboxSecret (mailbox secret : Str) : Run Unit := do
  call (.append (secretLine mailbox secret))
  call .chmod

/-- `_record_mailbox_secret` where the secret is not recorded yet. -/
def recordIfNew (recorded : List (Str × Str)) (mailbox secret : Str) : Run Unit :=
  match secretOf recorded mailbox with
  | some _ => done (.ok ())
  | none => recordMailboxSecret mailbox secret

/-- One turn of the loop of `_reconcile_accounts`. -/
def createMailbox (recorded : List (Str × Str)) (mailbox : Str) : Run Unit := do
  let secret ← resolveMailboxSecret mailbox recorded
  recordIfNew recorded mailbox secret
  call (.createAccount mailbox secret)

def parsed (file : Option Str) : Run (List (Str × Str)) :=
  match loadRecordedSecrets file with
  | none => done (.error .valueError)
  | some recorded => done (.ok recorded)

def reconcileAccounts (mailboxes : List Str) : Run Unit := do
  let existing ← call .getExistingAccountNames
  let file ← call .readRecordedSecrets
  let recorded ← parsed file
  forEach (missingMailboxes mailboxes existing) (createMailbox recorded)

def main (mailboxes roleAddresses : List Str) : Run Unit := do
  call .loadAdminCredentials
  call .getDomainId
  reconcileAccounts mailboxes
  forEach roleAddresses fun mailbox => call (.reconcileRoleSieveScript mailbox)

/-- The credentials file, the accounts that were there, and those a run has created, each with
the secret it was created with. -/
structure World where
  file : Option Str
  others : List Str
  created : List (Str × Str)

def World.names (w : World) : List Str := w.others ++ w.created.map Prod.fst

/-- The letters of `secrets.token_urlsafe`. -/
def isTokenLetter (c : Char) : Bool := c.isAlphanum || c == '-' || c == '_'

/-- What an operation may do, with its answer. -/
def does (w : World) : (op : Op) → Ans op → World → Prop
  | .getExistingAccountNames, .ok names, w' => w' = w ∧ names = w.names
  | .readRecordedSecrets, .ok file, w' => w' = w ∧ file = w.file
  | .tokenUrlsafe, .ok secret, w' => w' = w ∧ secret.length = 43 ∧ secret.all isTokenLetter = true
  | .append line, answer, w' => w'.others = w.others ∧ w'.created = w.created ∧
      (w' = w ∧ answer ≠ .ok () ∨
        ∃ reached, reached <+: line ∧ w'.file = some (w.file.getD [] ++ reached) ∧
          (answer = .ok () → reached = line))
  | .createAccount mailbox secret, answer, w' =>
    (w' = w ∧ answer ≠ .ok ()) ∨ (mailbox ∉ w.names ∧ answer ≠ .error .rejected ∧
      w' = { w with created := w.created ++ [(mailbox, secret)] })
  | _, _, w' => w' = w

/-!
# Every mailbox can be logged into

A run records a secret before it creates the account with it, so the file gives back the
secret of every account at every moment (`secrets_kept`), as long as no line is left
unfinished before another is appended to it (`Calm`).
-/

section Recorded

variable {file : Option Str} {recorded : List (Str × Str)} {mailbox other secret text : Str}

def secretAt (w : World) (mailbox : Str) : Option Str :=
  (loadRecordedSecrets w.file).bind fun recorded => secretOf recorded mailbox

theorem secretOf_append (recorded : List (Str × Str)) (mailbox secret other : Str) :
    secretOf (recorded ++ [(mailbox, secret)]) other =
      if other = mailbox then some secret else secretOf recorded other := by
  rw [secretOf, List.reverse_append, List.reverse_singleton, List.singleton_append,
    List.lookup_cons]
  by_cases h : other = mailbox
  · simp [h]
  · rw [if_neg h, beq_eq_false_iff_ne.mpr h]
    rfl

theorem loadRecordedSecrets_append {lines : List (Str × Str)} (hfile : EndsLine (file.getD []))
    (hrecorded : loadRecordedSecrets file = some recorded)
    (hlines : (textLines text).mapM splitColon = some lines) :
    loadRecordedSecrets (some (file.getD [] ++ text)) = some (recorded ++ lines) := by
  have hbefore : (textLines (file.getD [])).mapM splitColon = some recorded := by
    cases file with
    | none => exact hrecorded
    | some before => exact hrecorded
  rw [loadRecordedSecrets, textLines_append hfile, List.mapM_append, hbefore, hlines]
  rfl

theorem mapM_reached {reached : Str} (hlabel : PlainLabel mailbox) (hsecret : PlainSecret secret)
    (hreached : reached <+: secretLine mailbox secret) (hcolon : ':' ∈ reached) :
    ∃ part, (textLines reached).mapM splitColon = some [(mailbox, part)] ∧
      (reached = secretLine mailbox secret → part = secret) := by
  obtain ⟨after, hafter⟩ := hreached
  rw [secretLine, List.append_assoc, List.cons_append, List.append_eq_append_iff] at hafter
  obtain ⟨rest, hrest, -⟩ | ⟨rest, rfl, hrest⟩ := hafter
  · exact absurd (hrest ▸ List.mem_append_left _ hcolon) hlabel.colon
  · cases rest with
    | nil => exact absurd (by simpa using hcolon) hlabel.colon
    | cons c part =>
      rw [List.cons_append, List.cons.injEq] at hrest
      obtain ⟨rfl, hrest⟩ := hrest
      have hpart : part <+: secret ++ ['\n'] := ⟨after, hrest.symm⟩
      rcases List.prefix_concat_iff.mp hpart with rfl | hpart
      · refine ⟨secret, ?_, fun _ => rfl⟩
        have hwhole : mailbox ++ ':' :: (secret ++ ['\n']) = secretLine mailbox secret := by
          rw [secretLine, List.append_assoc, List.cons_append]
        rw [hwhole, textLines_secretLine hlabel hsecret]
        simp [splitColon_line hlabel.colon]
      · have hplain : PlainSecret part := fun c hc => hsecret c (hpart.subset hc)
        refine ⟨part, ?_, fun hwhole => ?_⟩
        · rw [textLines_unfinished hlabel hplain]
          simp [splitColon_line hlabel.colon]
        · rw [secretLine, List.append_assoc, List.cons_append] at hwhole
          have hsame := (List.cons.inj (List.append_cancel_left hwhole)).2
          rw [hsame] at hpart
          exact absurd hpart.length_le (by simp)

end Recorded

section Steps

variable {w w' : World} {recorded : List (Str × Str)} {mailbox secret : Str}

/-- Every account that a run created has its secret in the file, which can be read. -/
def Sound (w : World) : Prop :=
  ∃ recorded, loadRecordedSecrets w.file = some recorded ∧
    ∀ account ∈ w.created, secretOf recorded account.1 = some account.2

/-- The condition on a step: a line is appended to a finished one, and reaches the file up to its
colon if at all. -/
def Calm (w : World) : (op : Op) → World → Prop
  | .append _, w' => EndsLine (w.file.getD []) ∧
      ∀ reached, w'.file = some (w.file.getD [] ++ reached) → reached = [] ∨ ':' ∈ reached
  | _, _ => True

def calmly (w : World) (op : Op) (a : Ans op) (w' : World) : Prop := does w op a w' ∧ Calm w op w'

/-- The promise of a run: what is read back stays. -/
def Guarantees (_ : Unit) (w w' : World) : Prop :=
  Sound w' ∧ ∀ mailbox secret, secretAt w mailbox = some secret → secretAt w' mailbox = some secret

theorem Sound.secretAt (h : Sound w) : ∀ account ∈ w.created,
    secretAt w account.1 = some account.2 := by
  obtain ⟨recorded, hrecorded, haccounts⟩ := h
  intro account haccount
  rw [Mailboxes.secretAt, hrecorded]
  exact haccounts account haccount

theorem guarantees_refl (h : Sound w) : Guarantees () w w := ⟨h, fun _ _ h => h⟩

theorem plainSecret_of_token (h : secret.all isTokenLetter = true) : PlainSecret secret := by
  intro c hc
  have hletter := List.all_eq_true.mp h c hc
  simp only [isTokenLetter, Bool.or_eq_true, beq_iff_eq, Char.isAlphanum, Char.isAlpha] at hletter
  rcases hletter with ((((hupper | hlower) | hdigit) | rfl) | rfl)
  · have hrange := toNat_of_isUpper hupper
    simp only [isSpace, Bool.or_eq_false_iff, Bool.and_eq_false_iff, decide_eq_false_iff_not,
      beq_eq_false_iff_ne]
    omega
  · have hrange := toNat_of_isLower hlower
    simp only [isSpace, Bool.or_eq_false_iff, Bool.and_eq_false_iff, decide_eq_false_iff_not,
      beq_eq_false_iff_ne]
    omega
  · have hrange := toNat_of_isDigit hdigit
    simp only [isSpace, Bool.or_eq_false_iff, Bool.and_eq_false_iff, decide_eq_false_iff_not,
      beq_eq_false_iff_ne]
    omega
  · decide
  · decide

theorem append_step {a : Ans (.append (secretLine mailbox secret))}
    (hlabel : PlainLabel mailbox) (hsecret : PlainSecret secret) (hsound : Sound w)
    (hnone : secretAt w mailbox = none)
    (h : calmly w (.append (secretLine mailbox secret)) a w') :
    Guarantees () w w' ∧ (a = .ok () → secretAt w' mailbox = some secret) ∧
      ∀ other, other ≠ mailbox → secretAt w' other = secretAt w other := by
  obtain ⟨⟨-, hcreated, hdoes⟩, hends, hcalm⟩ := h
  obtain ⟨rfl, hanswer⟩ | ⟨reached, hbegins, hfile, hwhole⟩ := hdoes
  · exact ⟨guarantees_refl hsound, fun hok => absurd hok hanswer, fun _ _ => rfl⟩
  · obtain ⟨recorded, hrecorded, haccounts⟩ := hsound
    have hnone' : secretOf recorded mailbox = none := by
      rw [secretAt, hrecorded] at hnone
      exact hnone
    have hsame : ∀ other, secretAt w other = secretOf recorded other := by
      intro other
      rw [secretAt, hrecorded]
      rfl
    rcases hcalm reached hfile with rfl | hcolon
    · have hrecorded' : loadRecordedSecrets w'.file = some recorded := by
        have hnothing : (textLines []).mapM splitColon = some ([] : List (Str × Str)) := rfl
        have hload := loadRecordedSecrets_append hends hrecorded hnothing
        rw [List.append_nil recorded] at hload
        rw [hfile]
        exact hload
      have hsame' : ∀ other, secretAt w' other = secretAt w other := by
        intro other
        rw [hsame, secretAt, hrecorded']
        rfl
      refine ⟨⟨⟨recorded, hrecorded', by rw [hcreated]; exact haccounts⟩, ?_⟩, ?_, ?_⟩
      · exact fun other s h => (hsame' other).trans h
      · exact fun hok => absurd (hwhole hok) (by simp [secretLine])
      · exact fun other _ => hsame' other
    · obtain ⟨part, hpart, hfull⟩ := mapM_reached hlabel hsecret hbegins hcolon
      have hrecorded' := loadRecordedSecrets_append hends hrecorded hpart
      rw [← hfile] at hrecorded'
      have hsame' : ∀ other, secretAt w' other =
          if other = mailbox then some part else secretAt w other := by
        intro other
        rw [hsame, secretAt, hrecorded']
        exact secretOf_append recorded mailbox part other
      have hkept : ∀ other s, secretAt w other = some s → secretAt w' other = some s := by
        intro other s h
        rw [hsame', if_neg, h]
        rintro rfl
        cases hnone.symm.trans h
      refine ⟨⟨⟨_, hrecorded', fun account haccount => ?_⟩, hkept⟩, fun hok => ?_, fun other hne => ?_⟩
      · rw [hcreated] at haccount
        have hbefore := (hsame account.1).trans (haccounts account haccount)
        have hafter := hkept _ _ hbefore
        rw [secretAt, hrecorded'] at hafter
        exact hafter
      · rw [hsame', if_pos rfl, hfull (hwhole hok)]
      · rw [hsame', if_neg hne]

theorem create_step {a : Ans (.createAccount mailbox secret)} (hsound : Sound w)
    (hsecret : secretAt w mailbox = some secret)
    (h : calmly w (.createAccount mailbox secret) a w') :
    Guarantees () w w' ∧ w'.file = w.file := by
  obtain ⟨⟨rfl, -⟩ | ⟨-, -, rfl⟩, -⟩ := h
  · exact ⟨guarantees_refl hsound, rfl⟩
  · obtain ⟨recorded, hrecorded, haccounts⟩ := hsound
    refine ⟨⟨⟨recorded, hrecorded, fun account haccount => ?_⟩, fun _ _ h => h⟩, rfl⟩
    rcases List.mem_append.mp haccount with hold | hnew
    · exact haccounts account hold
    · rw [List.mem_singleton.mp hnew]
      rw [secretAt, hrecorded] at hsecret
      exact hsecret

end Steps

section Runs

variable {w w' : World} {recorded : List (Str × Str)} {mailbox : Str}

/-- An operation that changes nothing. -/
def Reads (op : Op) : Prop := ∀ w a w', does w op a w' → w' = w

theorem keeps_read {α : Type} {op : Op} {next : Ans op → Run α}
    {post : Except Failure α → World → Prop} (hread : Reads op) (hsound : Sound w)
    (hnext : ∀ a, does w op a w → (next a).Keeps (fun _ : Unit => calmly) Guarantees () post w) :
    (perform op next).Keeps (fun _ : Unit => calmly) Guarantees () post w := by
  refine keeps_perform fun a w' hdoes => ?_
  cases hread w a w' hdoes.1
  exact ⟨guarantees_refl hsound, hnext a hdoes.1⟩

theorem reads_token : Reads .tokenUrlsafe := by
  intro w a w' h
  cases a with
  | ok secret => exact h.1
  | error e => exact h

theorem reads_names : Reads .getExistingAccountNames := by
  intro w a w' h
  cases a with
  | ok names => exact h.1
  | error e => exact h

theorem reads_file : Reads .readRecordedSecrets := by
  intro w a w' h
  cases a with
  | ok file => exact h.1
  | error e => exact h

theorem reads_chmod : Reads .chmod := fun _ _ _ h => h

/-- What a turn of the loop leaves: the file is sound, and the other mailboxes have what they had. -/
def AfterTurn (before : World) (mailbox : Str) (r : Except Failure Unit) (w : World) : Prop :=
  Sound w ∧ (r = .ok () → ∀ other, other ≠ mailbox → secretAt w other = secretAt before other)

theorem create_keeps {before : World} {secret : Str} (hsound : Sound w)
    (hsecret : secretAt w mailbox = some secret)
    (hothers : ∀ other, other ≠ mailbox → secretAt w other = secretAt before other) :
    (call (.createAccount mailbox secret)).Keeps (fun _ : Unit => calmly) Guarantees ()
      (AfterTurn before mailbox) w := by
  refine keeps_perform fun a w' hdoes => ?_
  obtain ⟨hguar, hfile⟩ := create_step hsound hsecret hdoes
  refine ⟨hguar, hguar.1, fun _ other hne => ?_⟩
  rw [secretAt, hfile]
  exact hothers other hne

theorem createMailbox_keeps (hlabel : PlainLabel mailbox) (hsound : Sound w)
    (hread : secretAt w mailbox = secretOf recorded mailbox) :
    (createMailbox recorded mailbox).Keeps (fun _ : Unit => calmly) Guarantees ()
      (AfterTurn w mailbox) w := by
  unfold createMailbox resolveMailboxSecret recordIfNew
  cases hrecorded : secretOf recorded mailbox with
  | some secret => exact create_keeps hsound (hread.trans hrecorded) fun _ _ => rfl
  | none =>
    refine keeps_read reads_token hsound fun a htoken => ?_
    cases a with
    | error e => exact ⟨hsound, nofun⟩
    | ok secret =>
      have hplain := plainSecret_of_token htoken.2.2
      refine keeps_perform fun a w₁ happend => ?_
      obtain ⟨hguar, hwritten, hothers⟩ :=
        append_step hlabel hplain hsound (hread.trans hrecorded) happend
      refine ⟨hguar, ?_⟩
      cases a with
      | error e => exact ⟨hguar.1, nofun⟩
      | ok _ =>
        refine keeps_read reads_chmod hguar.1 fun a _ => ?_
        cases a with
        | error e => exact ⟨hguar.1, nofun⟩
        | ok _ => exact create_keeps hguar.1 (hwritten rfl) hothers

theorem forEach_keeps {missing : List Str} (hlabels : ∀ mailbox ∈ missing, PlainLabel mailbox)
    (hdistinct : missing.Nodup) (hsound : Sound w)
    (hread : ∀ mailbox ∈ missing, secretAt w mailbox = secretOf recorded mailbox) :
    (forEach missing (createMailbox recorded)).Keeps (fun _ : Unit => calmly) Guarantees ()
      (fun _ w' => Sound w') w := by
  induction missing generalizing w with
  | nil => exact hsound
  | cons mailbox missing ih =>
    rw [List.nodup_cons] at hdistinct
    rw [List.forall_mem_cons] at hlabels hread
    refine (createMailbox_keeps hlabels.1 hsound hread.1).bind ?_ fun _ _ h => h.1
    rintro _ w' ⟨hsound', hothers⟩
    refine ih hlabels.2 hdistinct.2 hsound' fun other hother => ?_
    have hne : other ≠ mailbox := by
      rintro rfl
      exact hdistinct.1 hother
    rw [hothers rfl other hne]
    exact hread.2 other hother

theorem reconcileAccounts_keeps {mailboxes : List Str} (hdistinct : mailboxes.Nodup)
    (hlabels : ∀ mailbox ∈ mailboxes, PlainLabel mailbox) (hsound : Sound w) :
    (reconcileAccounts mailboxes).Keeps (fun _ : Unit => calmly) Guarantees ()
      (fun _ w' => Sound w') w := by
  refine keeps_read reads_names hsound fun a _ => ?_
  cases a with
  | error e => exact hsound
  | ok names =>
    refine keeps_read reads_file hsound fun a hfile => ?_
    cases a with
    | error e => exact hsound
    | ok file =>
      obtain ⟨-, rfl⟩ := hfile
      obtain ⟨recorded, hrecorded, haccounts⟩ := id hsound
      have hparsed : parsed w.file = done (.ok recorded) := by
        rw [parsed, hrecorded]
      change (parsed w.file >>= _).Keeps _ _ _ _ _
      rw [hparsed]
      refine forEach_keeps (fun mailbox hmem => ?_) (hdistinct.filter _) hsound fun _ _ => ?_
      · exact hlabels mailbox (List.mem_of_mem_filter hmem)
      · rw [secretAt, hrecorded]
        rfl

theorem main_keeps {mailboxes roleAddresses : List Str} (hdistinct : mailboxes.Nodup)
    (hlabels : ∀ mailbox ∈ mailboxes, PlainLabel mailbox) (hsound : Sound w) :
    (main mailboxes roleAddresses).Keeps (fun _ : Unit => calmly) Guarantees ()
      (fun _ _ => True) w := by
  have hplain : ∀ op, (∀ w (a : Ans op) w', does w op a w' → w' = w) → ∀ w, Sound w →
      (call op).Keeps (fun _ : Unit => calmly) Guarantees () (fun _ w' => Sound w') w :=
    fun op hread w hsound => keeps_read hread hsound fun _ _ => hsound
  refine (hplain .loadAdminCredentials (fun _ _ _ h => h) w hsound).bind ?_ fun _ _ _ => trivial
  intro _ w₁ hsound
  refine (hplain .getDomainId (fun _ _ _ h => h) w₁ hsound).bind ?_ fun _ _ _ => trivial
  intro _ w₂ hsound
  refine (reconcileAccounts_keeps hdistinct hlabels hsound).bind ?_ fun _ _ _ => trivial
  intro _ w₃ hsound
  have hloop : (forEach roleAddresses fun mailbox => call (.reconcileRoleSieveScript mailbox)).Keeps
      (fun _ : Unit => calmly) Guarantees () (fun _ w' => Sound w') w₃ :=
    keeps_forEach (fun mailbox _ w hsound =>
      hplain (.reconcileRoleSieveScript mailbox) (fun _ _ _ h => h) w hsound) hsound
  exact hloop.mono fun _ _ _ => trivial

/-- In a succession of calm runs over distinct mailboxes, the file gives back the secret of every
account from the moment it exists, and what it gives back between two runs it gives back ever
after. -/
theorem secrets_kept {mailboxes roleAddresses : List Str} {start : World}
    {rest : Option (Run Unit)} (hdistinct : mailboxes.Nodup)
    (hlabels : ∀ mailbox ∈ mailboxes, PlainLabel mailbox)
    (hcreated : start.created = []) (hfile : loadRecordedSecrets start.file ≠ none)
    (h : Moment calmly {main mailboxes roleAddresses} start w rest) :
    (∀ account ∈ w.created, secretAt w account.1 = some account.2) ∧
      ∀ later rest', Moment calmly {main mailboxes roleAddresses} w later rest' →
        ∀ mailbox secret, secretAt w mailbox = some secret → secretAt later mailbox = some secret := by
  have hkeeps : ∀ p ∈ ({main mailboxes roleAddresses} : Set (Run Unit)), ∀ w, Sound w →
      p.Keeps (fun _ : Unit => calmly) Guarantees () (fun _ _ => True) w := by
    rintro _ rfl w hsound
    exact main_keeps hdistinct hlabels hsound
  have hstart : Sound start := by
    obtain ⟨recorded, hrecorded⟩ := Option.ne_none_iff_exists'.mp hfile
    refine ⟨recorded, hrecorded, ?_⟩
    rw [hcreated]
    exact nofun
  have hsound : Sound w :=
    (inv_and_keeps_of_moment Sound hkeeps (fun _ _ _ hstep => hstep.1) hstart h).1
  refine ⟨hsound.secretAt, fun later rest' hlater mailbox secret hsecret => ?_⟩
  have hinv := inv_and_keeps_of_moment (fun w => Sound w ∧ secretAt w mailbox = some secret)
    (fun p hp w hinv => hkeeps p hp w hinv.1)
    (fun w w' hinv hstep => ⟨hstep.1, hstep.2 mailbox secret hinv.2⟩) ⟨hsound, hsecret⟩ hlater
  exact hinv.1.2

end Runs

/-- A server with no accounts, and an empty file. -/
def fresh : World := { file := none, others := [], created := [] }

/-- A machine whose file ends a line early, when it takes `room` letters of it. -/
def machine (room : Nat) (token : Str) : Handler Op Ans World
  | w, .getExistingAccountNames => (.ok w.names, w)
  | w, .readRecordedSecrets => (.ok w.file, w)
  | w, .tokenUrlsafe => (.ok token, w)
  | w, .append line =>
    if line.length ≤ room then (.ok (), { w with file := some (w.file.getD [] ++ line) })
    else (.error .osError, { w with file := some (w.file.getD [] ++ line.take room) })
  | w, .createAccount mailbox secret =>
    if mailbox ∈ w.names then (.error .rejected, w)
    else (.ok (), { w with created := w.created ++ [(mailbox, secret)] })
  | w, .loadAdminCredentials => (.ok (), w)
  | w, .getDomainId => (.ok (), w)
  | w, .chmod => (.ok (), w)
  | w, .reconcileRoleSieveScript _ => (.ok (), w)

theorem does_machine {room : Nat} {token : Str} (hlength : token.length = 43)
    (hletters : token.all isTokenLetter = true) (w : World) (op : Op) :
    does w op (machine room token w op).1 (machine room token w op).2 := by
  cases op with
  | getExistingAccountNames => exact ⟨rfl, rfl⟩
  | readRecordedSecrets => exact ⟨rfl, rfl⟩
  | tokenUrlsafe => exact ⟨rfl, hlength, hletters⟩
  | append line =>
    simp only [machine]
    split
    · exact ⟨rfl, rfl, .inr ⟨line, List.prefix_refl _, rfl, fun _ => rfl⟩⟩
    · exact ⟨rfl, rfl, .inr ⟨line.take room, List.take_prefix _ _, rfl, nofun⟩⟩
  | createAccount mailbox secret =>
    simp only [machine]
    split
    · exact .inl ⟨rfl, nofun⟩
    · rename_i hmem
      exact .inr ⟨hmem, nofun, rfl⟩
  | loadAdminCredentials => rfl
  | getDomainId => rfl
  | chmod => rfl
  | reconcileRoleSieveScript _ => rfl

def firstToken : Str := List.replicate 43 'a'

def secondToken : Str := List.replicate 43 'b'

/-- What is left of a run that stops inside its first line, and of the one after it. -/
def afterTorn : World :=
  ((main ["contact".toList, "info".toList] []).run (machine 11 firstToken) fresh).2

def afterBoth : World :=
  ((main ["contact".toList, "info".toList] []).run (machine 100 secondToken) afterTorn).2

/-- The second line runs into the first, which was left unfinished. -/
theorem torn_line_breaks_a_secret :
    ∃ w, Moment does {main ["contact".toList, "info".toList] []} fresh w none ∧
      ("contact".toList, "aaa".toList) ∈ w.created ∧
      secretAt w "contact".toList ≠ some ("aaa".toList) := by
  have hfirst : Moment does {main ["contact".toList, "info".toList] []} fresh afterTorn none :=
    moment_of_exec rfl .start (exec_run (does_machine (by decide) (by decide)) _ _)
  have hboth : Moment does {main ["contact".toList, "info".toList] []} fresh afterBoth none :=
    moment_of_exec rfl hfirst (exec_run (does_machine (by decide) (by decide)) _ _)
  refine ⟨afterBoth, hboth, ?_, ?_⟩
  · decide
  · decide

/-- The world after one run over one mailbox. -/
def afterOne : World :=
  { file := some (secretLine "contact".toList firstToken), others := []
    created := [("contact".toList, firstToken)] }

theorem secrets_kept_for_one :
    secretAt afterOne "contact".toList = some firstToken := by
  have hnames : calmly fresh .getExistingAccountNames (.ok []) fresh := ⟨⟨rfl, rfl⟩, trivial⟩
  have hread : calmly fresh .readRecordedSecrets (.ok none) fresh := ⟨⟨rfl, rfl⟩, trivial⟩
  have htoken : calmly fresh .tokenUrlsafe (.ok firstToken) fresh :=
    ⟨⟨rfl, by decide, by decide⟩, trivial⟩
  have happend : calmly fresh (.append (secretLine "contact".toList firstToken)) (.ok ())
      { afterOne with created := [] } := by
    refine ⟨⟨rfl, rfl, .inr ⟨_, List.prefix_refl _, rfl, fun _ => rfl⟩⟩, .inl rfl, ?_⟩
    rintro reached hreached
    cases hreached
    exact .inr (by decide)
  have hcreate : calmly { afterOne with created := [] }
      (.createAccount "contact".toList firstToken) (.ok ()) afterOne :=
    ⟨.inr ⟨by decide, by decide, rfl⟩, trivial⟩
  have hexec : Exec calmly (main ["contact".toList] []) fresh (.ok ()) afterOne :=
    .perform (a := .ok ()) ⟨rfl, trivial⟩ <| .perform (a := .ok ()) ⟨rfl, trivial⟩ <|
      .perform hnames <| .perform hread <| .perform htoken <| .perform happend <|
      .perform (a := .ok ()) ⟨rfl, trivial⟩ <| .perform hcreate .done
  have hlabel : ∀ mailbox ∈ ["contact".toList], PlainLabel mailbox := by
    intro mailbox hmailbox
    cases List.mem_singleton.mp hmailbox
    exact ⟨by decide, by decide, by decide, by rintro _ ⟨⟩; rfl⟩
  exact (secrets_kept (by decide) hlabel rfl (by decide) (moment_of_exec rfl .start hexec)).1
    ("contact".toList, firstToken) (List.mem_singleton.mpr rfl)

end Mailboxes
end SharedInfra.Mail
