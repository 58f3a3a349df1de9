import SharedInfra.StorageProbe.Probe

/-!
# The bucket after a run

No request changes the bucket before the pre-flight has seen it without a policy, a lifecycle
and objects (`guarded_main`).  Where no version is under the probe key beforehand, what the
teardown does not undo it reports (`bucket_restored_or_reported`).
-/

namespace SharedInfra.StorageProbe

open Python Effects Prog

section Guard

variable {α : Type} (args : Args)

/-- The pre-flight has seen no policy, no lifecycle and no objects. -/
def Saw (past : Prog.History Request Ans) : Prop :=
  ∃ policy lifecycle listing : Response, ⟨.getPolicy, .ok policy⟩ ∈ past ∧ isAbsent policy = true ∧
    ⟨.getLifecycle, .ok lifecycle⟩ ∈ past ∧ isAbsent lifecycle = true ∧
    ⟨.listObjects, .ok listing⟩ ∈ past ∧ listing.ok = true ∧ countContents listing.body = some 0

def mayBeSent (past : Prog.History Request Ans) (r : Request) : Prop :=
  r.changes = true → endsWith args.bucket protectedSuffix = false ∧ Saw past

variable {args} {past : Prog.History Request Ans}

theorem Saw.append (h : Saw past) (more : Prog.History Request Ans) : Saw (past ++ more) := by
  obtain ⟨policy, lifecycle, listing, hpolicy, habsent, hlifecycle, habsent', hlisting, hok⟩ := h
  exact ⟨policy, lifecycle, listing, List.mem_append_left _ hpolicy, habsent,
    List.mem_append_left _ hlifecycle, habsent', List.mem_append_left _ hlisting, hok⟩

theorem guarded_of_saw (hname : endsWith args.bucket protectedSuffix = false) (p : Run α)
    (h : Saw past) : p.Guarded (mayBeSent args) (fun _ _ => True) past := by
  induction p generalizing past with
  | done r => trivial
  | perform op next ih => exact ⟨fun _ => ⟨hname, h⟩, fun a => ih a (h.append _)⟩

theorem absent_of_refusalOf {present question : String} {r : Response}
    (h : refusalOf present question r = []) : isAbsent r = true := by
  unfold refusalOf at h
  split at h
  · cases h
  · split at h
    · assumption
    · cases h

theorem empty_of_refusalOfListing {r : Response} (h : refusalOfListing r = []) :
    r.ok = true ∧ countContents r.body = some 0 := by
  unfold refusalOfListing at h
  cases hok : r.ok with
  | false =>
    rw [hok] at h
    cases h
  | true =>
    rw [hok] at h
    simp only [if_true] at h
    split at h
    · cases h
    · rename_i hcount
      exact ⟨rfl, hcount⟩
    · cases h

theorem guarded_afterPreflight (hname : endsWith args.bucket protectedSuffix = false)
    {refusals : List Str} (h : refusals = [] → Saw past) :
    (afterPreflight args.bucket (.ok refusals)).Guarded (mayBeSent args) (fun _ _ => True)
      past := by
  cases refusals with
  | nil => exact guarded_of_saw hname _ (h rfl)
  | cons refusal refusals => trivial

theorem guarded_main : (main args).Guarded (mayBeSent args) (fun _ _ => True) [] := by
  unfold main
  split
  · trivial
  · rename_i hname
    rw [Bool.not_eq_true] at hname
    split
    · trivial
    · refine ⟨nofun, fun policy => ?_⟩
      cases policy with
      | error e => cases e <;> trivial
      | ok policy =>
        refine ⟨nofun, fun lifecycle => ?_⟩
        cases lifecycle with
        | error e => cases e <;> trivial
        | ok lifecycle =>
          refine ⟨nofun, fun listing => ?_⟩
          cases listing with
          | error e => cases e <;> trivial
          | ok listing =>
            refine guarded_afterPreflight hname fun h => ?_
            obtain ⟨h, hlisting⟩ := List.append_eq_nil_iff.mp h
            obtain ⟨hpolicy, hlifecycle⟩ := List.append_eq_nil_iff.mp h
            obtain ⟨hok, hcount⟩ := empty_of_refusalOfListing hlisting
            exact ⟨policy, lifecycle, listing, by simp, absent_of_refusalOf hpolicy, by simp,
              absent_of_refusalOf hlifecycle, by simp, hok, hcount⟩

end Guard

section Steps

variable {α : Type} {w w' : World} {r : Request}

/-- A request was carried out, or nothing was. -/
def Reached (w : World) (r : Request) (w' : World) : Prop :=
  w'.bucket = w.bucket ∨ Carried w.bucket r w'.bucket

theorem reached_of_does {answer : Ans r} (h : does w r answer w') : Reached w r w' := by
  unfold does at h
  split at h
  · split at h
    · obtain ⟨-, b, hb, rfl⟩ := h
      exact .inr hb
    · obtain rfl | ⟨b, hb, rfl⟩ := h
      · exact .inl rfl
      · exact .inr hb
  · obtain rfl | ⟨b, hb, rfl⟩ := h
    · exact .inl rfl
    · exact .inr hb
  · obtain rfl | ⟨b, hb, rfl⟩ := h
    · exact .inl rfl
    · exact .inr hb

theorem bucket_of_read (h : Reached w r w') (hr : r.changes = false) : w'.bucket = w.bucket := by
  obtain h | h := h
  · exact h
  · generalize hb : w'.bucket = b at h
    cases h with
    | read => rfl
    | _ => cases hr

/-- The request has been carried out, and answered properly. -/
structure Done (w : World) (r : Request) (answer : Response) (w' : World) : Prop where
  proper : Proper w.bucket r answer
  carried : Carried w.bucket r w'.bucket

theorem done_of_does {answer : Response} (h : does w r (.ok answer) w')
    (hok : answer.ok = true) : Done w r answer w' := by
  simp only [does, hok, if_true] at h
  obtain ⟨hproper, b, hb, rfl⟩ := h
  exact ⟨hproper, hb⟩

theorem exec_request {res : Except Raised Response} (h : Exec does (request r) w res w') :
    does w r res w' := by
  obtain ⟨a, mid, hdoes, hdone⟩ := exec_perform h
  obtain ⟨rfl, rfl⟩ := exec_done hdone
  exact hdoes

/-- The items that a run may leave behind. -/
inductive Item where
  | policy
  | lifecycle
  | versions
  | versioning
deriving DecidableEq

def Step.item : Step → Item
  | .removePolicy => .policy
  | .removeLifecycle => .lifecycle
  | .listVersions => .versions
  | .deleteVersion _ _ => .versions
  | .restoreVersioning _ => .versioning
  | .suspendVersioning => .versioning

def Failure.item : Failure → Option Item
  | .incomplete step => some step.item
  | .refused step _ => some step.item
  | .unparsed => some .versions
  | .unknownVersioning => some .versioning
  | .teardownRaised => none

def Listed (failures : List Failure) (item : Item) : Prop := ∃ f ∈ failures, f.item = some item

theorem Listed.append_left {failures : List Failure} {item : Item} (h : Listed failures item)
    (others : List Failure) : Listed (failures ++ others) item := by
  obtain ⟨f, hf, hitem⟩ := h
  exact ⟨f, List.mem_append_left _ hf, hitem⟩

theorem Listed.append_right {failures : List Failure} {item : Item} (h : Listed failures item)
    (others : List Failure) : Listed (others ++ failures) item := by
  obtain ⟨f, hf, hitem⟩ := h
  exact ⟨f, List.mem_append_right _ hf, hitem⟩

theorem exec_attemptStep {step : Step} {resp : Option Response} {failures : List Failure}
    (h : Exec does (attemptStep step r) w (.ok (resp, failures)) w') :
    Reached w r w' ∧ ((∃ answer, resp = some answer ∧ answer.ok = true ∧ failures = [] ∧
      Done w r answer w') ∨
      (Listed failures step.item ∧ ∀ answer, resp = some answer → answer.ok = false)) := by
  obtain ⟨res, mid, hrequest, hjudged⟩ := exec_resume h
  have hdoes := exec_request hrequest
  rcases res with _ | answer
  · rename_i e
    cases e with
    | other =>
      obtain ⟨hbad, -⟩ := exec_done hjudged
      cases hbad
    | probeError =>
      obtain ⟨hres, rfl⟩ := exec_done hjudged
      cases hres
      exact ⟨reached_of_does hdoes, .inr ⟨⟨_, List.mem_singleton.mpr rfl, rfl⟩, nofun⟩⟩
  · obtain ⟨hres, rfl⟩ := exec_done hjudged
    cases hres
    refine ⟨reached_of_does hdoes, ?_⟩
    cases hok : answer.ok with
    | true => exact .inl ⟨answer, rfl, hok, by simp, done_of_does hdoes hok⟩
    | false =>
      refine .inr ⟨⟨.refused step answer.describe, by simp, rfl⟩, fun other hother => ?_⟩
      cases hother
      exact hok

end Steps

section Versions

variable {start b b' : Bucket} {n : Nat} {w w' : World}

/-- What a run keeps of the versions of a bucket: those that were there, and of its own at most
`n`, all of the probe object. -/
structure Stays (start : Bucket) (n : Nat) (b : Bucket) : Prop where
  earlier : b.versions.filter (fun v => !v.own) = start.versions
  probe : ∀ v ∈ b.versions, v.own = true → v.key = probeKey ∧ v.id ≠ []
  few : (b.versions.filter Version.own).length ≤ n

/-- No version is under the probe key, and none is the run's own. -/
def Untouched (start : Bucket) : Prop :=
  ∀ v ∈ start.versions, startsWith v.key probeKey = false ∧ v.own = false

theorem stays_start (h : Untouched start) : Stays start 0 start := by
  refine ⟨List.filter_eq_self.mpr fun v hv => by rw [(h v hv).2]; rfl, fun v hv hown => ?_, ?_⟩
  · rw [(h v hv).2] at hown
    cases hown
  · rw [List.filter_eq_nil_iff.mpr fun v hv => by rw [(h v hv).2]; decide]
    exact le_rfl

theorem startsWith_self (s : Str) : startsWith s s = true := by
  rw [startsWith, List.isPrefixOf_iff_prefix]

theorem key_ne_of_untouched (h : Untouched start) {v : Version} (hv : v ∈ start.versions) :
    v.key ≠ probeKey := by
  intro heq
  have hkey := (h v hv).1
  rw [heq, startsWith_self] at hkey
  cases hkey

theorem Stays.filter (h : Stays start n b) {keep : Version → Bool}
    (hkeep : ∀ v ∈ start.versions, keep v = true) (hb : b'.versions = b.versions.filter keep) :
    Stays start n b' := by
  refine ⟨?_, fun v hv hown => ?_, ?_⟩
  · rw [hb, List.filter_filter]
    have hcomm : (fun v => !v.own && keep v) = fun v => keep v && !v.own :=
      funext fun v => Bool.and_comm _ _
    rw [hcomm, ← List.filter_filter, h.earlier]
    exact List.filter_eq_self.mpr hkeep
  · rw [hb] at hv
    exact h.probe v (List.mem_of_mem_filter hv) hown
  · rw [hb]
    exact (List.Sublist.length_le (List.filter_sublist.filter _)).trans h.few

theorem Stays.cons (h : Stays start n b) {id : Str} (hid : id ≠ [])
    (hb : b'.versions = ⟨probeKey, id, false, true⟩ :: b.versions) : Stays start (n + 1) b' := by
  refine ⟨?_, fun v hv hown => ?_, ?_⟩
  · rw [hb, List.filter_cons_of_neg (by simp), h.earlier]
  · rw [hb] at hv
    rcases List.mem_cons.mp hv with rfl | hv
    · exact ⟨rfl, hid⟩
    · exact h.probe v hv hown
  · rw [hb, List.filter_cons_of_pos rfl, List.length_cons]
    exact Nat.succ_le_succ h.few

theorem Stays.mono (h : Stays start n b) {m : Nat} (hle : n ≤ m) : Stays start m b :=
  ⟨h.earlier, h.probe, h.few.trans hle⟩

theorem Stays.of_versions (h : Stays start n b) (hb : b'.versions = b.versions) :
    Stays start n b' := by
  obtain ⟨hearlier, hprobe, hfew⟩ := h
  exact ⟨hb ▸ hearlier, hb ▸ hprobe, hb ▸ hfew⟩

theorem stays_put (hstart : Untouched start) (h : Stays start n b) {id : Str} (hid : id ≠ []) :
    Stays start (n + 1) (b.put probeKey id) := by
  have hreplaced : Stays start n ⟨b.policy, b.lifecycle, b.versioning,
      b.versions.filter fun v => !(v.key == probeKey && v.id == "null".toList)⟩ := by
    refine h.filter (fun v hv => ?_) rfl
    rw [beq_eq_false_iff_ne.mpr (key_ne_of_untouched hstart hv)]
    rfl
  unfold Bucket.put
  split
  · exact h.cons hid rfl
  · exact hreplaced.cons (by decide) rfl

theorem stays_delete (hstart : Untouched start) (h : Stays start n b) {key id : Str}
    (hkey : startsWith key probeKey = true) : Stays start n (b.delete key id) := by
  refine h.filter (fun v hv => ?_) rfl
  have hne : v.key ≠ key := by
    rintro rfl
    rw [(hstart v hv).1] at hkey
    cases hkey
  rw [beq_eq_false_iff_ne.mpr hne]
  rfl

/-- What a request may change. -/
def Request.touches : Request → Option Item
  | .putPolicy _ => some .policy
  | .deletePolicy => some .policy
  | .putLifecycle _ => some .lifecycle
  | .deleteLifecycle => some .lifecycle
  | .putVersioning _ => some .versioning
  | .putObject _ _ => some .versions
  | .deleteVersion _ _ => some .versions
  | _ => none

def Same (b b' : Bucket) : Item → Prop
  | .policy => b'.policy = b.policy
  | .lifecycle => b'.lifecycle = b.lifecycle
  | .versions => b'.versions = b.versions
  | .versioning => b'.versioning = b.versioning

theorem same_refl (b : Bucket) (item : Item) : Same b b item := by
  cases item <;> rfl

theorem Same.trans {item : Item} {b'' : Bucket} (h : Same b b' item) (h' : Same b' b'' item) :
    Same b b'' item := by
  cases item
  all_goals exact Eq.trans h' h

theorem same_put (b : Bucket) (key id : Str) {item : Item} (h : item ≠ .versions) :
    Same b (b.put key id) item := by
  unfold Bucket.put
  cases item with
  | versions => exact absurd rfl h
  | _ => split <;> rfl

theorem same_of_reached {r : Request} {item : Item} (h : Reached w r w')
    (hr : r.touches ≠ some item) : Same w.bucket w'.bucket item := by
  obtain h | h := h
  · rw [h]
    exact same_refl _ item
  · generalize w'.bucket = b at h
    cases h with
    | read => exact same_refl _ item
    | putObject key content id =>
      exact same_put w.bucket key id fun heq => hr (congrArg some heq.symm)
    | _ => cases item <;> first | rfl | exact absurd rfl hr

end Versions

section Probing

variable {α β : Type} {w w' : World} {start : Bucket} {n : Nat}

/-- Whatever a program raises, a property of the bucket holds at its end. -/
abbrev Ends (p : Run α) (post : Bucket → Prop) (w : World) : Prop :=
  p.Keeps (fun _ : Unit => does) (fun _ _ _ => True) () (fun _ w' => post w'.bucket) w

abbrev LeavesVersions (p : Run α) : Prop :=
  Leaves does (fun _ _ _ => True) (fun w : World => w.bucket.versions) p

theorem leavesVersions_request {r : Request} (hr : r.touches ≠ some .versions) :
    LeavesVersions (request r) :=
  fun _ => keeps_perform fun _ _ hdoes =>
    ⟨trivial, same_of_reached (reached_of_does hdoes) hr⟩

theorem ends_of_leaves {p : Run α} (hp : LeavesVersions p) (h : Stays start n w.bucket) :
    Ends p (Stays start n) w :=
  (hp w).mono fun _ _ hversions => h.of_versions hversions

theorem ends_bind {p : Run α} {f : α → Run β} {post : Bucket → Prop} {m : Nat}
    (hp : Ends p (Stays start m) w)
    (hf : ∀ a w', Stays start m w'.bucket → Ends (f a) post w')
    (herror : ∀ b, Stays start m b → post b) : Ends (p >>= f) post w :=
  hp.bind (fun a w' h => hf a w' h) fun _ _ h => herror _ h

theorem ends_putAll (hstart : Untouched start) : ∀ {contents : List Str} {n : Nat} {w : World},
    Stays start n w.bucket → Ends (putAll contents) (Stays start (n + contents.length)) w
  | [], _, _, h => h
  | content :: rest, n, w, h => by
    have hput : Ends (request (.putObject probeKey content)) (Stays start (n + 1)) w := by
      refine keeps_perform fun a w' hdoes => ⟨trivial, ?_⟩
      obtain hsame | hcarried := reached_of_does hdoes
      · exact (hsame ▸ h).mono (Nat.le_succ n)
      · change Stays start (n + 1) w'.bucket
        generalize w'.bucket = b at hcarried
        cases hcarried with
        | read hread => cases hread
        | putObject _ _ id hid => exact stays_put hstart h hid
    have hlength : n + 1 + rest.length = n + (content :: rest).length := by
      rw [List.length_cons]
      omega
    refine ends_bind hput (fun put w' h' => ?_) fun b hb => hb.mono ?_
    · split
      · exact hlength ▸ ends_putAll hstart h'
      · exact h'.mono (hlength ▸ Nat.le_add_right _ _)
    · exact hlength ▸ Nat.le_add_right _ _

theorem leavesVersions_readVersioning : LeavesVersions readVersioning :=
  leaves_bind (leavesVersions_request nofun) fun _ => leaves_done _

theorem leavesVersions_probeVersioning : LeavesVersions probeVersioning :=
  leaves_bind (leavesVersions_request nofun) fun _ =>
    leaves_ite (leaves_bind leavesVersions_readVersioning fun _ => leaves_done _) (leaves_done _)

theorem leavesVersions_probeLifecycle : LeavesVersions probeLifecycle :=
  leaves_bind (leavesVersions_request nofun) fun _ =>
    leaves_ite (leaves_bind (leavesVersions_request nofun) fun _ => leaves_done _) (leaves_done _)

theorem leavesVersions_publicRead (bucketName : Str) :
    LeavesVersions (probePublicReadNotListable bucketName) :=
  leaves_bind (leavesVersions_request nofun) fun _ =>
    leaves_ite (leaves_bind (leavesVersions_request nofun) fun _ =>
      leaves_bind (leavesVersions_request nofun) fun _ => leaves_done _) (leaves_done _)

theorem ends_versionsRetained (hstart : Untouched start) (h : Stays start 0 w.bucket) :
    Ends probeVersionsRetained (Stays start 2) w := by
  have hputs : Ends (putAll ["first".toList, "second".toList]) (Stays start 2) w :=
    ends_putAll hstart h
  refine ends_bind hputs (fun accepted w' h' => ?_) fun _ hb => hb
  have hrest : LeavesVersions (do
      let listing ← request (.listVersions probeKey)
      return ({ name := "A replaced object retains its previous version",
                verdict := verdictOf (countVersions listing.body ≥ 2) } : Result)) :=
    leaves_bind (leavesVersions_request nofun) fun _ => leaves_done _
  split
  · exact ends_of_leaves hrest h'
  · exact h'

theorem ends_runProbes (bucketName : Str) (hstart : Untouched start) (h : Stays start 0 w.bucket) :
    Ends (runProbes bucketName) (Stays start 2) w := by
  have hreach : LeavesVersions probeReachable :=
    leaves_bind (leavesVersions_request nofun) fun _ => leaves_done _
  refine ends_bind (ends_of_leaves hreach h) (fun reachable w₁ h₁ => ?_)
    fun _ hb => hb.mono (Nat.zero_le 2)
  split
  · refine ends_bind (ends_of_leaves leavesVersions_probeVersioning h₁) (fun _ w₂ h₂ => ?_)
      fun _ hb => hb.mono (Nat.zero_le 2)
    refine ends_bind (ends_versionsRetained hstart h₂) (fun _ w₃ h₃ => ?_) fun _ hb => hb
    refine ends_bind (ends_of_leaves leavesVersions_probeLifecycle h₃) (fun _ w₄ h₄ => ?_)
      fun _ hb => hb
    refine ends_bind (ends_of_leaves (leavesVersions_publicRead bucketName) h₄) (fun _ w₅ h₅ => ?_)
      fun _ hb => hb
    exact h₅
  · exact h₁.mono (Nat.zero_le 2)

section Outcome

variable {w w' : World} {start : Bucket} {original : Original} {failures : List Failure}
  {advisory : Bool}

/-- What is known of the versioning before the run. -/
def Observed (start : Bucket) : Original → Prop
  | .unknown => True
  | .status value => value = start.versioning.map Versioning.text

theorem exec_readVersioning (h : Exec does readVersioning w (.ok original) w') :
    w'.bucket = w.bucket ∧ Observed w.bucket original := by
  obtain ⟨answer, mid, hrequest, hdone⟩ := exec_bind_ok h
  have hdoes := exec_request hrequest
  obtain ⟨hres, rfl⟩ := exec_done hdone
  refine ⟨bucket_of_read (reached_of_does hdoes) rfl, ?_⟩
  cases hok : answer.ok with
  | false =>
    rw [hok] at hres
    cases hres
    exact trivial
  | true =>
    have hproper : answer.body = some (versioningDocument w.bucket.versioning) :=
      (done_of_does hdoes hok).proper
    rw [hok, hproper] at hres
    cases hres
    exact versioningStatus_versioningDocument w.bucket.versioning

theorem exec_observeBucket {bucketName : Str} {results : List Result}
    (hstart : Untouched w.bucket)
    (h : Exec does (observeBucket bucketName) w (.ok (original, results)) w') :
    Stays w.bucket 2 w'.bucket ∧ Observed w.bucket original := by
  obtain ⟨res, mid, hread, hrest⟩ := exec_resume h
  have hleaves := (leavesVersions_readVersioning w).result_alone hread
  have hmid : Stays w.bucket 0 mid.bucket := (stays_start hstart).of_versions hleaves
  cases res with
  | error e =>
    obtain ⟨hres, rfl⟩ := exec_done hrest
    cases hres
    exact ⟨hmid.mono (Nat.zero_le 2), trivial⟩
  | ok value =>
    obtain ⟨hsame, hobserved⟩ := exec_readVersioning hread
    obtain ⟨res', mid', hprobes, hdone⟩ := exec_resume hrest
    obtain ⟨hres, rfl⟩ := exec_done hdone
    cases hres
    exact ⟨(ends_runProbes bucketName hstart hmid).result_alone hprobes, hobserved⟩

end Outcome

end Probing

section Tearing

variable {w w' : World} {start b : Bucket} {n : Nat} {original : Original}
  {failures : List Failure} {advisory : Bool} {listed : List (Str × Str)}
variable {resp : Option Response} {v : Version} {step : Step}

def Item.undone (start b : Bucket) : Item → Prop
  | .policy => b.policy ≠ none
  | .lifecycle => b.lifecycle ≠ none
  | .versions => ∃ v ∈ b.versions, v.own = true
  | .versioning => ¬ (b.versioning = start.versioning ∨
      start.versioning = none ∧ b.versioning = some .suspended)

theorem own_of_under (hstart : Untouched start) (h : Stays start n b)
    (hv : v ∈ b.versions) (hunder : startsWith v.key probeKey = true) : v.own = true := by
  by_contra hown
  have hearlier : v ∈ start.versions := by
    rw [← h.earlier]
    exact List.mem_filter.mpr ⟨hv, by simpa using hown⟩
  rw [(hstart v hearlier).1] at hunder
  cases hunder

theorem own_of_page (hstart : Untouched start) (h : Stays start n b)
    (hv : v ∈ page b probeKey) : v ∈ b.versions ∧ v.own = true := by
  obtain ⟨hmem, hunder⟩ := List.mem_filter.mp (List.mem_of_mem_take hv)
  exact ⟨hmem, own_of_under hstart h hmem hunder⟩

theorem mem_page_of_own (hstart : Untouched start) (h : Stays start 2 b)
    (hv : v ∈ b.versions) (hown : v.own = true) : v ∈ page b probeKey := by
  have hunder : v ∈ b.versionsUnder probeKey := by
    refine List.mem_filter.mpr ⟨hv, ?_⟩
    rw [(h.probe v hv hown).1]
    exact startsWith_self probeKey
  have hsub : (b.versionsUnder probeKey).Sublist (b.versions.filter Version.own) := by
    have heq : b.versionsUnder probeKey =
        (b.versions.filter Version.own).filter fun v => startsWith v.key probeKey := by
      rw [List.filter_filter]
      refine List.filter_congr fun v hv => ?_
      cases hstarts : startsWith v.key probeKey with
      | false => rfl
      | true => rw [own_of_under hstart h hv hstarts, Bool.and_self]
    rw [heq]
    exact List.filter_sublist
  have hfew : (b.versionsUnder probeKey).length ≤ 1000 :=
    (hsub.length_le.trans h.few).trans (by decide)
  rw [page, List.take_of_length_le hfew]
  exact hunder

theorem listedVersions_of_proper (hstart : Untouched start) (h : Stays start n b)
    {answer : Response} {root : Xml} (hproper : Proper b (.listVersions probeKey) answer)
    (hroot : answer.body = some root) :
    listedVersions root = (page b probeKey).map fun v => (v.key, v.id) := by
  have hbody : answer.body = some (versionsDocument (page b probeKey)) := hproper
  cases hroot.symm.trans hbody
  refine listedVersions_versionsDocument fun v hv => ?_
  obtain ⟨hmem, hown⟩ := own_of_page hstart h hv
  obtain ⟨hkey, hid⟩ := h.probe v hmem hown
  exact ⟨by rw [hkey]; decide, hid⟩

theorem stays_of_reached (hstart : Untouched start) (h : Stays start n w.bucket) {r : Request}
    (hreached : Reached w r w') (hr : r.touches ≠ some .versions ∨
      ∃ key version, r = .deleteVersion key version ∧ startsWith key probeKey = true) :
    Stays start n w'.bucket := by
  obtain hleaves | ⟨key, version, rfl, hkey⟩ := hr
  · exact h.of_versions (same_of_reached hreached hleaves)
  · obtain hsame | hcarried := hreached
    · rw [hsame]
      exact h
    · generalize w'.bucket = b' at hcarried ⊢
      cases hcarried with
      | read hread => cases hread
      | deleteVersion => exact stays_delete hstart h hkey

theorem ends_attemptStep (hstart : Untouched start) (h : Stays start n w.bucket)
    {r : Request} (hr : r.touches ≠ some .versions ∨
      ∃ key version, r = .deleteVersion key version ∧ startsWith key probeKey = true) :
    Ends (attemptStep step r) (Stays start n) w := by
  refine keeps_perform fun a w' hdoes => ⟨trivial, ?_⟩
  have hstays := stays_of_reached hstart h (reached_of_does hdoes) hr
  rcases a with e | answer
  · cases e <;> exact hstays
  · exact hstays

theorem ends_deleteVersions (hstart : Untouched start) : ∀ {listed : List (Str × Str)} {w : World},
    (∀ p ∈ listed, startsWith p.1 probeKey = true) → Stays start n w.bucket →
      Ends (deleteVersions listed) (Stays start n) w
  | [], _, _, h => h
  | (key, version) :: rest, _, hlisted, h => by
    obtain ⟨hkey, hrest⟩ := List.forall_mem_cons.mp hlisted
    refine ends_bind (ends_attemptStep hstart h (.inr ⟨key, version, rfl, hkey⟩))
      (fun _ w' h' => ?_) fun _ hb => hb
    exact ends_bind (ends_deleteVersions hstart hrest h') (fun _ _ h'' => h'') fun _ hb => hb

theorem ends_restoreVersioning (hstart : Untouched start) (h : Stays start n w.bucket)
    (original : Original) : Ends (restoreVersioning original) (Stays start n) w := by
  cases original with
  | unknown => exact h
  | status value =>
    rw [restoreVersioning]
    cases originalStatus value with
    | some status =>
      dsimp only
      exact ends_bind (ends_attemptStep hstart h (.inl nofun)) (fun _ _ h' => h') fun _ hb => hb
    | none =>
      dsimp only
      exact ends_bind (ends_attemptStep hstart h (.inl nofun)) (fun _ _ h' => h') fun _ hb => hb

theorem keys_of_attempt (hstart : Untouched start) (h : Stays start n w.bucket) :
    (attemptStep .listVersions (.listVersions probeKey)).Keeps (fun _ : Unit => does)
      (fun _ _ _ => True) () (fun r w' => Stays start n w'.bucket ∧ ∀ answer failures root,
        r = .ok (some answer, failures) → answer.ok = true → answer.body = some root →
          ∀ p ∈ listedVersions root, startsWith p.1 probeKey = true) w := by
  refine keeps_perform fun a w' hdoes => ⟨trivial, ?_⟩
  have hstays := stays_of_reached hstart h (reached_of_does hdoes) (.inl nofun)
  rcases a with e | answer
  · cases e <;> exact ⟨hstays, nofun⟩
  · refine ⟨hstays, fun other failures root hr hok hroot p hp => ?_⟩
    cases hr
    rw [listedVersions_of_proper hstart h (done_of_does hdoes hok).proper hroot] at hp
    obtain ⟨v, hv, rfl⟩ := List.mem_map.mp hp
    obtain ⟨hmem, hown⟩ := own_of_page hstart h hv
    rw [(h.probe v hmem hown).1]
    exact startsWith_self probeKey

theorem ends_deleteListed (hstart : Untouched start) (h : Stays start n w.bucket) (hkeys : ∀ answer root, resp = some answer → answer.ok = true →
      answer.body = some root → ∀ p ∈ listedVersions root, startsWith p.1 probeKey = true) :
    Ends (deleteListed resp) (Stays start n) w := by
  cases resp with
  | none => exact h
  | some answer =>
    rw [deleteListed]
    split
    · rename_i hok
      split
      · exact h
      · rename_i root hbody
        exact ends_deleteVersions hstart (hkeys answer root rfl hok hbody) h
    · exact h

theorem ends_teardown (hstart : Untouched start) (h : Stays start n w.bucket)
    (original : Original) : Ends (teardown original) (Stays start n) w := by
  refine ends_bind (ends_attemptStep hstart h (.inl nofun)) (fun _ w₁ h₁ => ?_) fun _ hb => hb
  refine ends_bind (ends_attemptStep hstart h₁ (.inl nofun)) (fun _ w₂ h₂ => ?_) fun _ hb => hb
  refine (keys_of_attempt hstart h₂).bind (fun answered w₃ h₃ => ?_) fun _ _ hb => hb.1
  obtain ⟨resp, listed⟩ := answered
  obtain ⟨h₃, hkeys⟩ := h₃
  refine ends_bind (ends_deleteListed hstart h₃ fun answer root hresp => ?_) (fun _ w₄ h₄ => ?_)
    fun _ hb => hb
  · exact hkeys answer listed root (by rw [hresp])
  · exact ends_bind (ends_restoreVersioning hstart h₄ original) (fun _ _ h₅ => h₅) fun _ hb => hb

theorem exec_deleteVersions : ∀ {listed : List (Str × Str)} {w w' : World}
    {failures : List Failure},
    Exec does (deleteVersions listed) w (.ok failures) w' →
      (∀ item, item ≠ .versions → Same w.bucket w'.bucket item) ∧
        ∀ v ∈ w'.bucket.versions, v ∈ w.bucket.versions ∧
          ((v.key, v.id) ∈ listed → Listed failures .versions)
  | [], w, w', failures, h => by
    obtain ⟨-, rfl⟩ := exec_done h
    exact ⟨fun item _ => same_refl _ item, fun v hv => ⟨hv, nofun⟩⟩
  | (key, version) :: rest, w, w', failures, h => by
    obtain ⟨⟨resp, first⟩, mid, hattempt, h⟩ := exec_bind_ok h
    obtain ⟨others, mid', hrest, hdone⟩ := exec_bind_ok h
    obtain ⟨hres, rfl⟩ := exec_done hdone
    cases hres
    obtain ⟨hreached, hdone⟩ := exec_attemptStep hattempt
    obtain ⟨hsame, hversions⟩ := exec_deleteVersions hrest
    refine ⟨fun item hitem => ?_, fun v hv => ?_⟩
    · exact (same_of_reached hreached fun heq => hitem (Option.some.inj heq).symm).trans
        (hsame item hitem)
    · obtain ⟨hmid, hlisted⟩ := hversions v hv
      refine ⟨?_, fun hmem => ?_⟩
      · obtain hsame | hcarried := hreached
        · exact hsame ▸ hmid
        · generalize mid.bucket = b at hcarried hmid
          cases hcarried with
          | read hread => cases hread
          | deleteVersion => exact List.mem_of_mem_filter hmid
      · rcases List.mem_cons.mp hmem with heq | hmem
        · obtain ⟨answer, -, -, -, hcarried⟩ | ⟨hfailure, -⟩ := hdone
          · obtain ⟨-, hcarried⟩ := hcarried
            generalize mid.bucket = b at hcarried hmid
            cases hcarried with
            | read hread => cases hread
            | deleteVersion =>
              obtain ⟨hkey, hid⟩ := Prod.mk.inj heq
              have hkept := (List.mem_filter.mp hmid).2
              simp [hkey, hid] at hkept
          · exact hfailure.append_left others
        · exact (hlisted hmem).append_right first

theorem exec_deleteListed (hstart : Untouched start) (h : Stays start 2 w.bucket) {mid : World} {listing : List Failure}
    (hattempt : Exec does (attemptStep .listVersions (.listVersions probeKey)) w
      (.ok (resp, listing)) mid)
    (hdelete : Exec does (deleteListed resp) mid (.ok failures) w') :
    (∀ item, item ≠ .versions → Same w.bucket w'.bucket item) ∧
      ∀ v ∈ w'.bucket.versions, v.own = true → Listed (listing ++ failures) .versions := by
  obtain ⟨hreached, hdone⟩ := exec_attemptStep hattempt
  have hbucket : mid.bucket = w.bucket := bucket_of_read hreached rfl
  rw [← hbucket] at h ⊢
  obtain ⟨answer, rfl, hok, rfl, hproper⟩ | ⟨hfailure, hrefused⟩ := hdone
  · rw [deleteListed, if_pos hok] at hdelete
    split at hdelete
    · obtain ⟨hres, rfl⟩ := exec_done hdelete
      cases hres
      exact ⟨fun item _ => same_refl _ item,
        fun _ _ _ => ⟨.unparsed, List.mem_singleton.mpr rfl, rfl⟩⟩
    · rename_i root hroot
      obtain ⟨hsame, hversions⟩ := exec_deleteVersions hdelete
      refine ⟨hsame, fun v hv hown => ?_⟩
      obtain ⟨hmem, hlisted⟩ := hversions v hv
      refine hlisted ?_
      rw [listedVersions_of_proper hstart h (hbucket ▸ hproper.proper) hroot]
      exact List.mem_map.mpr ⟨v, mem_page_of_own hstart h hmem hown, rfl⟩
  · have hnothing : deleteListed resp = pure [] := by
      cases resp with
      | none => rfl
      | some answer => rw [deleteListed, if_neg (by simp [hrefused answer rfl])]
    rw [hnothing] at hdelete
    obtain ⟨hres, rfl⟩ := exec_done hdelete
    cases hres
    exact ⟨fun item _ => same_refl _ item, fun _ _ _ => hfailure.append_left []⟩

theorem originalStatus_text (versioning : Option Versioning) :
    originalStatus (versioning.map Versioning.text) = versioning := by
  rcases versioning with _ | _ | _ <;> decide

theorem exec_putVersioning {status : Versioning}
    (hstep : step.item = .versioning)
    (h : Exec does (attemptStep step (.putVersioning status)) w (.ok (resp, failures)) w') :
    (∀ item, item ≠ .versioning → Same w.bucket w'.bucket item) ∧
      (w'.bucket.versioning = some status ∨ Listed failures .versioning) := by
  obtain ⟨hreached, hdone⟩ := exec_attemptStep h
  refine ⟨fun item hitem => same_of_reached hreached fun heq =>
    hitem (Option.some.inj heq).symm, ?_⟩
  obtain ⟨answer, -, -, -, -, hcarried⟩ | ⟨hfailure, -⟩ := hdone
  · generalize w'.bucket = b at hcarried ⊢
    cases hcarried with
    | read hread => cases hread
    | putVersioning => exact .inl rfl
  · exact .inr (hstep ▸ hfailure)

theorem exec_restoreVersioning (hobserved : Observed start original)
    (h : Exec does (restoreVersioning original) w (.ok (failures, advisory)) w') :
    (∀ item, item ≠ .versioning → Same w.bucket w'.bucket item) ∧
      (Item.undone start w'.bucket .versioning → Listed failures .versioning) := by
  cases original with
  | unknown =>
    obtain ⟨hres, rfl⟩ := exec_done h
    cases hres
    exact ⟨fun item _ => same_refl _ item,
      fun _ => ⟨.unknownVersioning, List.mem_singleton.mpr rfl, rfl⟩⟩
  | status value =>
    rw [Observed] at hobserved
    rw [restoreVersioning, hobserved, originalStatus_text] at h
    cases hversioning : start.versioning with
    | some status =>
      rw [hversioning] at h
      obtain ⟨⟨resp, first⟩, mid, hattempt, hdone⟩ := exec_bind_ok h
      obtain ⟨hres, rfl⟩ := exec_done hdone
      cases hres
      obtain ⟨hsame, hset⟩ := exec_putVersioning rfl hattempt
      refine ⟨hsame, fun hundone => hset.resolve_left fun hset => hundone (.inl ?_)⟩
      rw [hset, hversioning]
    | none =>
      rw [hversioning] at h
      obtain ⟨⟨resp, first⟩, mid, hattempt, hdone⟩ := exec_bind_ok h
      obtain ⟨hres, rfl⟩ := exec_done hdone
      cases hres
      obtain ⟨hsame, hset⟩ := exec_putVersioning rfl hattempt
      exact ⟨hsame, fun hundone => hset.resolve_left fun hset =>
        hundone (.inr ⟨hversioning, hset⟩)⟩

theorem exec_removal {r : Request} {item : Item}
    (hitem : step.item = item)
    (hgone : ∀ b, Carried w.bucket r b → ¬ Item.undone start b item)
    (h : Exec does (attemptStep step r) w (.ok (resp, failures)) w') :
    Item.undone start w'.bucket item → Listed failures item := by
  obtain ⟨-, hdone⟩ := exec_attemptStep h
  obtain ⟨answer, -, -, -, -, hcarried⟩ | ⟨hfailure, -⟩ := hdone
  · exact fun hundone => absurd hundone (hgone _ hcarried)
  · exact fun _ => hitem ▸ hfailure

theorem undone_of_same {item : Item} {b b' : Bucket} (h : Same b b' item)
    (hundone : item.undone start b') : item.undone start b := by
  cases item with
  | policy =>
    have hsame : b'.policy = b.policy := h
    rw [Item.undone, hsame] at hundone
    exact hundone
  | lifecycle =>
    have hsame : b'.lifecycle = b.lifecycle := h
    rw [Item.undone, hsame] at hundone
    exact hundone
  | versions =>
    obtain ⟨v, hv, hown⟩ := hundone
    have hsame : b'.versions = b.versions := h
    exact ⟨v, hsame ▸ hv, hown⟩
  | versioning =>
    have hsame : b'.versioning = b.versioning := h
    rw [Item.undone, hsame] at hundone
    exact hundone

theorem exec_teardown (hstart : Untouched start) (h : Stays start 2 w.bucket)
    (hobserved : Observed start original)
    (hexec : Exec does (teardown original) w (.ok (failures, advisory)) w') (item : Item)
    (hundone : item.undone start w'.bucket) : Listed failures item := by
  obtain ⟨⟨resp₁, policy⟩, w₁, hpolicy, hexec⟩ := exec_bind_ok hexec
  obtain ⟨⟨resp₂, lifecycle⟩, w₂, hlifecycle, hexec⟩ := exec_bind_ok hexec
  obtain ⟨⟨resp₃, listing⟩, w₃, hlisting, hexec⟩ := exec_bind_ok hexec
  obtain ⟨deleted, w₄, hdeleted, hexec⟩ := exec_bind_ok hexec
  obtain ⟨⟨restored, note⟩, w₅, hrestored, hdone⟩ := exec_bind_ok hexec
  obtain ⟨hres, hend⟩ := exec_done hdone
  cases hres
  subst hend
  have hreached₁ := (exec_attemptStep hpolicy).1
  have hreached₂ := (exec_attemptStep hlifecycle).1
  have hstays : Stays start 2 w₂.bucket :=
    stays_of_reached hstart (stays_of_reached hstart h hreached₁ (.inl nofun)) hreached₂
      (.inl nofun)
  obtain ⟨hsame₄, hversions⟩ := exec_deleteListed hstart hstays hlisting hdeleted
  obtain ⟨hsame₅, hversioning⟩ := exec_restoreVersioning hobserved hrestored
  have hgonePolicy : ∀ b, Carried w.bucket .deletePolicy b →
      ¬ Item.undone start b .policy := by
    intro b hcarried
    cases hcarried with
    | read hread => cases hread
    | deletePolicy => exact not_not_intro rfl
  have hgoneLifecycle : ∀ b, Carried w₁.bucket .deleteLifecycle b →
      ¬ Item.undone start b .lifecycle := by
    intro b hcarried
    cases hcarried with
    | read hread => cases hread
    | deleteLifecycle => exact not_not_intro rfl
  cases item with
  | policy =>
    have hsame₂ : Same w₁.bucket w₂.bucket .policy := same_of_reached hreached₂ nofun
    have hsame : Same w₁.bucket w'.bucket .policy :=
      (hsame₂.trans (hsame₄ .policy nofun)).trans (hsame₅ .policy nofun)
    have hreport := exec_removal rfl hgonePolicy hpolicy (undone_of_same hsame hundone)
    exact (((hreport.append_left _).append_left _).append_left _).append_left _
  | lifecycle =>
    have hsame : Same w₂.bucket w'.bucket .lifecycle :=
      (hsame₄ .lifecycle nofun).trans (hsame₅ .lifecycle nofun)
    have hreport := exec_removal rfl hgoneLifecycle hlifecycle (undone_of_same hsame hundone)
    exact (((hreport.append_right _).append_left _).append_left _).append_left _
  | versions =>
    obtain ⟨v, hv, hown⟩ := undone_of_same (hsame₅ .versions nofun) hundone
    obtain ⟨f, hf, hitem⟩ := hversions v hv hown
    refine ⟨f, List.mem_append_left _ ?_, hitem⟩
    rw [List.append_assoc]
    exact List.mem_append_right _ hf
  | versioning => exact (hversioning hundone).append_right _

end Tearing

section Main

variable {w w' : World} {args : Args} {res : Except Raised Outcome}

theorem broken_of_attempt {step : Step} {r : Request} {e : Raised}
    (h : Exec does (attemptStep step r) w (.error e) w') : w'.broken = true := by
  obtain ⟨answer, mid, hrequest, hjudged⟩ := exec_resume h
  have hdoes := exec_request hrequest
  rcases answer with e' | answer
  · cases e' with
    | probeError =>
      obtain ⟨hres, -⟩ := exec_done hjudged
      cases hres
    | other =>
      obtain ⟨-, rfl⟩ := exec_done hjudged
      obtain rfl | ⟨b, -, rfl⟩ := hdoes <;> rfl
  · obtain ⟨hres, -⟩ := exec_done hjudged
    cases hres

theorem broken_of_deleteVersions {e : Raised} : ∀ {listed : List (Str × Str)} {w : World},
    Exec does (deleteVersions listed) w (.error e) w' → w'.broken = true
  | [], _, h => by
    obtain ⟨hres, -⟩ := exec_done h
    cases hres
  | (key, version) :: rest, _, h => by
    obtain ⟨_, mid, -, h⟩ | ⟨_, -, hattempt⟩ := exec_bind h
    · obtain ⟨_, mid', -, hdone⟩ | ⟨_, -, hrest⟩ := exec_bind h
      · obtain ⟨hres, -⟩ := exec_done hdone
        cases hres
      · exact broken_of_deleteVersions hrest
    · exact broken_of_attempt hattempt

theorem broken_of_deleteListed {resp : Option Response} {e : Raised}
    (h : Exec does (deleteListed resp) w (.error e) w') : w'.broken = true := by
  unfold deleteListed at h
  split at h
  · obtain ⟨hres, -⟩ := exec_done h
    cases hres
  · split at h
    · split at h
      · obtain ⟨hres, -⟩ := exec_done h
        cases hres
      · exact broken_of_deleteVersions h
    · obtain ⟨hres, -⟩ := exec_done h
      cases hres

theorem broken_of_restoreVersioning {original : Original} {e : Raised}
    (h : Exec does (restoreVersioning original) w (.error e) w') : w'.broken = true := by
  unfold restoreVersioning at h
  split at h
  · obtain ⟨hres, -⟩ := exec_done h
    cases hres
  · split at h
    all_goals
      obtain ⟨_, mid, -, hdone⟩ | ⟨_, -, hattempt⟩ := exec_bind h
      · obtain ⟨hres, -⟩ := exec_done hdone
        cases hres
      · exact broken_of_attempt hattempt

theorem broken_of_teardown {original : Original} {e : Raised}
    (h : Exec does (teardown original) w (.error e) w') : w'.broken = true := by
  obtain ⟨_, _, -, h⟩ | ⟨_, -, hattempt⟩ := exec_bind h
  · obtain ⟨_, _, -, h⟩ | ⟨_, -, hattempt⟩ := exec_bind h
    · obtain ⟨_, _, -, h⟩ | ⟨_, -, hattempt⟩ := exec_bind h
      · obtain ⟨_, _, -, h⟩ | ⟨_, -, hdelete⟩ := exec_bind h
        · obtain ⟨_, _, -, hdone⟩ | ⟨_, -, hrestore⟩ := exec_bind h
          · obtain ⟨hres, -⟩ := exec_done hdone
            cases hres
          · exact broken_of_restoreVersioning hrestore
        · exact broken_of_deleteListed hdelete
      · exact broken_of_attempt hattempt
    · exact broken_of_attempt hattempt
  · exact broken_of_attempt hattempt

theorem leavesBucket_preflight :
    Leaves does (fun _ _ _ => True) World.bucket preflight := by
  have hread : ∀ {r : Request}, r.changes = false →
      Leaves does (fun _ _ _ => True) World.bucket (request r) := fun hr _ =>
    keeps_perform fun _ _ hdoes => ⟨trivial, bucket_of_read (reached_of_does hdoes) hr⟩
  exact leaves_bind (hread rfl) fun _ => leaves_bind (hread rfl) fun _ =>
    leaves_bind (hread rfl) fun _ => leaves_done _

theorem exec_main (h : Exec does (main args) w res w') :
    (w'.bucket = w.bucket ∧ ∀ outcome, res = .ok outcome → outcome.status = 2) ∨
      ∃ mid, mid.bucket = w.bucket ∧ Exec does (probeAndTearDown args.bucket) mid res w' := by
  have hrefused : ∀ {w : World} {refusals : List Str},
      Exec does (pure (refusedRun refusals)) w res w' →
        w' = w ∧ ∀ outcome, res = .ok outcome → outcome.status = 2 := by
    intro w refusals h
    obtain ⟨hres, rfl⟩ := exec_done h
    refine ⟨rfl, fun outcome houtcome => ?_⟩
    cases hres.symm.trans houtcome
    rfl
  unfold main at h
  split at h
  · obtain ⟨rfl, hstatus⟩ := hrefused h
    exact .inl ⟨rfl, hstatus⟩
  · split at h
    · obtain ⟨rfl, hstatus⟩ := hrefused h
      exact .inl ⟨rfl, hstatus⟩
    · obtain ⟨r, mid, hpreflight, hrest⟩ := exec_resume h
      have hmid : mid.bucket = w.bucket := (leavesBucket_preflight w).result_alone hpreflight
      rcases r with e | refusals
      · cases e with
        | probeError =>
          obtain ⟨rfl, hstatus⟩ := hrefused hrest
          exact .inl ⟨hmid, hstatus⟩
        | other =>
          obtain ⟨hres, rfl⟩ := exec_done hrest
          refine .inl ⟨hmid, fun outcome houtcome => ?_⟩
          cases hres.symm.trans houtcome
      · cases refusals with
        | nil => exact .inr ⟨mid, hmid, hrest⟩
        | cons refusal refusals =>
          obtain ⟨rfl, hstatus⟩ := hrefused hrest
          exact .inl ⟨hmid, hstatus⟩

theorem status_of_failures (results : List Result) {failures : List Failure}
    (h : failures ≠ []) : statusOf results failures = 1 := by
  have hsome : (!failures.isEmpty) = true := by simpa using h
  rw [statusOf, hsome, Bool.or_true, if_pos rfl]

theorem exec_probeAndTearDown {bucketName : Str} (hstart : Untouched w.bucket)
    (h : Exec does (probeAndTearDown bucketName) w res w') :
    ∃ outcome, res = .ok outcome ∧ outcome.status ≠ 2 ∧
      w'.bucket.versions.filter (fun v => !v.own) = w.bucket.versions ∧
      (outcome.status = 0 → ∀ item, ¬ Item.undone w.bucket w'.bucket item) ∧
      (w'.broken = false → ∀ item, Item.undone w.bucket w'.bucket item →
        outcome.status = 1 ∧ Listed outcome.failures item) := by
  obtain ⟨⟨original, results⟩, mid, hobserve, hrest⟩ | ⟨e, -, hobserve⟩ := exec_bind h
  · obtain ⟨hstays, hobserved⟩ := exec_observeBucket hstart hobserve
    obtain ⟨torn, mid', htorn, hdone⟩ := exec_resume hrest
    obtain ⟨rfl, hend⟩ := exec_done hdone
    subst hend
    have hearlier := ((ends_teardown hstart hstays original).result_alone htorn).earlier
    refine ⟨_, rfl, ?_, hearlier, ?_⟩
    · change statusOf _ _ ≠ 2
      unfold statusOf
      split <;> decide
    · rcases torn with e | ⟨failures, advisory⟩
      · refine ⟨fun hstatus => ?_, fun hbroken => ?_⟩
        · cases (status_of_failures results
            (List.cons_ne_nil Failure.teardownRaised [])).symm.trans hstatus
        · cases (broken_of_teardown htorn).symm.trans hbroken
      · have hlisted := exec_teardown hstart hstays hobserved htorn
        refine ⟨fun hstatus item hundone => ?_, fun _ item hundone => ⟨?_, hlisted item hundone⟩⟩
        all_goals
          obtain ⟨f, hf, -⟩ := hlisted item hundone
          have hstatus' : statusOf results failures = 1 :=
            status_of_failures results (List.ne_nil_of_mem hf)
        · cases hstatus'.symm.trans hstatus
        · exact hstatus'
  · obtain ⟨r, mid, -, hrest⟩ := exec_resume hobserve
    cases r with
    | error e' =>
      obtain ⟨hres, -⟩ := exec_done hrest
      cases hres
    | ok original =>
      obtain ⟨r', mid', -, hdone⟩ := exec_resume hrest
      obtain ⟨hres, -⟩ := exec_done hdone
      cases hres

/-- Nothing is changed before the pre-flight has seen nothing there.  Where no version is under
the probe key beforehand, a run that is not refused leaves the versions that were there, and
what else it does not leave as it was it reports, if no answer breaks off. -/
theorem bucket_restored_or_reported (hstart : Untouched w.bucket) :
    (main args).Guarded (mayBeSent args) (fun _ _ => True) [] ∧
      ∀ res w', Exec does (main args) w res w' → (∀ e, res = .error e → w'.bucket = w.bucket) ∧
        ∀ outcome, res = .ok outcome → (outcome.status = 2 → w'.bucket = w.bucket) ∧
          (outcome.status ≠ 2 → w'.bucket.versions.filter (fun v => !v.own) = w.bucket.versions ∧
            (outcome.status = 0 → ∀ item, ¬ Item.undone w.bucket w'.bucket item) ∧
            (w'.broken = false → ∀ item, Item.undone w.bucket w'.bucket item →
              outcome.status = 1 ∧ Listed outcome.failures item)) := by
  refine ⟨guarded_main, fun res w' h => ?_⟩
  obtain ⟨hbucket, hstatus⟩ | ⟨mid, hmid, hprobe⟩ := exec_main h
  · exact ⟨fun _ _ => hbucket, fun outcome houtcome =>
      ⟨fun _ => hbucket, fun hne => absurd (hstatus outcome houtcome) hne⟩⟩
  · rw [← hmid] at hstart ⊢
    obtain ⟨outcome, rfl, hne, hrest⟩ := exec_probeAndTearDown hstart hprobe
    refine ⟨nofun, fun other hother => ?_⟩
    cases hother
    exact ⟨fun htwo => absurd htwo hne, fun _ => hrest⟩

end Main

def answering (w : World) (b : Bucket) (status : Nat) (body : Option Xml) :
    Except Raised Response × World :=
  (.ok ⟨status, body⟩, { w with bucket := b })

/-- An object store that answers every request, and refuses an anonymous listing. -/
def honest : Handler Request Ans World
  | w, .head => answering w w.bucket 200 none
  | w, .getPolicy => answering w w.bucket (if w.bucket.policy.isSome then 200 else 404) none
  | w, .putPolicy document => answering w { w.bucket with policy := some document } 204 none
  | w, .deletePolicy => answering w { w.bucket with policy := none } 204 none
  | w, .getLifecycle =>
    answering w w.bucket (if w.bucket.lifecycle.isSome then 200 else 404)
      (some (lifecycleAnswer "30".toList))
  | w, .putLifecycle document => answering w { w.bucket with lifecycle := some document } 200 none
  | w, .deleteLifecycle => answering w { w.bucket with lifecycle := none } 204 none
  | w, .listObjects =>
    answering w w.bucket 200 (some (objectsDocument ((w.bucket.objects.take 1).map Version.key)))
  | w, .getVersioning => answering w w.bucket 200 (some (versioningDocument w.bucket.versioning))
  | w, .putVersioning status => answering w { w.bucket with versioning := some status } 200 none
  | w, .putObject key _ =>
    if 'w' :: decimal w.bucket.versions.length ∈ w.bucket.versions.map Version.id then
      answering w w.bucket 500 none
    else answering w (w.bucket.put key ('w' :: decimal w.bucket.versions.length)) 200 none
  | w, .listVersions start =>
    answering w w.bucket 200 (some (versionsDocument (page w.bucket start)))
  | w, .deleteVersion key version => answering w (w.bucket.delete key version) 204 none
  | w, .anonymousGet _ => answering w w.bucket 200 none
  | w, .anonymousList => answering w w.bucket 403 none

theorem does_honest (w : World) (r : Request) : does w r (honest w r).1 (honest w r).2 := by
  cases r with
  | head => exact ⟨trivial, w.bucket, .read rfl, rfl⟩
  | getPolicy =>
    cases hpolicy : w.bucket.policy with
    | none =>
      simp only [honest, hpolicy]
      exact .inl rfl
    | some document =>
      simp only [honest, hpolicy]
      exact ⟨(fun hnone => by cases hpolicy.symm.trans hnone), w.bucket, .read rfl, rfl⟩
  | putPolicy document => exact ⟨trivial, _, .putPolicy document, rfl⟩
  | deletePolicy => exact ⟨trivial, _, .deletePolicy, rfl⟩
  | getLifecycle =>
    cases hlifecycle : w.bucket.lifecycle with
    | none =>
      simp only [honest, hlifecycle]
      exact .inl rfl
    | some document =>
      simp only [honest, hlifecycle]
      exact ⟨(fun hnone => by cases hlifecycle.symm.trans hnone), w.bucket, .read rfl, rfl⟩
  | putLifecycle document => exact ⟨trivial, _, .putLifecycle document, rfl⟩
  | deleteLifecycle => exact ⟨trivial, _, .deleteLifecycle, rfl⟩
  | listObjects => exact ⟨rfl, w.bucket, .read rfl, rfl⟩
  | getVersioning => exact ⟨rfl, w.bucket, .read rfl, rfl⟩
  | putVersioning status => exact ⟨trivial, _, .putVersioning status, rfl⟩
  | putObject key content =>
    by_cases h : 'w' :: decimal w.bucket.versions.length ∈ w.bucket.versions.map Version.id
    · simp only [honest, if_pos h]
      exact .inl rfl
    · simp only [honest, if_neg h]
      exact ⟨trivial, _, .putObject key content _ (List.cons_ne_nil _ _) (by simp) h, rfl⟩
  | listVersions start => exact ⟨rfl, w.bucket, .read rfl, rfl⟩
  | deleteVersion key version => exact ⟨trivial, _, .deleteVersion key version, rfl⟩
  | anonymousGet key => exact ⟨trivial, w.bucket, .read rfl, rfl⟩
  | anonymousList => exact .inl rfl

def scratch : Args := ⟨"scratch".toList, "key".toList, "secret".toList⟩

def deleted : Bucket where
  policy := none
  lifecycle := none
  versioning := some .enabled
  versions := [⟨probeKey, "d".toList, true, false⟩, ⟨probeKey, "v".toList, false, false⟩]

def allPassed : List Result :=
  [⟨"Bucket reachable, credentials valid", .pass⟩, ⟨"Versioning can be enabled", .pass⟩,
    ⟨"A replaced object retains its previous version", .pass⟩,
    ⟨"30-day noncurrent lifecycle is accepted", .pass⟩, ⟨"Bucket policy accepted", .pass⟩,
    ⟨"Anonymous object read succeeds", .pass⟩, ⟨"Anonymous bucket listing is refused", .pass⟩]

theorem deleted_run : (main scratch).run honest ⟨deleted, false⟩ =
    (.ok ⟨0, [], allPassed, [], false⟩, ⟨{ deleted with versions := [] }, false⟩) := by
  rfl

/-- A version that was there is removed, and the run returns 0. -/
theorem earlier_version_removed :
    ∃ outcome w', Exec does (main scratch) ⟨deleted, false⟩ (.ok outcome) w' ∧
      outcome.status = 0 ∧ ∃ v ∈ deleted.versions, v.own = false ∧ v ∉ w'.bucket.versions := by
  have hexec := exec_run does_honest (main scratch) ⟨deleted, false⟩
  rw [deleted_run] at hexec
  exact ⟨_, _, hexec, rfl, ⟨probeKey, "v".toList, false, false⟩, by simp [deleted], rfl, nofun⟩

def empty : Bucket where
  policy := none
  lifecycle := none
  versioning := none
  versions := []

theorem empty_run : (main scratch).run honest ⟨empty, false⟩ =
    (.ok ⟨0, [], allPassed, [], true⟩, ⟨{ empty with versioning := some .suspended }, false⟩) := by
  rfl

/-- An empty bucket is left as it was, but for its versioning. -/
theorem empty_bucket_restored :
    ¬ ∃ item, Item.undone empty { empty with versioning := some .suspended } item := by
  have hexec := exec_run does_honest (main scratch) ⟨empty, false⟩
  rw [empty_run] at hexec
  have hrestored := (@bucket_restored_or_reported ⟨empty, false⟩ scratch
    (fun _ hv => by cases hv)).2 _ _ hexec
  exact not_exists.mpr (((hrestored.2 _ rfl).2 (by decide)).2.1 rfl)

end SharedInfra.StorageProbe
