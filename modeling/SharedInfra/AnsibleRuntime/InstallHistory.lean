import SharedInfra.AnsibleRuntime.InstallSafety
import SharedInfra.AnsibleRuntime.LockReading

/-!
# Histories of installs

Installs one after another on one root and one link, each ended or stopped between
two of its calls.  The link only ever names an environment whose last run of pip
was of a verified lock and succeeded, and a further run recovers from whatever is
there (`link_names_finished`).
-/

namespace SharedInfra.AnsibleRuntime

open Python Effects Prog

variable {sha256 : Bytes → Bytes} {requests : Set Request} {link : LinkNode} {lock : Bytes}
  {calm : Prop} {w : World}

theorem isHexDigit_digitChar {n : Nat} (h : n < 16) : isHexDigit (Nat.digitChar n) = true := by
  interval_cases n <;> decide

theorem isHexDigit_of_mem_hexDigits {data : Bytes} : IsFingerprint (hexDigits data) := by
  intro c hc
  obtain ⟨b, _, hb⟩ := List.mem_flatMap.mp hc
  have hbyte := b.toNat_lt
  rcases List.mem_pair.mp hb with rfl | rfl
  · exact isHexDigit_digitChar (by omega)
  · exact isHexDigit_digitChar (Nat.mod_lt _ (by decide))

theorem checkLock_ok {request : Request} {bytes : Bytes} {name : Str}
    (h : checkLock sha256 request bytes = .ok name) : fingerprint sha256 bytes = .ok name := by
  unfold checkLock at h
  split_ifs at h with hhash
  · cases h
  · cases hhashed : checkLockIsHashed bytes with
    | error refusal =>
      rw [hhashed] at h
      cases h
    | ok _ =>
      cases hname : fingerprint sha256 bytes with
      | error refusal =>
        rw [hhashed, hname] at h
        cases h
      | ok found =>
        rw [hhashed, hname] at h
        simp only [bind, Except.bind, pure, Except.pure] at h
        split_ifs at h with hexpect
        cases h
        rfl

theorem isFingerprint_of_checkLock {request : Request} {bytes : Bytes} {name : Str}
    (h : checkLock sha256 request bytes = .ok name) : IsFingerprint name := by
  have hname := checkLock_ok h
  rw [fingerprint] at hname
  split at hname
  · cases hname
  · cases hname
    intro c hc
    exact isHexDigit_of_mem_hexDigits c (List.mem_of_mem_take hc)

/-- The directories are as the program wants them, and no directory is in the way of the link. -/
structure Open (paths : Paths) (w : World) : Prop where
  rootPath : startsWith paths.root ['/'] = true
  root : ∀ info, w.root = some info → info.leadsToDirectory = true ∧ info.isDirectory = true ∧
    info.ours = true ∧ info.openToOthers = false
  linkPath : startsWith paths.link ['/'] = true
  linkParent : w.linkParent = true
  link : w.link ≠ .directory

theorem safe_readRegularFile (hsound : Sound sha256 requests link w) :
    Safe sha256 requests link lock calm (fun w' => w'.link = w.link)
      (fun bytes w' => w' = w ∧ (calm → bytes = lock)) readRegularFile w := by
  refine Safe.bind (m := fun found w' => w' = w ∧ (calm → found = (.ok lock : Except Reason Bytes)))
    ?_ ?_
  · refine safe_call (fun _ => ⟨(.ok lock : Except Reason Bytes), _, .readLock⟩)
      (fun w' hraised => ?_) fun found w' hacts => ?_
    · cases hraised
      exact ⟨hsound, rfl⟩
    · obtain ⟨hdoes, hcalm⟩ := hacts
      cases hdoes
      exact ⟨hsound, rfl, fun h => Option.some.inj (hcalm h).2⟩
  · rintro found w' ⟨rfl, hcalm⟩
    cases found with
    | ok bytes => exact ⟨rfl, fun h => Except.ok.inj (hcalm h)⟩
    | error reason => exact ⟨rfl, fun h => nomatch hcalm h⟩

/-- What a run returns, and what it leaves. -/
structure Installed (paths : Paths) (request : Request) (w : World) (outcome : Outcome)
    (w' : World) : Prop where
  venv : outcome.venv = venvPath paths outcome.fingerprint
  linked : outcome.linked = request.link
  link : request.link = true → w'.link = .symlink (.playbook outcome.fingerprint)
  marked : Marked w outcome.fingerprint → outcome.installed = false ∧ w'.ran = w.ran

theorem safe_install (paths : Paths) {request : Request} {name : Str}
    (hrequest : request ∈ requests) (hsound : Sound sha256 requests link w)
    (hlock : calm → checkLock sha256 request lock = .ok name) (hopen : calm → Open paths w) :
    Safe sha256 requests link lock calm (fun w' => w'.link = w.link)
      (fun outcome w' => Installed paths request w outcome w' ∧ (calm → outcome.fingerprint = name))
      (install sha256 paths request) w := by
  refine (safe_readRegularFile hsound).bind fun bytes w₁ hw₁ => ?_
  obtain ⟨rfl, hbytes⟩ := hw₁
  cases hcheck : checkLock sha256 request bytes with
  | error refusal =>
    refine ⟨rfl, fun h => ?_⟩
    rw [hbytes h, hlock h] at hcheck
    cases hcheck
  | ok found =>
    have hname : calm → found = name := by
      intro h
      rw [hbytes h, hlock h] at hcheck
      exact (Except.ok.inj hcheck).symm
    have hverified : Verified sha256 requests bytes found := ⟨request, hrequest, hcheck⟩
    refine (safe_checkRoot paths hsound (fun _ => rfl)
      fun h => ⟨(hopen h).rootPath, (hopen h).root⟩).bind fun _ w₂ hw₂ => ?_
    obtain ⟨⟨root, rfl⟩, hroot⟩ := hw₂
    have hsound₂ : Sound sha256 requests link { w₁ with root := root } :=
      hsound.congr rfl rfl rfl rfl rfl
    refine (safe_copyLock found bytes hsound₂ ?_ fun _ => hroot).bind fun _ w₃ hw₃ => ?_
    · rintro w' ⟨_, _, rfl⟩
      rfl
    have hsound₃ := hw₃.sound (hsound₂.put_requirements found bytes)
    obtain ⟨temps, written, rfl⟩ := hw₃
    refine (safe_installEnvironment (isFingerprint_of_checkLock hcheck) hverified hsound₃
      (put_self _)).bind fun installed w₄ hw₄ => ?_
    obtain ⟨hsound₄, hmarked, hlink, hparent, _, hran⟩ := hw₄
    have hkept : Marked (World.put { w₁ with root := root } (.requirements found) bytes) found ↔
        Marked { w₁ with root := root } found := marked_put_requirements
    have hnothing : Marked w₁ found → installed = false ∧ w₄.ran = w₁.ran :=
      fun h => hran (hkept.mpr h)
    refine Safe.bind (m := fun _ w' => w'.ran = w₄.ran ∧
      (request.link = true → w'.link = .symlink (.playbook found))) ?_ fun _ w₅ hw₅ => ?_
    · rw [moveLink]
      split_ifs with hasked
      · refine (safe_pointLink paths request.pid hsound₄ hlink hmarked fun h => ?_).mono
          fun _ w' hw' => ⟨hw'.2.2, fun _ => hw'.2.1⟩
        refine ⟨(hopen h).linkPath, hparent.trans (hopen h).linkParent, ?_⟩
        rw [hlink]
        exact (hopen h).link
      · exact ⟨rfl, fun h => absurd h hasked⟩
    · obtain ⟨hran₅, hlink₅⟩ := hw₅
      refine ⟨⟨rfl, rfl, hlink₅, fun h => ?_⟩, hname⟩
      exact ⟨(hnothing h).1, hran₅.trans (hnothing h).2⟩

section Histories

abbrev installs (sha256 : Bytes → Bytes) (paths : Paths) (requests : Set Request) :
    Set (InstallProg Outcome) :=
  {p | ∃ request ∈ requests, p = install sha256 paths request}

variable {paths : Paths} {start : World} {rest : Option (InstallProg Outcome)}

theorem install_keeps {request : Request} (hrequest : request ∈ requests)
    (hsound : Sound sha256 requests link w) :
    (install sha256 paths request).KeepsAlone Does (Sound sha256 requests link)
      (Ends False (fun w' => w'.link = w.link) fun outcome w' => Installed paths request w outcome w')
      w := by
  have hsafe : Safe sha256 requests link [] False (fun w' => w'.link = w.link)
      (fun outcome w' => Installed paths request w outcome w' ∧ (False → outcome.fingerprint = []))
      (install sha256 paths request) w := safe_install paths hrequest hsound nofun nofun
  exact KeepsAlone.of_subset (fun _ _ _ _ h => ⟨h, nofun⟩) (hsafe.mono fun _ _ h => h.1)

theorem sound_of_moment (hstart : Sound sha256 requests link start)
    (h : Moment Does (installs sha256 paths requests) start w rest) :
    Sound sha256 requests link w := by
  refine (keepsAlone_of_moment hstart ?_ h).1
  rintro _ ⟨request, hrequest, rfl⟩ w hw
  exact Keeps.mono (install_keeps hrequest hw) fun _ _ _ => trivial

/-- The directories are as they were, or made by the program. -/
def Settled (start w : World) : Prop :=
  (w.root = start.root ∨ w.root = some World.newRoot) ∧ w.linkParent = start.linkParent

theorem Settled.step {op : Op} {a : Ans op} {w' : World} (h : Settled start w)
    (hdoes : Does w op a w') : Settled start w' := by
  cases hdoes with
  | mkdirRoot _ => exact ⟨Or.inr rfl, h.2⟩
  | _ => exact h

theorem open_of_moment (hstart : Sound sha256 requests start.link start) (hopen : Open paths start)
    (h : Moment Does (installs sha256 paths requests) start w rest) : Open paths w := by
  have hsettled : Settled start start := ⟨Or.inl rfl, rfl⟩
  have hkept : Settled start w := moment_of_step hsettled (fun _ _ _ _ => Settled.step) h
  refine ⟨hopen.rootPath, ?_, hopen.linkPath, hkept.2.trans hopen.linkParent, ?_⟩
  · rcases hkept.1 with hroot | hroot
    · rw [hroot]
      exact hopen.root
    · rintro info hinfo
      rw [hroot, Option.some.injEq] at hinfo
      subst hinfo
      exact ⟨rfl, rfl, rfl, rfl⟩
  · rcases (sound_of_moment hstart h).link with hlink | ⟨name, hlink, _⟩
    · rw [hlink]
      exact hopen.link
    · rw [hlink]
      exact nofun

theorem acts_total (lock : Bytes) (w : World) (op : Op) :
    ∃ a w', Acts lock True w op a w' := by
  have hfines : ∃ a w', Does w op a w' ∧ Fine (fun _ a => a = none) Does w op a :=
    exists_fine (fun w op => ⟨none, w, .raised⟩) w op
  obtain ⟨a, w', hdoes, hfine⟩ := hfines
  cases op with
  | readLock =>
    exact ⟨some (.ok lock : Except Reason Bytes), w, .readLock, fun _ => ⟨fun h => absurd h (Option.some_ne_none _), rfl⟩⟩
  | run command =>
    cases command with
    | venv python name clear =>
      by_cases hplain : (w.venvs name).plain = true
      · have hleaves : Leaves (w.venvs name) (.directory ⟨true, false⟩) := by
          rw [Leaves, if_pos hplain]
          rfl
        refine ⟨some (0 : Int), _, .runVenv hleaves (Or.inl rfl) (Finset.Subset.refl _),
          fun _ => ⟨fun h => absurd h (Option.some_ne_none _), fun _ => ⟨rfl, _, Function.update_self _ _ _, rfl⟩⟩⟩
      · exact ⟨a, w', hdoes, fun _ => ⟨hfine, fun h => absurd h hplain⟩⟩
    | pip name =>
      by_cases henv : ∃ env, w.venvs name = .directory env
      · have hleaves : Leaves (w.venvs name) (.directory ⟨true, true⟩) := by
          obtain ⟨env, henv⟩ := henv
          rw [Leaves, henv]
          rfl
        refine ⟨some (0 : Int), _, .runPip hleaves,
          fun _ => ⟨fun h => absurd h (Option.some_ne_none _), fun _ => ⟨rfl, _, Function.update_self _ _ _, rfl⟩⟩⟩
      · exact ⟨a, w', hdoes, fun _ => ⟨hfine, fun h => absurd h henv⟩⟩
  | _ => exact ⟨a, w', hdoes, fun _ => ⟨hfine, trivial⟩⟩

/-- The runtime link only ever names a finished environment, over every history of installs on one
root and one link. -/
theorem link_names_finished (sha256 : Bytes → Bytes) (paths : Paths) (requests : Set Request)
    (start : World) (hstart : Sound sha256 requests start.link start) :
    (∀ w rest, Moment Does (installs sha256 paths requests) start w rest → w.link = start.link ∨
        ∃ name, w.link = .symlink (.playbook name) ∧ Earned sha256 requests w name) ∧
    (∀ w, Moment Does (installs sha256 paths requests) start w none →
      ∀ request ∈ requests, ∀ refusal w',
        Exec Does (install sha256 paths request) w (.error (.refusal refusal)) w' →
          w'.link = w.link) ∧
    (Open paths start → ∀ w, Moment Does (installs sha256 paths requests) start w none →
      ∀ request ∈ requests, request.link = true → ∀ lock name,
        checkLock sha256 request lock = .ok name →
          (∃ r w', Exec (Acts lock True) (install sha256 paths request) w r w') ∧
          ∀ r w', Exec (Acts lock True) (install sha256 paths request) w r w' →
            ∃ outcome, r = .ok outcome ∧ outcome.fingerprint = name ∧
              w'.link = .symlink (.playbook name) ∧
              (Marked w name → outcome.installed = false ∧ w'.ran = w.ran)) := by
  refine ⟨fun w rest h => ?_, fun w h request hrequest refusal w' hexec => ?_,
    fun hopen w h request hrequest hasked lock name hlock => ⟨?_, fun r w' hexec => ?_⟩⟩
  · have hsound := sound_of_moment hstart h
    rcases hsound.link with hlink | ⟨name, hlink, hmarked⟩
    · exact Or.inl hlink
    · exact Or.inr ⟨name, hlink, hsound.earned name hmarked⟩
  · have hends := (install_keeps hrequest (sound_of_moment hstart h)).result hexec
    exact hends.1
  · exact exec_exists (acts_total lock) _ w
  · have hsafe : Safe sha256 requests start.link lock True (fun w' => w'.link = w.link)
        (fun outcome w' => Installed paths request w outcome w' ∧
          (True → outcome.fingerprint = name))
        (install sha256 paths request) w :=
      safe_install paths hrequest (sound_of_moment hstart h) (fun _ => hlock)
        fun _ => open_of_moment hstart hopen h
    have hends := hsafe.result hexec
    cases r with
    | error _ => exact absurd trivial hends.2
    | ok outcome =>
      obtain ⟨hinstalled, hname⟩ := hends
      obtain rfl := hname trivial
      exact ⟨outcome, rfl, rfl, hinstalled.link hasked, hinstalled.marked⟩

/-- A root with nothing in it and no link yet. -/
def emptyWorld : World where
  root := none
  files _ := .absent
  temps := ∅
  written _ := []
  venvs _ := .absent
  link := .absent
  linkParent := true
  newLinks _ := .absent
  ran := []

theorem sound_emptyWorld (sha256 : Bytes → Bytes) (requests : Set Request) :
    Sound sha256 requests .absent emptyWorld where
  requirements _ := nofun
  marker _ := Or.inl rfl
  venv _ := rfl
  newLink _ := nofun
  earned _ := nofun
  link := Or.inl rfl

/-- SHA-256 of the text of `smallLock` and of the same text without the last newline. -/
def smallSha256 (data : Bytes) : Bytes :=
  if data = smallLock then
    [0, 20, 167, 133, 10, 110, 196, 252, 80, 234, 219, 137, 33, 53, 94, 255, 68, 47, 181, 209, 167,
      13, 58, 89, 188, 56, 194, 58, 31, 244, 238, 205]
  else
    [36, 4, 251, 250, 56, 169, 210, 175, 74, 92, 196, 43, 40, 42, 212, 71, 131, 170, 230, 132, 132,
      196, 24, 197, 91, 45, 23, 77, 37, 40, 113, 149]

def smallRequest : Request where
  lockSha256 := hexdigest smallSha256 smallLock
  link := true
  expectFingerprint := some "2404fbfa38a9d2af".toList
  python := "/usr/bin/python3".toList
  pid := 7

def defaultPaths : Paths := ⟨"/opt/ansible-runtime".toList, "/usr/local/bin/ansible-playbook".toList⟩

/-- A first install on an empty root ends with the link on its environment. -/
theorem link_names_finished_emptyWorld :
    ∃ outcome w',
      Exec (Acts smallLock True) (install smallSha256 defaultPaths smallRequest) emptyWorld
        (.ok outcome) w' ∧
      w'.link = .symlink (.playbook "2404fbfa38a9d2af".toList) := by
  have hopen : Open defaultPaths emptyWorld := ⟨by decide, nofun, by decide, rfl, nofun⟩
  have hcheck : checkLock smallSha256 smallRequest smallLock = .ok "2404fbfa38a9d2af".toList := by
    rw [checkLock, smallLock_hashed]
    decide +kernel
  obtain ⟨⟨r, w', hexec⟩, hresult⟩ :=
    (link_names_finished smallSha256 defaultPaths {smallRequest} emptyWorld
      (sound_emptyWorld smallSha256 {smallRequest})).2.2 hopen emptyWorld .start smallRequest rfl rfl
      smallLock "2404fbfa38a9d2af".toList hcheck
  obtain ⟨outcome, rfl, _, hlink, _⟩ := hresult r w' hexec
  exact ⟨outcome, w', hexec, hlink⟩

end Histories

end SharedInfra.AnsibleRuntime
