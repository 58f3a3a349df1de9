import SharedInfra.DeploySlots.HostChanges

/-!
# Refused grants and revokes

A call that is refused before its first write leaves the host as it was.  Once the register has
been changed, two things are still refused: a key whose fingerprint cannot be taken, and a
register file that has lost the file it linked to (`refused_unchanged_iff`).
-/

namespace SharedInfra.DeploySlots

open Python Effects Prog

section Publishing

variable {h h' : Host} {names : List Str} {gid : Nat}

/-- What a call does once it has changed the register. -/
def publish : FsProg Refusal Unit := do
  let slots ← readSlots
  writeAuthorizedKeys slots

theorem slotLine_ok {stack : Str} {fields : Str × Str} (hstack : isStackName stack = true)
    (hkey : IsKey fields) :
    slotLine stack (keyText fields) = .ok (slotLineText stack (keyText fields)) := by
  rw [slotLine, validateStackName, if_pos hstack, matchPublicKey_keyText hkey]
  rfl

theorem renderAuthorizedKeys_ok {bodies : Bodies} {slots : Slots} (existing : Str)
    (h : slotsOf bodies names ∅ = .ok slots) :
    ∃ text, renderAuthorizedKeys existing slots = .ok text := by
  have hlines : ∃ lines, slotLines slots = .ok lines := by
    rw [slotLines, mapM_succeeds_iff]
    rintro ⟨stack, key⟩ hmem
    rw [Slots.items, List.mem_filterMap] at hmem
    obtain ⟨other, _, hlookup⟩ := hmem
    rw [Option.map_eq_some_iff] at hlookup
    obtain ⟨found, hfound, heq⟩ := hlookup
    cases heq
    rcases (slotsOf_ok h).2 stack key hfound with hempty | ⟨name, _, hentry⟩
    · simp at hempty
    · obtain ⟨_, hstack, fields, rfl, hkey⟩ := entryOf_ok hentry
      refine ⟨(stack, slotLineText stack (keyText fields)), ?_⟩
      show (do return (stack, ← slotLine stack (keyText fields))) = _
      rw [slotLine_ok hstack hkey]
      rfl
  obtain ⟨lines, hlines⟩ := hlines
  rw [renderAuthorizedKeys, hlines]
  exact ⟨_, rfl⟩

theorem publish_not_refused (hgid : h.accounts deployAccount = some gid)
    (hentries : ∀ names, h.listdir slotDir = .ok names →
      ∀ name ∈ names, ∃ entry, entryOf h.bodies name = .ok entry) (reason : Refusal) (h' : Host) :
    publish.run Host.handle h ≠ (.error (.refused reason), h') := by
  intro hrun
  rcases refused_bind hrun with hread | ⟨slots, mid, hread, hwrite⟩
  · rw [readSlots_run] at hread
    cases hlist : h.listdir slotDir with
    | error e =>
      rw [hlist] at hread
      cases hread
    | ok names =>
      rw [hlist] at hread
      have hall : ∀ name ∈ names.mergeSort (· ≤ ·), ∃ entry, entryOf h.bodies name = .ok entry :=
        fun name hname => hentries names hlist name (List.mem_mergeSort.mp hname)
      obtain ⟨slots, hslots⟩ := slotsOf_of_entries ∅ hall
      simp only [hslots] at hread
      cases hread
  · rw [readSlots_run] at hread
    obtain ⟨hslots, rfl⟩ := Prod.mk.inj hread
    cases hlist : h.listdir slotDir with
    | error e =>
      rw [hlist] at hslots
      cases hslots
    | ok names =>
      rw [hlist] at hslots
      rw [writeAuthorizedKeys, run_bind, run_readText] at hwrite
      cases htext : textOf h.bodies authorizedKeys with
      | error e =>
        rw [htext] at hwrite
        cases hwrite
      | ok existing =>
        rw [htext] at hwrite
        obtain ⟨rendered, hrendered⟩ := renderAuthorizedKeys_ok existing hslots
        have hwritten : NeverRefuses (Fs.replaceText authorizedKeys rendered
            authorizedKeysMode 0 gid : FsProg Refusal Unit) :=
          neverRefuses_orRaise (neverRefuses_ask _)
        have haccount : (accountGid deployAccount).run Host.handle h = (.ok gid, h) := by
          rw [accountGid, Fs.accountGid, run_bind, run_ask]
          simp only [Host.handle, hgid]
          rfl
        simp only [Except.mapError, hrendered, orRefuse, pure_bind] at hwrite
        rw [run_bind_ok haccount] at hwrite
        exact hwritten h reason h' hwrite

theorem publish_refused (hlist : h.listdir slotDir = .ok names)
    (hos : ∀ name ∈ names, ∀ e, entryOf h.bodies name ≠ .error (.os e))
    (hsome : ∃ name ∈ names, ∀ entry, entryOf h.bodies name ≠ .ok entry) :
    ∃ reason, publish.run Host.handle h = (.error (.refused reason), h) := by
  have hnone : ∃ name ∈ names.mergeSort (· ≤ ·), ∀ entry, entryOf h.bodies name ≠ .ok entry := by
    obtain ⟨name, hname, hnone⟩ := hsome
    exact ⟨name, List.mem_mergeSort.mpr hname, hnone⟩
  obtain ⟨reason, hrefused⟩ := slotsOf_refused ∅
    (fun name hname => hos name (List.mem_mergeSort.mp hname)) hnone
  refine ⟨reason, ?_⟩
  rw [publish, run_bind, readSlots_run, hlist]
  simp only [hrefused]

end Publishing

section Changing

variable {h h' : Host}

theorem bodies_put (path : Str) (node : Node) (other : Str) :
    (h.put path node).bodies other = if other = path then some node.body else h.bodies other := by
  by_cases hother : other = path
  · subst hother
    simp [Host.put, Host.bodies]
  · rw [if_neg hother, Host.put, Host.bodies, Host.bodies, Finmap.lookup_insert_of_ne _ hother]

/-- What making directories adds. -/
structure Adds (dirs : List Str) (h h' : Host) : Prop where
  accounts : h'.accounts = h.accounts
  kept : ∀ path body, h.bodies path = some body → h'.bodies path = some body
  new : ∀ path, h.bodies path = none → h'.bodies path ≠ none → path ∈ dirs

theorem adds_put {path : Str} (node : Node) (habsent : h.bodies path = none) :
    Adds [path] h (h.put path node) := by
  refine ⟨rfl, fun other body hbody => ?_, fun other hnone hsome => ?_⟩
  · have hne : other ≠ path := by
      rintro rfl
      rw [habsent] at hbody
      cases hbody
    rw [bodies_put, if_neg hne]
    exact hbody
  · rw [bodies_put] at hsome
    split_ifs at hsome with hother
    · exact List.mem_singleton.mpr hother
    · exact absurd hnone hsome

theorem Adds.trans {dirs dirs' : List Str} {mid : Host} (hfirst : Adds dirs h mid)
    (hsecond : Adds dirs' mid h') : Adds (dirs ++ dirs') h h' := by
  refine ⟨hsecond.accounts.trans hfirst.accounts,
    fun path body hbody => hsecond.kept path body (hfirst.kept path body hbody),
    fun path hnone hsome => ?_⟩
  by_cases hmid : mid.bodies path = none
  · exact List.mem_append_right _ (hsecond.new path hmid hsome)
  · exact List.mem_append_left _ (hfirst.new path hnone hmid)

theorem adds_refl (dirs : List Str) (h : Host) : Adds dirs h h :=
  ⟨rfl, fun _ _ hbody => hbody, fun _ hnone hsome => absurd hnone hsome⟩

theorem adds_putNew (path : Str) (node : Node) (h : Host) : Adds [path] h (h.putNew path node) := by
  rw [Host.putNew]
  split_ifs with hmem
  · exact adds_refl _ h
  · exact adds_put node (by simpa [mem_nodes_iff] using hmem)

theorem adds_foldl (dirs : List Str) (node : Node) (h : Host) :
    Adds dirs h (dirs.foldl (fun h dir => h.putNew dir node) h) := by
  induction dirs generalizing h with
  | nil => exact adds_refl _ h
  | cons dir dirs ih => exact (adds_putNew dir node h).trans (ih _)

theorem makedirs_adds {path : Str} {mode : Mode} (hok : (h.makedirs path mode).1 = .ok ()) :
    Adds (ancestors path ++ [path]) h (h.makedirs path mode).2 := by
  rw [Host.makedirs] at hok ⊢
  cases hlookup : h.nodes.lookup path with
  | some node => exact adds_refl _ h
  | none =>
    rw [hlookup] at hok
    dsimp only at hok ⊢
    split_ifs at hok ⊢ with hall
    have habove := adds_foldl (ancestors path) ⟨.dir, 0, 0, Host.parentMode⟩ h
    refine habove.trans (adds_put _ ?_)
    by_contra hsome
    have hmem := habove.new path (by rw [Host.bodies, hlookup]; rfl) hsome
    exact absurd (length_of_mem_ancestors hmem) (lt_irrefl _)

theorem entryOf_of_text {bodies : Bodies} {name text key : Str}
    (hpub : endsWith name pubSuffix = true)
    (hstack : isStackName (removeSuffix name pubSuffix) = true)
    (htext : textOf bodies (joinPath slotDir name) = .ok text)
    (hkey : normalisePublicKey text = .ok key) :
    entryOf bodies name = .ok (removeSuffix name pubSuffix, key) := by
  rw [entryOf, if_pos hpub, validateStackName, if_pos hstack, htext]
  dsimp only [pure, Except.pure]
  rw [hkey]

theorem entryOf_text {bodies : Bodies} {name : Str} {entry : Str × Str}
    (h : entryOf bodies name = .ok entry) :
    endsWith name pubSuffix = true ∧ isStackName (removeSuffix name pubSuffix) = true ∧
      ∃ text, textOf bodies (joinPath slotDir name) = .ok text ∧
        normalisePublicKey text = .ok entry.2 := by
  rw [entryOf] at h
  split_ifs at h with hpub
  split at h
  · cases h
  · rename_i hstack
    split at h
    · cases h
    · rename_i text htext
      split at h
      · cases h
      · rename_i key hkey
        cases h
        rw [validateStackName] at hstack
        split_ifs at hstack with hvalid
        exact ⟨hpub, hvalid, text, htext, hkey⟩

theorem entryOf_written {bodies bodies' : Bodies} {stack name : Str} {fields : Str × Str}
    (hkey : IsKey fields)
    (hfile : bodies' (slotPath stack) = some (.file (keyText fields ++ ['\n'])))
    (hkept : ∀ path body, path ≠ slotPath stack → bodies path = some body →
      bodies' path = some body)
    (hentry : ∃ entry, entryOf bodies name = .ok entry) :
    ∃ entry, entryOf bodies' name = .ok entry := by
  obtain ⟨entry, hentry⟩ := hentry
  obtain ⟨hpub, hstack, text, htext, hread⟩ := entryOf_text hentry
  have hnew : ∃ raw, followBody bodies' Host.maxLinks (joinPath slotDir name) = .ok (.file raw) ∧
      ∃ key, normalisePublicKey (universalNewlines raw) = .ok key := by
    rw [textOf] at htext
    cases hfollow : followBody bodies Host.maxLinks (joinPath slotDir name) with
    | error e =>
      rw [hfollow] at htext
      cases e with
      | notFound =>
        cases htext
        cases hread
      | _ => cases htext
    | ok body =>
      rw [hfollow] at htext
      cases body with
      | file raw =>
        cases htext
        rcases followBody_written hfile hkept hfollow with hsame | hwritten
        · exact ⟨raw, hsame, entry.2, hread⟩
        · exact ⟨_, hwritten, _, normalisePublicKey_line hkey⟩
      | _ => cases htext
  obtain ⟨raw, hfollow, key, hnormal⟩ := hnew
  refine ⟨_, entryOf_of_text hpub hstack ?_ hnormal⟩
  rw [textOf, hfollow]

theorem removeSuffix_append (stack : Str) : removeSuffix (stack ++ pubSuffix) pubSuffix = stack := by
  have hpub : endsWith (stack ++ pubSuffix) pubSuffix = true :=
    List.isSuffixOf_iff_suffix.mpr (List.suffix_append _ _)
  simp [removeSuffix, hpub]

theorem entryOf_self {bodies : Bodies} {stack : Str} {fields : Str × Str} (hkey : IsKey fields)
    (hstack : isStackName stack = true)
    (hfile : bodies (slotPath stack) = some (.file (keyText fields ++ ['\n']))) :
    ∃ entry, entryOf bodies (stack ++ pubSuffix) = .ok entry := by
  have hpub : endsWith (stack ++ pubSuffix) pubSuffix = true :=
    List.isSuffixOf_iff_suffix.mpr (List.suffix_append _ _)
  refine ⟨_, entryOf_of_text hpub ?_ ?_ (normalisePublicKey_line hkey)⟩
  · rw [removeSuffix_append]
    exact hstack
  · have hbody : bodies (joinPath slotDir (stack ++ pubSuffix)) =
        some (.file (keyText fields ++ ['\n'])) := hfile
    rw [textOf, Host.maxLinks, followBody, hbody]

/-- What `grant` checks first. -/
def grantChecks (stack publicKeyText : Str) (adoptExistingStack : Bool) :
    FsProg Refusal (Str × Slots) := do
  orRefuse (validateStackName stack)
  let publicKey ← orRefuse (normalisePublicKey publicKeyText)
  let slots ← readSlots
  let authorizedText ← Fs.readText authorizedKeys
  orRefuse (reconcile slots authorizedText)
  orRefuse (assertKeyIsUnused stack publicKey slots authorizedText)
  checkNewStack stack slots adoptExistingStack
  return (publicKey, slots)

/-- What `grant` does to the host up to the register. -/
def enterSlot (stack publicKey : Str) : FsProg Refusal Unit := do
  hardenDeployPaths
  Fs.makedirs slotDir slotDirMode
  Fs.chown slotDir 0 0
  Fs.chmod slotDir slotDirMode
  Fs.replaceText (slotPath stack) (publicKey ++ ['\n']) slotFileMode 0 0

/-- `grant` until the key is in the register: the key, and the slots before. -/
def grantWrites (stack publicKeyText : Str) (adoptExistingStack : Bool) :
    FsProg Refusal (Str × Slots) := do
  let found ← grantChecks stack publicKeyText adoptExistingStack
  enterSlot stack found.1
  return found

theorem grant_eq (stack publicKeyText : Str) (adoptExistingStack : Bool) :
    grant stack publicKeyText adoptExistingStack = (do
      let found ← grantWrites stack publicKeyText adoptExistingStack
      orRefuse (reportGranted (found.2.lookup stack) found.1)
      publish) := by
  simp only [grant, grantWrites, grantChecks, enterSlot, publish, bind_assoc, pure_bind]

/-- What `revoke` checks first. -/
def revokeChecks (stack : Str) : FsProg Refusal Unit := do
  orRefuse (validateStackName stack)
  let slots ← readSlots
  let authorizedText ← Fs.readText authorizedKeys
  orRefuse (reconcile slots authorizedText)
  if stack ∈ slots then pure () else raise (.refused (.noSlot stack))

/-- `revoke` until the key is out of the register. -/
def revokeWrites (stack : Str) : FsProg Refusal Unit := do
  revokeChecks stack
  hardenDeployPaths
  Fs.remove (slotPath stack)

theorem revoke_eq (stack : Str) : revoke stack = (do
    revokeWrites stack
    publish) := by
  simp only [revoke, revokeWrites, revokeChecks, publish, bind_assoc]
  refine bind_congr fun _ => bind_congr fun slots => bind_congr fun text => bind_congr fun _ => ?_
  split_ifs
  · rfl
  · rfl

theorem reads_orRefuse {α : Type} (r : Except Refusal α) :
    (orRefuse r : FsProg Refusal α).Reads Host.handle := by
  intro h
  rw [run_orRefuse]

theorem reads_readText (path : Str) :
    (Fs.readText path : FsProg Refusal Str).Reads Host.handle := by
  intro h
  rw [run_readText]

theorem reads_readSlots : readSlots.Reads Host.handle := by
  intro h
  rw [readSlots_run]

theorem reads_checkNewStack (stack : Str) (slots : Slots) (adoptExistingStack : Bool) :
    (checkNewStack stack slots adoptExistingStack).Reads Host.handle := by
  rw [checkNewStack]
  split_ifs
  · exact reads_pure ()
  · refine reads_bind (reads_orRaise fun _ => rfl) fun existing => ?_
    split_ifs
    · exact reads_raise _
    · exact reads_pure ()

theorem reads_grantChecks (stack publicKeyText : Str) (adoptExistingStack : Bool) :
    (grantChecks stack publicKeyText adoptExistingStack).Reads Host.handle := by
  refine reads_bind (reads_orRefuse _) fun _ => ?_
  refine reads_bind (reads_orRefuse _) fun publicKey => ?_
  refine reads_bind reads_readSlots fun slots => ?_
  refine reads_bind (reads_readText _) fun authorizedText => ?_
  refine reads_bind (reads_orRefuse _) fun _ => ?_
  refine reads_bind (reads_orRefuse _) fun _ => ?_
  refine reads_bind (reads_checkNewStack _ _ _) fun _ => ?_
  exact reads_pure _

theorem reads_revokeChecks (stack : Str) : (revokeChecks stack).Reads Host.handle := by
  refine reads_bind (reads_orRefuse _) fun _ => ?_
  refine reads_bind reads_readSlots fun slots => ?_
  refine reads_bind (reads_readText _) fun authorizedText => ?_
  refine reads_bind (reads_orRefuse _) fun _ => ?_
  split_ifs
  · exact reads_pure ()
  · exact reads_raise _

theorem keepsWhenRefused_grantWrites (stack publicKeyText : Str) (adoptExistingStack : Bool) :
    KeepsWhenRefused (grantWrites stack publicKeyText adoptExistingStack) := by
  refine keepsWhenRefused_reads_bind (reads_grantChecks _ _ _) fun found => ?_
  refine keepsWhenRefused_bind ?_ fun _ => neverRefuses_pure found
  refine keepsWhenRefused_bind keepsWhenRefused_hardenDeployPaths fun _ => ?_
  refine neverRefuses_bind (neverRefuses_orRaise (neverRefuses_ask _)) fun _ => ?_
  refine neverRefuses_bind (neverRefuses_orRaise (neverRefuses_ask _)) fun _ => ?_
  refine neverRefuses_bind (neverRefuses_orRaise (neverRefuses_ask _)) fun _ => ?_
  exact neverRefuses_orRaise (neverRefuses_ask _)

theorem keepsWhenRefused_revokeWrites (stack : Str) : KeepsWhenRefused (revokeWrites stack) := by
  refine keepsWhenRefused_reads_bind (reads_revokeChecks _) fun _ => ?_
  refine keepsWhenRefused_bind keepsWhenRefused_hardenDeployPaths fun _ => ?_
  exact neverRefuses_orRaise (neverRefuses_ask _)

end Changing

section Refused

variable {h h' : Host} {stack publicKeyText : Str} {adoptExistingStack : Bool}

theorem grantChecks_ok {found : Str × Slots}
    (hrun : (grantChecks stack publicKeyText adoptExistingStack).run Host.handle h =
      (.ok found, h')) :
    h' = h ∧ isStackName stack = true ∧ (∃ fields, found.1 = keyText fields ∧ IsKey fields) ∧
      ∃ names, h.listdir slotDir = .ok names ∧
        slotsOf h.bodies (names.mergeSort (· ≤ ·)) ∅ = .ok found.2 := by
  have hstate := reads_grantChecks stack publicKeyText adoptExistingStack h
  rw [hrun] at hstate
  obtain ⟨_, first, hfirst, hrest⟩ := of_run_bind_ok hrun
  rw [run_orRefuse] at hfirst
  obtain ⟨hvalid, rfl⟩ := Prod.mk.inj hfirst
  obtain ⟨key, second, hsecond, hrest⟩ := of_run_bind_ok hrest
  rw [run_orRefuse] at hsecond
  obtain ⟨hkey, rfl⟩ := Prod.mk.inj hsecond
  obtain ⟨slots, third, hread, hrest⟩ := of_run_bind_ok hrest
  rw [readSlots_run] at hread
  obtain ⟨hslots, rfl⟩ := Prod.mk.inj hread
  obtain ⟨_, _, _, hrest⟩ := of_run_bind_ok hrest
  obtain ⟨_, _, _, hrest⟩ := of_run_bind_ok hrest
  obtain ⟨_, _, _, hrest⟩ := of_run_bind_ok hrest
  obtain ⟨_, _, _, hrest⟩ := of_run_bind_ok hrest
  cases hrest
  refine ⟨hstate, ?_, ?_, ?_⟩
  · rw [validateStackName] at hvalid
    split_ifs at hvalid with hname
    · exact hname
    · cases hvalid
  · cases hnormal : normalisePublicKey publicKeyText with
    | error reason =>
      rw [hnormal] at hkey
      cases hkey
    | ok found =>
      rw [hnormal] at hkey
      cases hkey
      exact normalisePublicKey_ok hnormal
  · cases hlist : h.listdir slotDir with
    | error e =>
      rw [hlist] at hslots
      cases hslots
    | ok names =>
      rw [hlist] at hslots
      exact ⟨names, rfl, hslots⟩

theorem revokeChecks_ok (hrun : (revokeChecks stack).run Host.handle h = (.ok (), h')) :
    h' = h ∧ ∃ names slots, h.listdir slotDir = .ok names ∧
      slotsOf h.bodies (names.mergeSort (· ≤ ·)) ∅ = .ok slots ∧ stack ∈ slots := by
  have hstate := reads_revokeChecks stack h
  rw [hrun] at hstate
  obtain ⟨_, first, hfirst, hrest⟩ := of_run_bind_ok hrun
  rw [run_orRefuse] at hfirst
  obtain ⟨_, rfl⟩ := Prod.mk.inj hfirst
  obtain ⟨slots, second, hread, hrest⟩ := of_run_bind_ok hrest
  rw [readSlots_run] at hread
  obtain ⟨hslots, rfl⟩ := Prod.mk.inj hread
  obtain ⟨_, _, _, hrest⟩ := of_run_bind_ok hrest
  obtain ⟨_, _, _, hrest⟩ := of_run_bind_ok hrest
  refine ⟨hstate, ?_⟩
  cases hlist : h.listdir slotDir with
  | error e =>
    rw [hlist] at hslots
    cases hslots
  | ok names =>
    rw [hlist] at hslots
    refine ⟨names, slots, rfl, hslots, ?_⟩
    by_contra hno
    rw [if_neg hno] at hrest
    cases hrest

theorem orRaise_ok {α : Type} {q : FsProg Refusal (Except OsError α)} {a : α}
    (hrun : (orRaise q).run Host.handle h = (.ok a, h')) :
    q.run Host.handle h = (.ok (.ok a), h') := by
  obtain ⟨r, mid, hq, hrest⟩ := of_run_bind_ok hrun
  cases r with
  | ok b =>
    cases hrest
    exact hq
  | error e => cases hrest

theorem moved {α : Type} {R : Host → Host → Prop} {p : FsProg Refusal α} {a : α}
    (hp : p.Moves Host.handle R) (hrun : p.run Host.handle h = (.ok a, h')) : R h h' := by
  have hmoves := hp h
  rw [hrun] at hmoves
  exact hmoves

theorem bodies_replaceText {path text : Str} {mode : Mode} {uid gid : Nat}
    (hrun : (Fs.replaceText path text mode uid gid : FsProg Refusal Unit).run Host.handle h =
      (.ok (), h')) : h' = h.put path ⟨.file text, uid, gid, mode⟩ := by
  have hask := orRaise_ok hrun
  rw [run_ask] at hask
  simp only [Host.handle, Host.replaceText] at hask
  split_ifs at hask
  · cases hask
  · exact (Prod.mk.inj hask).2.symm
  · cases hask

theorem bodies_remove {path : Str}
    (hrun : (Fs.remove path : FsProg Refusal Unit).run Host.handle h = (.ok (), h')) :
    path ∈ h.nodes ∧ h' = { h with nodes := h.nodes.erase path } := by
  have hask := orRaise_ok hrun
  rw [run_ask] at hask
  simp only [Host.handle, Host.remove] at hask
  cases hlookup : h.nodes.lookup path with
  | none =>
    rw [hlookup] at hask
    cases hask
  | some node =>
    rw [hlookup] at hask
    dsimp only at hask
    split_ifs at hask
    · cases hask
    · exact ⟨Finmap.mem_iff.mpr ⟨node, hlookup⟩, (Prod.mk.inj hask).2.symm⟩

/-- What is in the place of the slot, and what was there before, after `grant` has written. -/
structure Written (stack key : Str) (h h' : Host) : Prop where
  accounts : h'.accounts = h.accounts
  file : h'.bodies (slotPath stack) = some (.file (key ++ ['\n']))
  kept : ∀ path body, path ≠ slotPath stack → h.bodies path = some body → h'.bodies path = some body
  new : ∀ path, path ≠ slotPath stack → h.bodies path = none → h'.bodies path ≠ none →
    path ∈ ancestors slotDir ++ [slotDir]

theorem enterSlot_ok {key : Str}
    (hrun : (enterSlot stack key).run Host.handle h = (.ok (), h')) :
    Written stack key h h' ∧ ∃ gid, h.accounts deployAccount = some gid := by
  obtain ⟨_, hardened, hharden, hrest⟩ := of_run_bind_ok hrun
  obtain ⟨_, made, hmake, hrest⟩ := of_run_bind_ok hrest
  obtain ⟨_, owned, hown, hrest⟩ := of_run_bind_ok hrest
  obtain ⟨_, closed, hclose, hwrite⟩ := of_run_bind_ok hrest
  obtain ⟨hbefore, haccount⟩ := hardenDeployPaths_ok hharden
  have hadds : Adds (ancestors slotDir ++ [slotDir]) hardened made := by
    have hask := orRaise_ok hmake
    rw [run_ask] at hask
    obtain ⟨hok, hmade⟩ := Prod.mk.inj hask
    rw [← hmade]
    exact makedirs_adds (Except.ok.inj hok)
  have hafter : SameBodies made closed :=
    sameBodies_trans _ _ _ (moved (sameBodies_chown _ _ _) hown)
      (moved (sameBodies_chmod _ _) hclose)
  obtain rfl := bodies_replaceText hwrite
  refine ⟨⟨?_, ?_, fun path body hne hbody => ?_, fun path hne hnone hsome => ?_⟩, haccount⟩
  · exact hafter.2.trans (hadds.accounts.trans hbefore.2)
  · rw [bodies_put, if_pos rfl]
  · rw [bodies_put, if_neg hne, hafter.1]
    exact hadds.kept path body (by rw [hbefore.1]; exact hbody)
  · rw [bodies_put, if_neg hne, hafter.1] at hsome
    exact hadds.new path (by rw [hbefore.1]; exact hnone) hsome

theorem slotDir_ne_nil : slotDir ≠ [] := by decide

theorem mem_of_mem_listdir {names : List Str} {name : Str} (hlist : h.listdir slotDir = .ok names)
    (hname : name ∈ names) : joinPath slotDir name ∈ h.nodes ∧ '/' ∉ name ∧ name ≠ [] := by
  rw [Host.listdir] at hlist
  split at hlist
  · cases hlist
    cases hname
  · split_ifs at hlist
    cases hlist
    exact mem_childNames.mp hname

theorem entries_of_written (htree : h.Tree) {fields : Str × Str} (hkey : IsKey fields)
    (hstack : isStackName stack = true) (hwritten : Written stack (keyText fields) h h')
    {names : List Str} {slots : Slots} (hlist : h.listdir slotDir = .ok names)
    (hslots : slotsOf h.bodies (names.mergeSort (· ≤ ·)) ∅ = .ok slots) :
    ∀ names', h'.listdir slotDir = .ok names' →
      ∀ name ∈ names', ∃ entry, entryOf h'.bodies name = .ok entry := by
  intro names' hlist' name hname
  obtain ⟨hmem, hslash, hne⟩ := mem_of_mem_listdir hlist' hname
  by_cases hself : joinPath slotDir name = slotPath stack
  · have hstackName : name = stack ++ pubSuffix := by simpa [joinPath, slotPath] using hself
    rw [hstackName]
    exact entryOf_self hkey hstack hwritten.file
  · have hold : joinPath slotDir name ∈ h.nodes := by
      by_contra hnew
      have hnone : h.bodies (joinPath slotDir name) = none := by
        by_contra hsome
        exact hnew (mem_nodes_iff.mpr hsome)
      -- A directory that was made on the way is not longer than the register's own path.
      have hshort : (joinPath slotDir name).length ≤ slotDir.length := by
        rcases List.mem_append.mp (hwritten.new _ hself hnone (mem_nodes_iff.mp hmem)) with
          habove | hdir
        · exact (length_of_mem_ancestors habove).le
        · rw [List.mem_singleton.mp hdir]
      simp [joinPath] at hshort
    have hdir : h.isDir slotDir = true :=
      htree _ hold _ (mem_ancestors_joinPath slotDir_ne_nil)
    have hlisted : name ∈ names := by
      rw [Host.listdir] at hlist
      split at hlist
      · rename_i habsent
        rw [Host.isDir, habsent] at hdir
        cases hdir
      · rw [if_pos hdir] at hlist
        cases hlist
        exact mem_childNames.mpr ⟨hold, hslash, hne⟩
    exact entryOf_written hkey hwritten.file hwritten.kept
      ((slotsOf_ok hslots).1 name (List.mem_mergeSort.mpr hlisted))

theorem grant_refused_unchanged_iff (htree : h.Tree) :
    (∀ reason h', (grant stack publicKeyText adoptExistingStack).run Host.handle h =
        (.error (.refused reason), h') → h' = h) ↔
      ∀ found h₁, (grantWrites stack publicKeyText adoptExistingStack).run Host.handle h =
        (.ok found, h₁) → reportGranted (found.2.lookup stack) found.1 = .ok () ∨ h₁ = h := by
  constructor
  · intro hkeeps found h₁ hwrites
    cases hreport : reportGranted (found.2.lookup stack) found.1 with
    | ok _ => exact Or.inl rfl
    | error reason =>
      right
      refine hkeeps reason h₁ ?_
      rw [grant_eq, run_bind_ok hwrites, run_bind, run_orRefuse, hreport]
      rfl
  · intro hcond reason h' hrun
    rw [grant_eq] at hrun
    rcases refused_bind hrun with hearly | ⟨found, h₁, hwrites, hlate⟩
    · exact keepsWhenRefused_grantWrites _ _ _ h reason h' hearly
    · rcases refused_bind hlate with hreport | ⟨_, mid, hreport, hpublish⟩
      · rw [run_orRefuse] at hreport
        obtain ⟨hreport, rfl⟩ := Prod.mk.inj hreport
        rcases hcond found h₁ hwrites with hok | hsame
        · rw [hok] at hreport
          cases hreport
        · exact hsame
      · rw [run_orRefuse] at hreport
        obtain ⟨_, rfl⟩ := Prod.mk.inj hreport
        obtain ⟨found', first, hchecks, hafter⟩ := of_run_bind_ok hwrites
        obtain ⟨rfl, hstack, ⟨fields, hfound, hkey⟩, names, hlist, hslots⟩ :=
          grantChecks_ok hchecks
        obtain ⟨_, second, henter, hreturn⟩ := of_run_bind_ok hafter
        obtain ⟨_, rfl⟩ := Prod.mk.inj hreturn
        obtain ⟨hwritten, gid, hgid⟩ := enterSlot_ok henter
        rw [hfound] at hwritten
        have haccount : second.accounts deployAccount = some gid := by
          rw [hwritten.accounts]
          exact hgid
        exact absurd hpublish (publish_not_refused haccount
          (entries_of_written htree hkey hstack hwritten hlist hslots) reason h')

theorem entryOf_removed {bodies bodies' : Bodies} {target name : Str}
    (hgone : bodies' target = none) (hkept : ∀ path, path ≠ target → bodies' path = bodies path)
    {entry : Str × Str} (hentry : entryOf bodies name = .ok entry) :
    entryOf bodies' name =
      if passes bodies target Host.maxLinks (joinPath slotDir name) = true then
        .error (.refused (.unusableEntry name (.keyLines 0)))
      else .ok entry := by
  obtain ⟨hpub, hstack, text, htext, hread⟩ := entryOf_text hentry
  have hfollow : ∃ raw, followBody bodies Host.maxLinks (joinPath slotDir name) =
      .ok (.file raw) := by
    rw [textOf] at htext
    cases hfollow : followBody bodies Host.maxLinks (joinPath slotDir name) with
    | error e =>
      rw [hfollow] at htext
      cases e with
      | notFound =>
        cases htext
        cases hread
      | _ => cases htext
    | ok body =>
      rw [hfollow] at htext
      cases body with
      | file raw => exact ⟨raw, rfl⟩
      | _ => cases htext
  obtain ⟨raw, hfollow⟩ := hfollow
  have hafter := followBody_removed hgone hkept hfollow
  split_ifs at hafter ⊢ with hpass
  · have hempty : textOf bodies' (joinPath slotDir name) = .ok [] := by rw [textOf, hafter]
    rw [entryOf, if_pos hpub, validateStackName, if_pos hstack, hempty]
    rfl
  · rw [← hentry, entryOf, entryOf]
    have hsame : textOf bodies' (joinPath slotDir name) = textOf bodies (joinPath slotDir name) := by
      rw [textOf, textOf, hafter, hfollow]
    rw [hsame]

theorem revokeWrites_ok (hrun : (revokeWrites stack).run Host.handle h = (.ok (), h')) :
    h'.bodies (slotPath stack) = none ∧
      (∀ path, path ≠ slotPath stack → h'.bodies path = h.bodies path) ∧
      h'.accounts = h.accounts ∧ slotPath stack ∈ h.nodes ∧
      (∃ gid, h.accounts deployAccount = some gid) ∧
      ∃ names slots, h.listdir slotDir = .ok names ∧
        slotsOf h.bodies (names.mergeSort (· ≤ ·)) ∅ = .ok slots ∧ stack ∈ slots := by
  obtain ⟨_, first, hchecks, hrest⟩ := of_run_bind_ok hrun
  obtain ⟨_, hardened, hharden, hremove⟩ := of_run_bind_ok hrest
  obtain ⟨rfl, hregister⟩ := revokeChecks_ok hchecks
  obtain ⟨hbefore, haccount⟩ := hardenDeployPaths_ok hharden
  obtain ⟨hmem, rfl⟩ := bodies_remove hremove
  refine ⟨?_, fun path hne => ?_, hbefore.2, ?_, haccount, hregister⟩
  · simp [Host.bodies]
  · rw [← hbefore.1]
    simp [Host.bodies, Finmap.lookup_erase_ne hne]
  · rw [mem_nodes_iff, ← hbefore.1]
    exact mem_nodes_iff.mp hmem

theorem slotPath_ne_slotDir (stack : Str) : slotDir ≠ slotPath stack := by
  intro heq
  have hlength := congrArg List.length heq
  simp [slotPath, joinPath] at hlength

theorem listdir_removed {h₁ : Host} (hgone : h₁.bodies (slotPath stack) = none)
    (hkept : ∀ path, path ≠ slotPath stack → h₁.bodies path = h.bodies path)
    {names : List Str} {slots : Slots} (hlist : h.listdir slotDir = .ok names)
    (hslots : slotsOf h.bodies (names.mergeSort (· ≤ ·)) ∅ = .ok slots) (hmem : stack ∈ slots) :
    names = h.childNames slotDir ∧ h₁.listdir slotDir = .ok (h₁.childNames slotDir) ∧
      ∀ name, name ∈ h₁.childNames slotDir ↔
        name ∈ h.childNames slotDir ∧ name ≠ stack ++ pubSuffix := by
  have hdir : h.isDir slotDir = true ∧ names = h.childNames slotDir := by
    rw [Host.listdir] at hlist
    split at hlist
    · cases hlist
      rcases (mem_slotsOf hslots).mp hmem with hempty | hlisted
      · exact absurd hempty Finmap.notMem_empty
      · exact absurd (List.mem_mergeSort.mp hlisted) List.not_mem_nil
    · split_ifs at hlist with hdir
      exact ⟨hdir, (Except.ok.inj hlist).symm⟩
  have hdir₁ : h₁.isDir slotDir = true := by
    rw [isDir_iff, hkept _ (slotPath_ne_slotDir stack)]
    exact isDir_iff.mp hdir.1
  refine ⟨hdir.2, ?_, fun name => ?_⟩
  · rw [Host.listdir]
    cases hlookup : h₁.nodes.lookup slotDir with
    | none =>
      rw [Host.isDir, hlookup] at hdir₁
      cases hdir₁
    | some node =>
      dsimp only
      rw [if_pos hdir₁]
  · have hpath : joinPath slotDir name = slotPath stack ↔ name = stack ++ pubSuffix := by
      simp [joinPath, slotPath]
    rw [mem_childNames, mem_childNames, mem_nodes_iff, mem_nodes_iff]
    by_cases hname : name = stack ++ pubSuffix
    · rw [hpath.mpr hname, hgone]
      simp [hname]
    · rw [hkept _ (mt hpath.mp hname)]
      simp [hname]

theorem revoke_refused_unchanged_iff :
    (∀ reason h', (revoke stack).run Host.handle h = (.error (.refused reason), h') → h' = h) ↔
      ∀ h₁, (revokeWrites stack).run Host.handle h = (.ok (), h₁) →
        ∀ name ∈ h.childNames slotDir, name ≠ stack ++ pubSuffix →
          passes h.bodies (slotPath stack) Host.maxLinks (joinPath slotDir name) = false := by
  constructor
  · intro hkeeps h₁ hwrites name hname hne
    obtain ⟨hgone, hkept, _, hpresent, _, names, slots, hlist, hslots, hmem⟩ :=
      revokeWrites_ok hwrites
    obtain ⟨rfl, hlist₁, hnames₁⟩ := listdir_removed hgone hkept hlist hslots hmem
    have hentries : ∀ other ∈ h₁.childNames slotDir, ∃ entry,
        entryOf h.bodies other = .ok entry := fun other hother =>
      (slotsOf_ok hslots).1 other (List.mem_mergeSort.mpr ((hnames₁ other).mp hother).1)
    rw [Bool.eq_false_iff]
    intro hpass
    obtain ⟨reason, hrefused⟩ := publish_refused hlist₁ (fun other hother e => by
        obtain ⟨entry, hentry⟩ := hentries other hother
        rw [entryOf_removed hgone hkept hentry]
        split_ifs <;> simp)
      ⟨name, (hnames₁ name).mpr ⟨hname, hne⟩, fun entry => by
        obtain ⟨found, hfound⟩ := hentries name ((hnames₁ name).mpr ⟨hname, hne⟩)
        rw [entryOf_removed hgone hkept hfound, if_pos hpass]
        simp⟩
    have hsame := hkeeps reason h₁ (by rw [revoke_eq, run_bind_ok hwrites, hrefused])
    rw [hsame] at hgone
    exact mem_nodes_iff.mp hpresent hgone
  · intro hcond reason h' hrun
    rw [revoke_eq] at hrun
    rcases refused_bind hrun with hearly | ⟨_, h₁, hwrites, hlate⟩
    · exact keepsWhenRefused_revokeWrites _ h reason h' hearly
    · obtain ⟨hgone, hkept, haccounts, _, ⟨gid, hgid⟩, names, slots, hlist, hslots, hmem⟩ :=
        revokeWrites_ok hwrites
      obtain ⟨rfl, hlist₁, hnames₁⟩ := listdir_removed hgone hkept hlist hslots hmem
      refine absurd hlate (publish_not_refused (haccounts ▸ hgid) ?_ reason h')
      intro names' hnames' name hname
      rw [hlist₁] at hnames'
      cases hnames'
      obtain ⟨hold, hne⟩ := (hnames₁ name).mp hname
      obtain ⟨entry, hentry⟩ := (slotsOf_ok hslots).1 name (List.mem_mergeSort.mpr hold)
      refine ⟨entry, ?_⟩
      rw [entryOf_removed hgone hkept hentry, hcond h₁ hwrites name hold hne]
      rfl

end Refused

/-- The paths of a host that has a deploy account and nothing else. -/
def freshNodes : List (Sigma fun _ : Str => Node) :=
  [⟨"/home", ⟨.dir, 0, 0, 0o755⟩⟩, ⟨deployHome, ⟨.dir, 1000, 1000, 0o755⟩⟩,
    ⟨deploySshDir, ⟨.dir, 1000, 1000, 0o700⟩⟩]

def freshHost : Host where
  nodes := freshNodes.toFinmap
  accounts account := if account = deployAccount then some 1000 else none

theorem freshHost_tree : freshHost.Tree := by
  intro path hpath
  have hall : ∀ path ∈ freshHost.nodes.keys, ∀ dir ∈ ancestors path,
      freshHost.isDir dir = true := by
    decide
  exact hall path (Finmap.mem_keys.mpr hpath)

/-- A key with a type and a blob that is no base64. -/
def shortKey : Str := "ssh-ed25519 AAAAA"

theorem pathsBelow_of_keys {h : Host} (hkeys : h.nodes.keys = freshHost.nodes.keys) :
    h.pathsBelow deployHome = [deploySshDir] := by
  have hbelow : (h.nodes.keys.filter fun p => isBelow deployHome p = true) = {deploySshDir} := by
    rw [hkeys]
    decide
  refine List.perm_singleton.mp ((List.perm_ext_iff_of_nodup ?_ (List.nodup_singleton _)).mpr
    fun p => ?_)
  · exact (Finset.sort_nodup _ _).filter _
  · have hmem := Finset.ext_iff.mp hbelow p
    rw [Finset.mem_filter, Finset.mem_singleton] at hmem
    rw [Host.pathsBelow, List.mem_filter, List.mem_singleton, sortedSet, Finset.mem_sort]
    exact hmem

theorem harden_fresh : ∃ h', hardenDeployPaths.run Host.handle freshHost = (.ok (), h') ∧ ((do
      Fs.makedirs slotDir slotDirMode
      Fs.chown slotDir 0 0
      Fs.chmod slotDir slotDirMode
      Fs.replaceText (slotPath "blog") (shortKey ++ ['\n']) slotFileMode 0 0 :
        FsProg Refusal Unit).run Host.handle h').1 = .ok () := by
  have hneeds : (forEach [deployHome, deploySshDir] needPath).run Host.handle freshHost =
      (.ok (), freshHost) :=
    Prod.ext (by decide) (reads_forEach reads_needPath _)
  have hgid : (accountGid deployAccount).run Host.handle freshHost = (.ok 1000, freshHost) :=
    Prod.ext (by decide) (reads_accountGid _ _)
  have hdirs : (forEach [deployHome, deploySshDir] (hardenDirectory 1000)).run Host.handle
      freshHost = (.ok (), ((forEach [deployHome, deploySshDir] (hardenDirectory 1000)).run
        Host.handle freshHost).2) :=
    Prod.ext (by decide) rfl
  refine ⟨((forEach [deploySshDir] (hardenPath 1000)).run Host.handle
    ((forEach [deployHome, deploySshDir] (hardenDirectory 1000)).run Host.handle freshHost).2).2,
    ?_, ?_⟩
  · rw [hardenDeployPaths, run_bind_ok hneeds, run_bind_ok hgid, run_bind_ok hdirs, Fs.walk,
      run_bind, run_ask]
    simp only [Host.handle]
    rw [pathsBelow_of_keys (by decide), List.mergeSort_singleton]
    exact Prod.ext (by decide) rfl
  · decide

end SharedInfra.DeploySlots
