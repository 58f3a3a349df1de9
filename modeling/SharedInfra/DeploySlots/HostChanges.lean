import SharedInfra.DeploySlots.RegisterReading

/-!
# What the slot programs change

A program may leave the host as it was when it refuses (`KeepsWhenRefused`), refuse nothing
(`NeverRefuses`), or change owners and modes only (`SameBodies`).  `harden_deploy_paths` refuses
before its first change (`keepsWhenRefused_hardenDeployPaths`).
-/

namespace SharedInfra.DeploySlots

open Python Effects Prog

section Refusals

variable {α β : Type}

def KeepsWhenRefused (p : FsProg Refusal α) : Prop :=
  ∀ h reason h', p.run Host.handle h = (.error (.refused reason), h') → h' = h

/-- The program refuses nothing. -/
def NeverRefuses (p : FsProg Refusal α) : Prop :=
  ∀ h reason h', p.run Host.handle h ≠ (.error (.refused reason), h')

variable {p : FsProg Refusal α} {f : α → FsProg Refusal β}

theorem keepsWhenRefused_of_reads (hp : p.Reads Host.handle) : KeepsWhenRefused p := by
  intro h reason h' hrun
  have hstate := hp h
  rw [hrun] at hstate
  exact hstate

theorem refused_bind {h h' : Host} {reason : Refusal}
    (hrun : (p >>= f).run Host.handle h = (.error (.refused reason), h')) :
    p.run Host.handle h = (.error (.refused reason), h') ∨
      ∃ a mid, p.run Host.handle h = (.ok a, mid) ∧
        (f a).run Host.handle mid = (.error (.refused reason), h') := by
  rw [run_bind] at hrun
  rcases hp : p.run Host.handle h with ⟨_ | a, mid⟩
  · rw [hp] at hrun
    cases hrun
    exact Or.inl rfl
  · rw [hp] at hrun
    exact Or.inr ⟨a, mid, rfl, hrun⟩

theorem keepsWhenRefused_reads_bind (hp : p.Reads Host.handle)
    (hf : ∀ a, KeepsWhenRefused (f a)) : KeepsWhenRefused (p >>= f) := by
  intro h reason h' hrun
  rcases refused_bind hrun with hrun | ⟨a, mid, hfirst, hrest⟩
  · exact keepsWhenRefused_of_reads hp h reason h' hrun
  · have hmid := hp h
    rw [hfirst] at hmid
    rw [hf a mid reason h' hrest]
    exact hmid

theorem keepsWhenRefused_bind (hp : KeepsWhenRefused p) (hf : ∀ a, NeverRefuses (f a)) :
    KeepsWhenRefused (p >>= f) := by
  intro h reason h' hrun
  rcases refused_bind hrun with hrun | ⟨a, mid, _, hrest⟩
  · exact hp h reason h' hrun
  · exact absurd hrest (hf a mid reason h')

theorem neverRefuses_bind (hp : NeverRefuses p) (hf : ∀ a, NeverRefuses (f a)) :
    NeverRefuses (p >>= f) := by
  intro h reason h' hrun
  rcases refused_bind hrun with hrun | ⟨a, mid, _, hrest⟩
  · exact hp h reason h' hrun
  · exact hf a mid reason h' hrest

theorem keepsWhenRefused_of_neverRefuses (hp : NeverRefuses p) : KeepsWhenRefused p :=
  fun h reason h' hrun => absurd hrun (hp h reason h')

theorem neverRefuses_pure (a : α) : NeverRefuses (pure a : FsProg Refusal α) := by
  intro h reason h' hrun
  cases hrun

theorem neverRefuses_orRaise {q : FsProg Refusal (Except OsError α)} (hq : NeverRefuses q) :
    NeverRefuses (orRaise q) := by
  refine neverRefuses_bind hq fun r => ?_
  cases r with
  | ok a => exact neverRefuses_pure a
  | error e =>
    intro h reason h' hrun
    cases hrun

theorem neverRefuses_ask (op : FsOp) :
    NeverRefuses (ask op : FsProg Refusal (FsAnswer op)) := by
  intro h reason h' hrun
  cases hrun

theorem neverRefuses_forEach {xs : List β} {body : β → FsProg Refusal Unit}
    (h : ∀ x, NeverRefuses (body x)) : NeverRefuses (forEach xs body) := by
  induction xs with
  | nil => exact neverRefuses_pure ()
  | cons x xs ih => exact neverRefuses_bind (h x) fun _ => ih

end Refusals

section Bodies

/-- Nothing but owners and modes has changed. -/
def SameBodies (h h' : Host) : Prop := h'.bodies = h.bodies ∧ h'.accounts = h.accounts

variable {h h' : Host} {path : Str}

theorem sameBodies_refl (h : Host) : SameBodies h h := ⟨rfl, rfl⟩

theorem sameBodies_trans (a b c : Host) (hab : SameBodies a b) (hbc : SameBodies b c) :
    SameBodies a c := ⟨hbc.1.trans hab.1, hbc.2.trans hab.2⟩

theorem sameBodies_update (h : Host) (path : Str) {f : Node → Node}
    (hf : ∀ node, (f node).body = node.body) : SameBodies h (h.update path f) := by
  rw [Host.update]
  cases hlookup : h.nodes.lookup path with
  | none => exact sameBodies_refl h
  | some node =>
    refine ⟨funext fun other => ?_, rfl⟩
    by_cases hother : other = path
    · subst hother
      simp [Host.bodies, hlookup, hf]
    · simp [Host.bodies, Finmap.lookup_insert_of_ne _ hother]

theorem moves_orRaise {α : Type} {R : Host → Host → Prop} {q : FsProg Refusal (Except OsError α)}
    (htrans : ∀ a b c, R a b → R b c → R a c) (hrefl : ∀ a, R a a)
    (hq : q.Moves Host.handle R) : (orRaise q).Moves Host.handle R := by
  refine moves_bind htrans hq fun r => ?_
  cases r with
  | ok a => exact fun s => hrefl s
  | error e => exact fun s => hrefl s

theorem sameBodies_chown (path : Str) (uid gid : Nat) :
    (Fs.chown path uid gid : FsProg Refusal Unit).Moves Host.handle SameBodies := by
  refine moves_orRaise sameBodies_trans sameBodies_refl fun h => ?_
  rw [run_ask]
  simp only [Host.handle, Host.chown]
  split_ifs
  · exact sameBodies_update h path fun _ => rfl
  · exact sameBodies_refl h

theorem sameBodies_chmod (path : Str) (mode : Mode) :
    (Fs.chmod path mode : FsProg Refusal Unit).Moves Host.handle SameBodies := by
  refine moves_orRaise sameBodies_trans sameBodies_refl fun h => ?_
  rw [run_ask]
  simp only [Host.handle, Host.chmod]
  cases h.follow path with
  | error e => exact sameBodies_refl h
  | ok found => exact sameBodies_update h found.1 fun _ => rfl

theorem sameBodies_of_reads {α : Type} {p : FsProg Refusal α} (hp : p.Reads Host.handle) :
    p.Moves Host.handle SameBodies := moves_of_reads sameBodies_refl hp

theorem reads_isSymlink (path : Str) :
    (Fs.isSymlink path : FsProg Refusal Bool).Reads Host.handle := fun _ => rfl

theorem reads_orRaise {α : Type} {q : FsProg Refusal (Except OsError α)}
    (hq : q.Reads Host.handle) : (orRaise q).Reads Host.handle := by
  refine reads_bind hq fun r => ?_
  cases r with
  | ok a => exact reads_pure a
  | error e => exact reads_raise _

theorem reads_ownerMode (path : Str) :
    (Fs.ownerMode path : FsProg Refusal (Nat × Nat × Mode)).Reads Host.handle :=
  reads_orRaise fun _ => rfl

theorem hardenPath_spec (gid : Nat) (path : Str) :
    (hardenPath gid path).Moves Host.handle SameBodies ∧ NeverRefuses (hardenPath gid path) := by
  constructor
  · refine moves_bind sameBodies_trans (sameBodies_chown path 0 gid) fun _ => ?_
    refine moves_bind sameBodies_trans (sameBodies_of_reads (reads_isSymlink path)) fun isLink => ?_
    split_ifs
    · exact sameBodies_of_reads (reads_pure ())
    · refine moves_bind sameBodies_trans (sameBodies_of_reads (reads_ownerMode path)) fun info => ?_
      simp only []
      split_ifs
      · exact sameBodies_chmod _ _
      · exact sameBodies_of_reads (reads_pure ())
  · refine neverRefuses_bind (neverRefuses_orRaise (neverRefuses_ask _)) fun _ => ?_
    refine neverRefuses_bind (neverRefuses_ask _) fun isLink => ?_
    split_ifs
    · exact neverRefuses_pure ()
    · refine neverRefuses_bind (neverRefuses_orRaise (neverRefuses_ask _)) fun info => ?_
      simp only []
      split_ifs
      · exact neverRefuses_orRaise (neverRefuses_ask _)
      · exact neverRefuses_pure ()

theorem reads_needPath (path : Str) : (needPath path).Reads Host.handle := by
  refine reads_bind (fun _ => rfl) fun found => ?_
  split_ifs
  · exact reads_pure ()
  · exact reads_raise _

theorem reads_accountGid (account : Str) : (accountGid account).Reads Host.handle := by
  refine reads_bind (fun _ => rfl) fun found => ?_
  cases found with
  | none => exact reads_raise _
  | some gid => exact reads_pure gid

theorem accountGid_ok {account : Str} {gid : Nat}
    (hrun : (accountGid account).run Host.handle h = (.ok gid, h')) :
    h.accounts account = some gid ∧ h' = h := by
  have hstate := reads_accountGid account h
  rw [hrun] at hstate
  refine ⟨?_, hstate⟩
  rw [accountGid, Fs.accountGid, run_bind, run_ask] at hrun
  simp only [Host.handle] at hrun
  cases haccount : h.accounts account with
  | none =>
    rw [haccount] at hrun
    cases hrun
  | some found =>
    rw [haccount] at hrun
    cases hrun
    rfl

theorem hardenDirectory_spec (gid : Nat) (path : Str) :
    (hardenDirectory gid path).Moves Host.handle SameBodies ∧
      NeverRefuses (hardenDirectory gid path) :=
  ⟨moves_bind sameBodies_trans (sameBodies_chown path 0 gid) fun _ => sameBodies_chmod path _,
    neverRefuses_bind (neverRefuses_orRaise (neverRefuses_ask _)) fun _ =>
      neverRefuses_orRaise (neverRefuses_ask _)⟩

theorem keepsWhenRefused_hardenDeployPaths : KeepsWhenRefused hardenDeployPaths := by
  refine keepsWhenRefused_reads_bind (reads_forEach reads_needPath) fun _ => ?_
  refine keepsWhenRefused_reads_bind (reads_accountGid _) fun gid => ?_
  refine keepsWhenRefused_of_neverRefuses ?_
  refine neverRefuses_bind (neverRefuses_forEach fun path => (hardenDirectory_spec gid path).2)
    fun _ => ?_
  refine neverRefuses_bind (neverRefuses_ask _) fun paths => ?_
  exact neverRefuses_forEach fun path => (hardenPath_spec gid path).2

theorem hardenDeployPaths_ok (hrun : hardenDeployPaths.run Host.handle h = (.ok (), h')) :
    SameBodies h h' ∧ ∃ gid, h.accounts deployAccount = some gid := by
  obtain ⟨_, first, hneeds, hafter⟩ := of_run_bind_ok hrun
  obtain ⟨gid, second, hgid, hrest⟩ := of_run_bind_ok hafter
  have hfirst : first = h := by
    have hstate : ((forEach [deployHome, deploySshDir] needPath).run Host.handle h).2 = h :=
      reads_forEach reads_needPath h
    rw [hneeds] at hstate
    exact hstate
  subst hfirst
  obtain ⟨haccount, rfl⟩ := accountGid_ok hgid
  refine ⟨?_, gid, haccount⟩
  have hmoves : (do
      forEach [deployHome, deploySshDir] (hardenDirectory gid)
      let paths ← Fs.walk deployHome
      forEach (paths.mergeSort (· ≤ ·)) (hardenPath gid) : FsProg Refusal Unit).Moves
        Host.handle SameBodies := by
    refine moves_bind sameBodies_trans (moves_forEach sameBodies_refl sameBodies_trans
      fun path => (hardenDirectory_spec gid path).1) fun _ => ?_
    refine moves_bind sameBodies_trans (sameBodies_of_reads fun _ => rfl) fun paths => ?_
    exact moves_forEach sameBodies_refl sameBodies_trans fun path => (hardenPath_spec gid path).1
  have hmoved := hmoves second
  rw [hrest] at hmoved
  exact hmoved

end Bodies

section Listing

variable {h h' : Host} {path name : Str}

theorem nameIn_eq_some {dir : Str} :
    nameIn dir path = some name ↔ path = joinPath dir name ∧ '/' ∉ name ∧ name ≠ [] := by
  rw [nameIn]
  constructor
  · intro hname
    split_ifs at hname with hstart
    obtain ⟨rest, rfl⟩ := List.isPrefixOf_iff_prefix.mp hstart
    have hdrop : (dir ++ ['/'] ++ rest).drop (dir.length + 1) = rest := by simp
    dsimp only at hname
    rw [hdrop] at hname
    split_ifs at hname with hbad
    obtain rfl := Option.some.inj hname
    simpa [joinPath] using hbad
  · rintro ⟨rfl, hslash, hne⟩
    have hstart : startsWith (joinPath dir name) (dir ++ ['/']) = true :=
      List.isPrefixOf_iff_prefix.mpr ⟨name, by simp [joinPath]⟩
    have hdrop : (joinPath dir name).drop (dir.length + 1) = name := by simp [joinPath]
    rw [if_pos hstart]
    simp [hdrop, hslash, hne]

theorem mem_childNames {dir : Str} :
    name ∈ h.childNames dir ↔ joinPath dir name ∈ h.nodes ∧ '/' ∉ name ∧ name ≠ [] := by
  rw [Host.childNames, List.mem_filterMap]
  constructor
  · rintro ⟨path, hpath, hname⟩
    obtain ⟨rfl, hslash, hne⟩ := nameIn_eq_some.mp hname
    exact ⟨Finmap.mem_keys.mp ((Finset.mem_sort _).mp hpath), hslash, hne⟩
  · rintro ⟨hmem, hslash, hne⟩
    exact ⟨_, (Finset.mem_sort _).mpr (Finmap.mem_keys.mpr hmem),
      nameIn_eq_some.mpr ⟨rfl, hslash, hne⟩⟩

theorem mem_nodes_iff : path ∈ h.nodes ↔ h.bodies path ≠ none := by
  rw [Host.bodies, Ne, Option.map_eq_none_iff, Finmap.lookup_eq_none, not_not]

theorem isDir_iff : h.isDir path = true ↔ h.bodies path = some .dir := by
  rw [Host.isDir, Host.bodies]
  cases h.nodes.lookup path with
  | none => simp
  | some node => simp

/-- On the way to everything on a host there are directories. -/
def Host.Tree (h : Host) : Prop :=
  ∀ path ∈ h.nodes, ∀ dir ∈ ancestors path, h.isDir dir = true

theorem mem_ancestors_joinPath {dir name : Str} (hdir : dir ≠ []) :
    dir ∈ ancestors (joinPath dir name) := by
  rw [ancestors, List.mem_filterMap]
  refine ⟨dir.length, ?_, ?_⟩
  · rw [List.mem_range]
    simp [joinPath]
  · have hpos : 0 < dir.length := List.length_pos_iff.mpr hdir
    simp [joinPath, hpos]

theorem length_of_mem_ancestors {dir : Str} (h : dir ∈ ancestors path) :
    dir.length < path.length := by
  rw [ancestors, List.mem_filterMap] at h
  obtain ⟨i, hi, hsome⟩ := h
  split_ifs at hsome with hslash
  obtain rfl := Option.some.inj hsome
  rw [List.mem_range] at hi
  rw [List.length_take]
  omega

end Listing

end SharedInfra.DeploySlots
