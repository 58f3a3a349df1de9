import SharedInfra.PullTrigger.Workspace

/-!
# What the sweep keeps

`sweep` and `promote` compare a path under the state directory, as it is
written, with the resolved target of the `current` link.  So the sweep keeps
the live checkout, and `promote` removes the one it replaces, exactly when
nothing is current yet or the state directory is written as it resolves
(`sweep_promote_iff`).
-/

namespace SharedInfra.PullTrigger

open Python Effects

namespace Workspace

section Clear

variable {t : FileTree} {dir q : List Str} {keep : Str → Bool} {name : Str}

/-- One name of the loop of `clear`. -/
def clearName (dir : List Str) (keep : Str → Bool) (t : FileTree) (name : Str) : FileTree :=
  if keep name then t else t.rmtree (dir ++ [name])

theorem node_clearName (name : Str) : (clearName dir keep t name).node q =
    if keep name = false ∧ t.node (dir ++ [name]) = some .directory ∧ dir ++ [name] <+: q then none
    else t.node q := by
  rw [clearName]
  cases hkeep : keep name with
  | true => simp
  | false => simp [FileTree.node_rmtree]

theorem node_clear_same (h : ∀ name, keep name = false → ¬ dir ++ [name] <+: q) :
    (clear t dir keep).node q = t.node q := by
  rw [clear]
  generalize t.children dir = names
  induction names generalizing t with
  | nil => rfl
  | cons name names ih =>
    refine (ih (t := clearName dir keep t name)).trans ?_
    rw [node_clearName, if_neg]
    exact fun hgone => h name hgone.1 hgone.2.2

theorem node_clear_none {names : List Str} (h : t.node q = none) :
    (names.foldl (clearName dir keep) t).node q = none := by
  induction names generalizing t with
  | nil => exact h
  | cons name names ih =>
    refine ih ?_
    rw [node_clearName]
    split_ifs
    · rfl
    · exact h

theorem node_clear_gone (hkeep : keep name = false)
    (hdir : t.node (dir ++ [name]) = some .directory) :
    (clear t dir keep).node (dir ++ [name]) = none := by
  have hmem : name ∈ t.children dir := FileTree.mem_children (by rw [hdir]; simp)
  have hloop : ∀ names : List Str, name ∈ names → ∀ t : FileTree,
      t.node (dir ++ [name]) = some .directory →
        (names.foldl (clearName dir keep) t).node (dir ++ [name]) = none := by
    intro names hmem
    induction names with
    | nil => cases hmem
    | cons first names ih =>
      intro t hdir
      have hstep : (clearName dir keep t first).node (dir ++ [name]) = _ := node_clearName first
      rw [List.foldl_cons]
      split_ifs at hstep with hgone
      · exact node_clear_none hstep
      · rcases List.mem_cons.mp hmem with rfl | hmem
        · exact absurd ⟨hkeep, hdir, List.prefix_rfl⟩ hgone
        · exact ih hmem _ (hstep.trans hdir)
  exact hloop _ hmem t hdir

end Clear

section Prepared

variable {t t' : FileTree} {ws : Workspace} {real : List Str} {live : Option Str}

def Below (real q : List Str) : Prop := real <+: q ∧ q ≠ real

def AgreeAbove (real : List Str) (t t' : FileTree) : Prop :=
  ∀ q, ¬ Below real q → t'.node q = t.node q

/-- The private root is `real`, reached over links that are all above it, and its directories are
made. -/
structure Prepared (t : FileTree) (ws : Workspace) (real : List Str) : Prop where
  clean : ws.root.Clean
  reached : ∀ t', AgreeAbove real t t' → LeadsTo t' ws.root real
  work : t.node (real ++ [workName]) = some .directory
  scratch : t.node (real ++ [scratchName]) = some .directory

/-- The `current` link is the one made for this work directory, or there is none. -/
def Current (t : FileTree) (ws : Workspace) (real : List Str) : Option Str → Prop
  | none => ∀ target, t.node (real ++ [currentName]) ≠ some (.link target)
  | some name => Plain name ∧
      t.node (real ++ [currentName]) = some (.link (ws.work.child name).str) ∧
        t.node (real ++ [workName] ++ [name]) = some .directory

theorem plain_workName : Plain workName := by decide

theorem plain_scratchName : Plain scratchName := by decide

theorem plain_currentName : Plain currentName := by decide

theorem below_entry (real : List Str) (name : Str) : Below real (real ++ [name]) :=
  ⟨List.prefix_append _ _, by simp⟩

theorem AgreeAbove.refl (real : List Str) (t : FileTree) : AgreeAbove real t t := fun _ _ => rfl

theorem AgreeAbove.trans {t'' : FileTree} (h : AgreeAbove real t t') (h' : AgreeAbove real t' t'') :
    AgreeAbove real t t'' := fun q hq => (h' q hq).trans (h q hq)

theorem Prepared.entry (h : Prepared t ws real) (hagree : AgreeAbove real t t') {name : Str}
    (hname : Plain name) (hdir : t'.node (real ++ [name]) = some .directory) :
    LeadsTo t' (ws.root.child name) (real ++ [name]) :=
  leadsTo_child h.clean (h.reached t' hagree) hname fun target hlink => by
    rw [hdir] at hlink
    cases hlink

theorem Prepared.checkout (h : Prepared t ws real) (hagree : AgreeAbove real t t')
    (hwork : t'.node (real ++ [workName]) = some .directory) {name : Str} (hname : Plain name)
    (hdir : t'.node (real ++ [workName] ++ [name]) = some .directory) :
    LeadsTo t' (ws.work.child name) (real ++ [workName] ++ [name]) :=
  leadsTo_child (h.clean.child plain_workName) (h.entry hagree plain_workName hwork) hname
    fun target hlink => by
      rw [hdir] at hlink
      cases hlink

theorem settles_isSymlink (h : Prepared t ws real) (hcurrent : Current t ws real live) :
    Settles (fun turns => isSymlink turns ws t) live.isSome := by
  refine (h.reached t (AgreeAbove.refl real t)).settles.bind ?_
  cases live with
  | none =>
    have hnone := hcurrent
    cases hnode : t.node (real ++ [currentName]) with
    | none => simpa [hnode] using settles_some false
    | some n =>
      cases n with
      | link target => exact absurd hnode (hnone target)
      | directory => simpa [hnode] using settles_some false
      | file content => simpa [hnode] using settles_some false
  | some name => simpa [hcurrent.2.1] using settles_some true

theorem settles_current (h : Prepared t ws real) {name : Str}
    (hcurrent : Current t ws real (some name)) :
    Settles (fun turns => resolve turns t ws.current) ⟨['/'], real ++ [workName] ++ [name]⟩ := by
  obtain ⟨hname, hlink, hdir⟩ := hcurrent
  have hagree := AgreeAbove.refl real t
  have htarget := h.checkout hagree h.work hname hdir
  exact (leadsTo_link h.clean (h.reached t hagree) plain_currentName
    ((h.clean.child plain_workName).child hname) hlink htarget).settles

/-- Where the live checkout is, as it resolves. -/
def livePath (real : List Str) (live : Option Str) : Option PosixPath :=
  live.map fun name => ⟨['/'], real ++ [workName] ++ [name]⟩

theorem settles_linked (h : Prepared t ws real) (hcurrent : Current t ws real live) :
    Settles (fun turns => linked turns ws t) (livePath real live) := by
  refine (settles_isSymlink h hcurrent).bind ?_
  cases live with
  | none => exact settles_some none
  | some name => exact (settles_current h hcurrent).bind (settles_some _)

end Prepared

section Sweep

variable {t t' : FileTree} {ws : Workspace} {real q : List Str} {live : Option Str} {name : Str}

theorem eq_of_prefixes {dir : List Str} {x y : Str} (hx : dir ++ [x] <+: q)
    (hy : dir ++ [y] <+: q) : x = y := by
  have heq := (List.prefix_of_prefix_length_le hx hy (by simp)).eq_of_length (by simp)
  simpa using heq

theorem prefix_of_entry {dir : List Str} {x : Str} (h : dir ++ [x] <+: q) : dir <+: q :=
  (List.prefix_append dir [x]).trans h

theorem not_below_checkout (hq : ¬ Below real q) (dirName : Str) :
    ¬ real ++ [dirName] ++ [name] <+: q := by
  intro hpre
  refine hq ⟨prefix_of_entry (prefix_of_entry hpre), ?_⟩
  rintro rfl
  have := hpre.length_le
  simp at this

theorem agreeAbove_clear {dirName : Str} {keep : Str → Bool} :
    AgreeAbove real t (clear t (real ++ [dirName]) keep) := fun _ hq =>
  node_clear_same fun _ _ => not_below_checkout hq dirName

theorem node_clear_other {dirName other : Str} {keep : Str → Bool} (hne : dirName ≠ other)
    (hq : real ++ [other] <+: q) : (clear t (real ++ [dirName]) keep).node q = t.node q :=
  node_clear_same fun _ _ hpre => hne (eq_of_prefixes (prefix_of_entry hpre) hq)

def keeps (ws : Workspace) (real : List Str) (live : Option Str) (name : Str) : Bool :=
  decide (some (ws.work.child name) = livePath real live)

theorem keeps_iff : keeps ws real live name = true ↔
    live = some name ∧ ws.root = ⟨['/'], real⟩ := by
  rw [keeps, decide_eq_true_eq]
  cases live with
  | none => simp [livePath]
  | some n =>
    have hpath : livePath real (some n) =
        some (((PosixPath.mk ['/'] real).child workName).child n) := rfl
    rw [hpath, Option.some.injEq, PosixPath.child_inj, work, PosixPath.child_inj, Option.some.injEq]
    tauto

/-- What the sweep leaves. -/
def swept (t : FileTree) (ws : Workspace) (real : List Str) (live : Option Str) : FileTree :=
  clear (clear t (real ++ [workName]) (keeps ws real live)) (real ++ [scratchName]) fun _ => false

theorem settles_sweep (h : Prepared t ws real) (hcurrent : Current t ws real live) :
    Settles (fun turns => sweep turns ws t) (swept t ws real live) := by
  refine (settles_linked h hcurrent).bind ?_
  refine (h.entry (AgreeAbove.refl real t) plain_workName h.work).settles.bind ?_
  refine (h.entry agreeAbove_clear plain_scratchName ?_).settles.bind (settles_some _)
  rw [node_clear_other (by decide) List.prefix_rfl]
  exact h.scratch

theorem swept_gone (hkeep : keeps ws real live name = false)
    (hdir : t.node (real ++ [workName] ++ [name]) = some .directory) :
    (swept t ws real live).node (real ++ [workName] ++ [name]) = none := by
  rw [swept, node_clear_other (by decide) (List.prefix_append _ _)]
  exact node_clear_gone hkeep hdir

theorem swept_kept (hkeep : keeps ws real live name = true)
    (hq : real ++ [workName] ++ [name] <+: q) : (swept t ws real live).node q = t.node q := by
  rw [swept, node_clear_other (by decide) (prefix_of_entry hq)]
  refine node_clear_same fun other hother hpre => ?_
  rw [eq_of_prefixes hpre hq, hkeep] at hother
  cases hother

/-- The sweep leaves the live checkout as it was and removes every other work directory. -/
def SweepKeepsLive (t : FileTree) (ws : Workspace) (real : List Str) (live : Option Str) : Prop :=
  ∃ after, Settles (fun turns => sweep turns ws t) after ∧
    (∀ name, live = some name → ∀ q, real ++ [workName] ++ [name] <+: q → after.node q = t.node q) ∧
    ∀ name, live ≠ some name → t.node (real ++ [workName] ++ [name]) = some .directory →
      after.node (real ++ [workName] ++ [name]) = none

theorem sweepKeepsLive_iff (h : Prepared t ws real) (hcurrent : Current t ws real live) :
    SweepKeepsLive t ws real live ↔ live = none ∨ ws.root = ⟨['/'], real⟩ := by
  constructor
  · rintro ⟨after, hafter, hlive, -⟩
    obtain rfl := hafter.unique (settles_sweep h hcurrent)
    cases live with
    | none => exact Or.inl rfl
    | some name =>
      refine Or.inr ?_
      have hsame := hlive name rfl _ List.prefix_rfl
      by_contra hne
      rw [hcurrent.2.2, swept_gone _ hcurrent.2.2] at hsame
      · cases hsame
      · rw [Bool.eq_false_iff, ne_eq, keeps_iff]
        exact fun hkept => hne hkept.2
  · intro hwritten
    refine ⟨_, settles_sweep h hcurrent, fun name hname q hq => ?_, fun name hname hdir => ?_⟩
    · refine swept_kept (keeps_iff.mpr ⟨hname, hwritten.resolve_left ?_⟩) hq
      rw [hname]
      exact Option.some_ne_none name
    · refine swept_gone ?_ hdir
      rw [Bool.eq_false_iff, ne_eq, keeps_iff]
      exact fun hkept => hname hkept.1

end Sweep

section Promote

variable {t t' : FileTree} {ws : Workspace} {real q : List Str} {live : Option Str}
  {name new : Str}

def relinked (t : FileTree) (ws : Workspace) (real : List Str) (new : Str) : FileTree :=
  let target := Node.link (ws.work.child new).str
  let pending := real ++ [pendingName]
  (((t.unlink pending).put pending target).unlink pending).put (real ++ [currentName]) target

/-- What `promote` leaves. -/
def promoted (t : FileTree) (ws : Workspace) (real : List Str) (live : Option Str) (new : Str) :
    FileTree :=
  match live with
  | none => relinked t ws real new
  | some name => (relinked t ws real new).rmtree (real ++ [workName] ++ [name])

theorem node_relinked : (relinked t ws real new).node q =
    if q = real ++ [currentName] then some (.link (ws.work.child new).str)
    else if q = real ++ [pendingName] then none else t.node q := by
  simp only [relinked, FileTree.node_put, FileTree.node_unlink]
  split_ifs <;> rfl

theorem node_relinked_other {other : Str} (hq : real ++ [other] <+: q) (hcur : other ≠ currentName)
    (hpend : other ≠ pendingName) : (relinked t ws real new).node q = t.node q := by
  rw [node_relinked, if_neg, if_neg]
  · rintro rfl
    exact hpend (eq_of_prefixes hq List.prefix_rfl)
  · rintro rfl
    exact hcur (eq_of_prefixes hq List.prefix_rfl)

theorem node_promoted_other {dirName : Str} (hq : real ++ [dirName] <+: q)
    (hne : dirName ≠ workName) :
    (promoted t ws real live new).node q = (relinked t ws real new).node q := by
  cases live with
  | none => rfl
  | some name =>
    rw [promoted, FileTree.node_rmtree, if_neg]
    exact fun hgone => hne (eq_of_prefixes hq (prefix_of_entry hgone.2))

theorem node_promoted_checkout (hq : real ++ [workName] ++ [name] <+: q) (hne : live ≠ some name) :
    (promoted t ws real live new).node q = t.node q := by
  have hsame : (relinked t ws real new).node q = t.node q :=
    node_relinked_other (prefix_of_entry hq) (by decide) (by decide)
  cases live with
  | none => exact hsame
  | some other =>
    rw [promoted, FileTree.node_rmtree, if_neg]
    · exact hsame
    · exact fun hgone => hne (congrArg some (eq_of_prefixes hgone.2 hq))

theorem promoted_gone (hlive : live = some name)
    (hdir : t.node (real ++ [workName] ++ [name]) = some .directory) :
    (promoted t ws real live new).node (real ++ [workName] ++ [name]) = none := by
  have hsame : (relinked t ws real new).node (real ++ [workName] ++ [name]) = t.node _ :=
    node_relinked_other (List.prefix_append _ _) (by decide) (by decide)
  rw [hlive, promoted, FileTree.node_rmtree, if_pos ⟨hsame.trans hdir, List.prefix_rfl⟩]

theorem agreeAbove_promoted : AgreeAbove real t (promoted t ws real live new) := by
  intro q hq
  have hsame : (relinked t ws real new).node q = t.node q := by
    rw [node_relinked, if_neg, if_neg]
    · rintro rfl
      exact hq (below_entry real _)
    · rintro rfl
      exact hq (below_entry real _)
  cases live with
  | none => exact hsame
  | some name =>
    rw [promoted, FileTree.node_rmtree, if_neg]
    · exact hsame
    · exact fun hgone => not_below_checkout hq workName hgone.2

theorem settles_promote (h : Prepared t ws real) (hcurrent : Current t ws real live)
    (hnew : live ≠ some new) (hwritten : live = none ∨ ws.root = ⟨['/'], real⟩) :
    Settles (fun turns => promote turns ws (ws.work.child new) t)
      (promoted t ws real live new) := by
  refine (settles_linked h hcurrent).bind ?_
  refine (h.reached t (AgreeAbove.refl real t)).settles.bind ?_
  cases live with
  | none => exact settles_some _
  | some name =>
    have hroot := hwritten.resolve_left (Option.some_ne_none name)
    have hold : (⟨['/'], real ++ [workName] ++ [name]⟩ : PosixPath) = ws.work.child name := by
      rw [work, hroot]
      rfl
    have hreplaced : (⟨['/'], real ++ [workName] ++ [name]⟩ : PosixPath) ≠ ws.work.child new ∧
        (⟨['/'], real ++ [workName] ++ [name]⟩ : PosixPath).parent = ws.work := by
      rw [hold, PosixPath.parent_child, ne_eq, PosixPath.child_inj]
      exact ⟨fun heq => hnew (congrArg some heq.2), rfl⟩
    simp only [livePath, Option.map_some]
    rw [if_pos hreplaced]
    exact settles_some _

theorem prepared_promoted (h : Prepared t ws real) :
    Prepared (promoted t ws real live new) ws real where
  clean := h.clean
  reached t' hagree := h.reached t' (agreeAbove_promoted.trans hagree)
  work := by
    have hsame : (relinked t ws real new).node (real ++ [workName]) = some .directory :=
      (node_relinked_other List.prefix_rfl (by decide) (by decide)).trans h.work
    cases live with
    | none => exact hsame
    | some name =>
      rw [promoted, FileTree.node_rmtree, if_neg]
      · exact hsame
      · intro hgone
        have := hgone.2.length_le
        simp at this
  scratch := by
    rw [node_promoted_other List.prefix_rfl (by decide),
      node_relinked_other List.prefix_rfl (by decide) (by decide)]
    exact h.scratch

theorem current_promoted (hname : Plain new) (hnew : live ≠ some new)
    (hdir : t.node (real ++ [workName] ++ [new]) = some .directory) :
    Current (promoted t ws real live new) ws real (some new) := by
  refine ⟨hname, ?_, ?_⟩
  · rw [node_promoted_other List.prefix_rfl (by decide), node_relinked, if_pos rfl]
  · rw [node_promoted_checkout List.prefix_rfl hnew]
    exact hdir

theorem settles_isCurrent (h : Prepared t ws real) (hcurrent : Current t ws real (some new))
    (hname : Plain name) (hdir : t.node (real ++ [workName] ++ [name]) = some .directory) :
    Settles (fun turns => isCurrent turns ws (ws.work.child name) t) (decide (name = new)) := by
  have hanswer : decide ((⟨['/'], real ++ [workName] ++ [new]⟩ : PosixPath) =
      ⟨['/'], real ++ [workName] ++ [name]⟩) = decide (name = new) := by
    rw [decide_eq_decide]
    simp [eq_comm]
  rw [← hanswer]
  refine (settles_isSymlink h hcurrent).bind ?_
  refine (settles_current h hcurrent).bind ?_
  exact (h.checkout (AgreeAbove.refl real t) h.work hname hdir).settles.bind (settles_some _)

/-- After `promote` the new checkout, as it was, is the current one and no other is, and the one
it replaces is gone. -/
def PromoteReplaces (t : FileTree) (ws : Workspace) (real : List Str) (live : Option Str)
    (new : Str) : Prop :=
  ∃ after, Settles (fun turns => promote turns ws (ws.work.child new) t) after ∧
    (∀ q, real ++ [workName] ++ [new] <+: q → after.node q = t.node q) ∧
    (∀ name, Plain name → after.node (real ++ [workName] ++ [name]) = some .directory →
      Settles (fun turns => isCurrent turns ws (ws.work.child name) after) (decide (name = new))) ∧
    ∀ name, live = some name → after.node (real ++ [workName] ++ [name]) = none

theorem promoteReplaces (h : Prepared t ws real) (hcurrent : Current t ws real live)
    (hname : Plain new) (hdir : t.node (real ++ [workName] ++ [new]) = some .directory)
    (hnew : live ≠ some new) (hwritten : live = none ∨ ws.root = ⟨['/'], real⟩) :
    PromoteReplaces t ws real live new := by
  refine ⟨_, settles_promote h hcurrent hnew hwritten, fun q hq => ?_, fun name hplain hnode => ?_,
    fun name hlive => ?_⟩
  · exact node_promoted_checkout hq hnew
  · exact settles_isCurrent (prepared_promoted h) (current_promoted hname hnew hdir) hplain hnode
  · subst hlive
    exact promoted_gone rfl hcurrent.2.2

/-- When the sweep keeps the live checkout and `promote` removes the one it replaces. -/
theorem sweep_promote_iff {text : Str} {root : PosixPath}
    (haccepted : absolute text maxStateDirLength = some root) (t : FileTree) (real : List Str)
    (hreached : ∀ t', AgreeAbove real t t' → LeadsTo t' root real)
    (hwork : t.node (real ++ [workName]) = some .directory)
    (hscratch : t.node (real ++ [scratchName]) = some .directory) (live : Option Str)
    (hcurrent : Current t ⟨root⟩ real live) (new : Str) (hname : Plain new)
    (hdir : t.node (real ++ [workName] ++ [new]) = some .directory) (hnew : live ≠ some new) :
    (SweepKeepsLive t ⟨root⟩ real live ∧ PromoteReplaces t ⟨root⟩ real live new) ↔
      live = none ∨ root = ⟨['/'], real⟩ := by
  have h : Prepared t ⟨root⟩ real := ⟨clean_of_absolute haccepted, hreached, hwork, hscratch⟩
  constructor
  · rintro ⟨hsweep, -⟩
    exact (sweepKeepsLive_iff h hcurrent).mp hsweep
  · intro hwritten
    exact ⟨(sweepKeepsLive_iff h hcurrent).mpr hwritten,
      promoteReplaces h hcurrent hname hdir hnew hwritten⟩

/-- A state directory under `/srv`, to which `/var` is a link, with a live checkout and a new one;
the `current` link is written as the state directory is. -/
def hostTree (root : PosixPath) : FileTree :=
  [([['s', 'r', 'v']], .directory), ([['v', 'a', 'r']], .link ['/', 's', 'r', 'v']),
    ([['s', 'r', 'v'], ['p', 't']], .directory),
    ([['s', 'r', 'v'], ['p', 't'], workName], .directory),
    ([['s', 'r', 'v'], ['p', 't'], scratchName], .directory),
    ([['s', 'r', 'v'], ['p', 't'], workName, ['a']], .directory),
    ([['s', 'r', 'v'], ['p', 't'], workName, ['b']], .directory),
    ([['s', 'r', 'v'], ['p', 't'], currentName], .link ((Workspace.mk root).work.child ['a']).str)]

def hostReal : List Str := [['s', 'r', 'v'], ['p', 't']]

/-- The state directory as it resolves, and over the link. -/
def srvRoot : PosixPath := ⟨['/'], [['s', 'r', 'v'], ['p', 't']]⟩

def varRoot : PosixPath := ⟨['/'], [['v', 'a', 'r'], ['p', 't']]⟩

theorem current_hostTree (root : PosixPath) :
    Current (hostTree root) ⟨root⟩ hostReal (some ['a']) :=
  ⟨by decide, rfl, rfl⟩

theorem not_below_hostReal {q : List Str} (h : q.length ≤ 2) : ¬ Below hostReal q := fun hbelow =>
  hbelow.2 (hbelow.1.eq_of_length (Nat.le_antisymm hbelow.1.length_le h)).symm

theorem leads_srv {root : PosixPath} {t' : FileTree}
    (h : AgreeAbove hostReal (hostTree root) t') : Leads t' [] hostReal hostReal := by
  have hsrv : t'.node [['s', 'r', 'v']] = some .directory := h _ (not_below_hostReal (by decide))
  have hpt : t'.node [['s', 'r', 'v'], ['p', 't']] = some .directory :=
    h _ (not_below_hostReal (by decide))
  refine (leads_name (by decide) fun target hlink => ?_).mpr
    ((leads_name (by decide) fun target hlink => ?_).mpr (leads_nil.mpr rfl))
  · cases hsrv.symm.trans hlink
  · cases hpt.symm.trans hlink

theorem srvRoot_reached (t' : FileTree) (h : AgreeAbove hostReal (hostTree srvRoot) t') :
    LeadsTo t' srvRoot hostReal :=
  (leadsTo_iff ⟨Or.inl rfl, by decide⟩).mpr (leads_srv h)

theorem varRoot_reached (t' : FileTree) (h : AgreeAbove hostReal (hostTree varRoot) t') :
    LeadsTo t' varRoot hostReal := by
  have hvar : t'.node [['v', 'a', 'r']] = some (.link ['/', 's', 'r', 'v']) :=
    h _ (not_below_hostReal (by decide))
  refine (leadsTo_iff ⟨Or.inl rfl, by decide⟩).mpr ((leads_link (by decide) rfl hvar).mpr ?_)
  exact leads_empty.mpr (leads_srv h)

theorem sweep_promote_srv : SweepKeepsLive (hostTree srvRoot) ⟨srvRoot⟩ hostReal (some ['a']) ∧
    PromoteReplaces (hostTree srvRoot) ⟨srvRoot⟩ hostReal (some ['a']) ['b'] :=
  (@sweep_promote_iff "/srv/pt".toList srvRoot (by decide) (hostTree srvRoot) hostReal
    srvRoot_reached rfl rfl (some ['a']) (current_hostTree srvRoot) ['b'] (by decide) rfl
    (by decide)).mpr (Or.inr rfl)

/-- A state directory written over a link: the sweep removes the live checkout. -/
theorem live_checkout_swept : absolute "/var/pt".toList maxStateDirLength = some varRoot ∧
    Prepared (hostTree varRoot) ⟨varRoot⟩ hostReal ∧
      Current (hostTree varRoot) ⟨varRoot⟩ hostReal (some ['a']) ∧
        ¬ SweepKeepsLive (hostTree varRoot) ⟨varRoot⟩ hostReal (some ['a']) := by
  have hprepared : Prepared (hostTree varRoot) ⟨varRoot⟩ hostReal :=
    ⟨⟨Or.inl rfl, by decide⟩, varRoot_reached, rfl, rfl⟩
  refine ⟨by decide, hprepared, current_hostTree varRoot, fun hkept => ?_⟩
  have hwritten := (sweepKeepsLive_iff hprepared (current_hostTree varRoot)).mp hkept
  exact absurd hwritten (by decide)

end Promote

end Workspace

end SharedInfra.PullTrigger
