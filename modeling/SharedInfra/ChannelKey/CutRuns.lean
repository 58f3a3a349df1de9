import SharedInfra.ChannelKey.SoleOutcomes

/-!
# Runs that are cut off, refused or repeated

A run cut off between two operations is made good by the next one, but where the
key has just been linked to its name and the temporary name not yet taken away
(`recovers_iff`).  A refusal comes before the first change, but where the public
name is blocked and something else is to be done (`refusesFirst_iff`).  A second run
does nothing, and a check run tells what the run would do (`run_repeated`).
-/

namespace SharedInfra.ChannelKey

open Python Effects Prog

section View

/-- What can be seen of the directory, but for the links: owners, modes, kinds and contents. -/
structure View where
  directory : Option (Kind × Nat × Nat × Nat)
  file : Str → Option (Kind × Bytes × Nat × Nat × Nat)

def Place.view (w : Place) : View where
  directory := w.directory.map fun info => (info.kind, info.uid, info.gid, info.mode)
  file name := (w.at_ name).map fun n => ((w.files n).kind, (w.files n).content, (w.files n).uid,
    (w.files n).gid, (w.files n).mode)

def wanted (sha512 : Bytes → Bytes) (s : Settings) (seed : Bytes) : View where
  directory := some (.directory, s.uid, s.gid, dirMode)
  file name :=
    if name = keyName then some (.regular, b64encode seed, s.uid, s.gid, keyMode)
    else if name = pubName then
      some (.regular, publicText (derivePublic sha512 seed), s.uid, s.gid, pubMode)
    else none

variable {m : Machine} {b : Prop} {s : Settings} {sha512 : Bytes → Bytes} {seed : Bytes} {w : Place}

theorem SoleSettled.view (h : SoleSettled m b sha512 s seed w) : w.view = wanted sha512 s seed := by
  have hdirectory : w.view.directory = (wanted sha512 s seed).directory := by
    obtain ⟨info, hinfo, hkind⟩ := h.order.directory
    have hadopts := h.directory
    simp only [directoryAdopts, hinfo, decide_eq_false_iff_not, not_or, not_not] at hadopts
    simp only [Place.view, wanted, hinfo, Option.map_some, hkind, hadopts]
  have hfile : w.view.file = (wanted sha512 s seed).file := by
    funext name
    simp only [Place.view, wanted]
    split_ifs with hkey hpub
    · subst hkey
      obtain ⟨n, hn⟩ := h.key.there
      have hadopts := h.key.adopts
      simp only [keyAdopts, hn, decide_eq_false_iff_not, not_or, not_not] at hadopts
      obtain ⟨hpasses, -⟩ := h.order.key n hn
      simp only [hn, Option.map_some, hpasses.kind, hpasses.content, hadopts]
    · subst hpub
      have hcurrent := h.pub
      rw [currentPublic] at hcurrent
      cases hn : w.at_ pubName with
      | none =>
        rw [hn] at hcurrent
        cases hcurrent
      | some n =>
        simp only [hn, decide_eq_true_iff] at hcurrent
        obtain ⟨hkind, huid, hgid, hmode, hcontent⟩ := hcurrent
        simp only [Option.map_some, hkind, huid, hgid, hmode, hcontent]
    · cases hn : w.at_ name with
      | none => rfl
      | some n => exact absurd (h.clean name n hn) (not_or.mpr ⟨hkey, hpub⟩)
  calc w.view = ⟨w.view.directory, w.view.file⟩ := rfl
    _ = wanted sha512 s seed := by rw [hdirectory, hfile]

end View

section Starts

variable {m : Machine} {b : Prop} {s : Settings} {sha512 : Bytes → Bytes} {seed : Bytes}
  {w v : Place} {rootUid : Nat} {checkMode : Bool} {r : Except KeyError Result}

theorem opens_of_early (hsound : w.Sound) (hearly : EarlyPasses m rootUid w)
    (hb : Blocked w m → b) : ∃ seed, Opens m b seed w ∧ Leaves m seed w := by
  cases hdirectory : w.directory with
  | none => exact ⟨m.bytes w.draws seedBytes, Or.inl ⟨hdirectory, hsound.absent hdirectory⟩, fun _ => rfl⟩
  | some info =>
    obtain ⟨hkind, hnames, hkey⟩ := hearly.2 info hdirectory
    cases hn : w.at_ keyName with
    | none =>
      refine ⟨m.bytes w.draws seedBytes, Or.inr ⟨⟨info, hdirectory, hkind⟩, hnames,
        fun n h => ?_, fun n name h => ?_, hsound.fresh, hb⟩, fun _ => rfl⟩
      · rw [hn] at h
        cases h
      · rw [hn] at h
        cases h
    | some n =>
      obtain ⟨seed, hpasses⟩ := hkey n hn
      refine ⟨seed, Or.inr ⟨⟨info, hdirectory, hkind⟩, hnames, fun k h => ?_,
        fun k name h hname => ?_, hsound.fresh, hb⟩, fun h => ?_⟩
      · obtain rfl := Option.some.inj (hn.symm.trans h)
        exact hpasses
      · obtain rfl := Option.some.inj (hn.symm.trans h)
        exact hsound.oneName keyName name n hn hname hpasses.2
      · rw [hn] at h
        cases h

variable (sha512 s checkMode) in
theorem run_refused (h : ¬ EarlyPasses m rootUid w) : ∃ code path,
    (converge sha512 s checkMode rootUid).run m.handle w = (.error (.refusal code path), w) := by
  obtain ⟨hplace, code, path, hresult⟩ :=
    (along_refused s sha512 checkMode h).ends
  exact ⟨code, path, Prod.ext hresult hplace⟩

theorem opens_of_ok (hsound : w.Sound) {result : Result}
    (h : (converge sha512 s false rootUid).run m.handle w = (.ok result, v)) :
    ParentPasses m rootUid ∧ ¬ Blocked w m ∧ ∃ seed, Opens m False seed w ∧ Leaves m seed w := by
  have hearly : EarlyPasses m rootUid w := by
    by_contra hnot
    obtain ⟨code, path, hrun⟩ := run_refused s sha512 false hnot
    rw [h] at hrun
    cases hrun
  have hfree : ¬ Blocked w m := by
    obtain ⟨seed, hopens, hleaves⟩ := opens_of_early (b := Blocked w m) hsound hearly id
    have hends := (along_converge s sha512 hearly.1 hopens hleaves).ends
    rw [h] at hends
    cases hends
    assumption
  exact ⟨hearly.1, hfree, opens_of_early hsound hearly hfree⟩

variable (sha512 s) in
theorem run_settles (hparent : ParentPasses m rootUid) (hfree : ¬ Blocked w m)
    (hopens : Opens m False seed w) (hleaves : Leaves m seed w) : ∃ v,
    (converge sha512 s false rootUid).run m.handle w = (.ok { report s w w.directory.isNone with
      publicKey := some (b64encode (derivePublic sha512 seed))
      publicChanged := !currentPublic w s (derivePublic sha512 seed) }, v) ∧
      SoleSettled m False sha512 s seed v := by
  have hends := (along_converge s sha512 hparent hopens hleaves).ends
  generalize hrun : (converge sha512 s false rootUid).run m.handle w = outcome at hends
  obtain ⟨r, v⟩ := outcome
  cases hends with
  | settled _ hsettled => exact ⟨v, rfl, hsettled⟩
  | blocked hblocked _ => exact absurd hblocked hfree

end Starts

/-- A machine that draws zeros, takes every write whole and opens pipes. -/
def plainMachine : Machine where
  parent := .ok ⟨.directory, 2, 0, 0, 0, 0o755⟩
  owner := (0, 0)
  masked mode := mode
  opensSpecial _ := true
  bytes _ count := List.replicate count 0
  hex _ count := List.replicate (2 * count) '0'
  written _ _ data := data.length
  length_bytes _ _ := List.length_replicate
  length_hex _ _ := List.length_replicate
  hex_digits _ _ := List.all_eq_true.mpr fun c hc => by
    rw [List.eq_of_mem_replicate hc]
    rfl
  written_pos _ _ _ h := List.length_pos_of_ne_nil h
  written_le _ _ _ := le_rfl

def plainSettings : Settings := ⟨"/var/lib/safety".toList, 1, 1⟩

/-- A directory with nothing in it. -/
def emptyPlace : Place where
  directory := some ⟨.directory, 2, 0, 0, 0, 0o755⟩
  entries := ∅
  files _ := ⟨.regular, [], 1, 0, 0, 0⟩
  next := 0
  draws := 0

def heldPlace : Place where
  directory := some ⟨.directory, 3, 0, 1, 1, 0o700⟩
  entries := AList.singleton pubName 0
  files _ := ⟨.directory, [], 2, 0, 0, 0o755⟩
  next := 1
  draws := 0

theorem parentPasses_plain : ParentPasses plainMachine 0 :=
  ⟨_, rfl, rfl, rfl, rfl⟩

theorem emptyPlace_at (name : Str) : emptyPlace.at_ name = none := AList.lookup_empty name

theorem emptyPlace_sound : emptyPlace.Sound where
  fresh name n h := by
    rw [emptyPlace_at] at h
    cases h
  oneName name other n h := by
    rw [emptyPlace_at] at h
    cases h
  absent _ := emptyPlace_at

theorem emptyPlace_inOrder (seed : Bytes) : InOrder plainMachine False seed emptyPlace :=
  inOrder_of_empty rfl rfl emptyPlace_at

theorem emptyPlace_free : ¬ Blocked emptyPlace plainMachine := (emptyPlace_inOrder []).pub

theorem heldPlace_at {name : Str} {n : Nat} (h : heldPlace.at_ name = some n) :
    name = pubName ∧ n = 0 := by
  have hkeys : name ∈ heldPlace.entries.keys := mem_keys.mpr ⟨n, h⟩
  have hname : name = pubName := List.mem_singleton.mp hkeys
  subst hname
  exact ⟨rfl, (Option.some.inj h).symm⟩

theorem heldPlace_sound : heldPlace.Sound where
  fresh name n h := by
    rw [(heldPlace_at h).2]
    exact Nat.one_pos
  oneName name other n h h' _ := (heldPlace_at h').1.trans (heldPlace_at h).1.symm
  absent h := by cases h

theorem heldPlace_early : EarlyPasses plainMachine 0 heldPlace := by
  refine ⟨parentPasses_plain, fun info hinfo => ?_⟩
  obtain rfl := Option.some.inj hinfo
  refine ⟨rfl, fun name n h => Or.inr (Or.inl (heldPlace_at h).1), fun n h => ?_⟩
  exact absurd (heldPlace_at h).1 (by decide)

theorem heldPlace_blocked : Blocked heldPlace plainMachine :=
  ⟨0, rfl, rfl, by decide⟩

section CutOff

variable {m : Machine} {b : Prop} {s : Settings} {sha512 : Bytes → Bytes} {seed : Bytes}
  {w w' v : Place} {rootUid : Nat}

/-- The next run on what is left succeeds, keeps a key that was published, and ends as the run
that was cut off would have: with the same key where that was published, else with its own. -/
def Recovers (m : Machine) (sha512 : Bytes → Bytes) (s : Settings) (rootUid : Nat)
    (w w' : Place) : Prop :=
  ∃ r v seed, (converge sha512 s false rootUid).run m.handle w' = (.ok r, v) ∧
    v.view = wanted sha512 s seed ∧
    (∀ n, w'.at_ keyName = some n → (w'.files n).content = b64encode seed) ∧
    ∃ r' v' seed', (converge sha512 s false rootUid).run m.handle w = (.ok r', v') ∧
      v'.view = wanted sha512 s seed' ∧ ((∃ n, w'.at_ keyName = some n) → seed' = seed)

theorem InOrder.reseed (h : InOrder m b seed w) (habsent : w.at_ keyName = none) (other : Bytes) :
    InOrder m b other w :=
  ⟨h.directory, h.names, fun n hn => (by rw [habsent] at hn; cases hn), h.alone, h.fresh, h.pub⟩

theorem recovers_of_inOrder (hparent : ParentPasses m rootUid) (hfree : ¬ Blocked w m)
    (hopens : Opens m False seed w) (hleaves : Leaves m seed w) (h : InOrder m False seed w') :
    Recovers m sha512 s rootUid w w' := by
  obtain ⟨v', hrun', hsettled'⟩ := run_settles s sha512 hparent hfree hopens hleaves
  cases hkey : w'.at_ keyName with
  | none =>
    obtain ⟨v, hrun, hsettled⟩ := run_settles s sha512 hparent h.pub
      (Or.inr (h.reseed hkey (m.bytes w'.draws seedBytes))) fun _ => rfl
    refine ⟨_, v, _, hrun, hsettled.view, fun n hn => ?_, _, v', seed, hrun', hsettled'.view,
      fun ⟨n, hn⟩ => ?_⟩
    · rw [hkey] at hn
      cases hn
    · rw [hkey] at hn
      cases hn
  | some n =>
    have hthere : Leaves m seed w' := fun habsent => by
      rw [hkey] at habsent
      cases habsent
    obtain ⟨v, hrun, hsettled⟩ := run_settles s sha512 hparent h.pub
      (Or.inr h) hthere
    exact ⟨_, v, _, hrun, hsettled.view, fun k hk => (h.key k hk).1.content, _, v', seed, hrun',
      hsettled'.view, fun _ => rfl⟩

theorem not_recovers_of_halfLinked (h : HalfLinked m b seed w') :
    ¬ Recovers m sha512 s rootUid w w' := by
  rintro ⟨r, v, _, hrun, -⟩
  obtain ⟨n, hn, -, hlinks⟩ := h.key
  have hnot : ¬ EarlyPasses m rootUid w' := by
    rintro ⟨-, hearly⟩
    obtain ⟨info, hinfo, -⟩ := h.directory
    obtain ⟨seed', -, hone⟩ := (hearly info hinfo).2.2 n hn
    omega
  obtain ⟨code, path, hrefused⟩ := run_refused s sha512 false hnot
  rw [hrun] at hrefused
  cases hrefused

/-- A run that was cut off is made good by the next one, unless it was cut off after the key was
linked to its name and before its temporary name was taken away. -/
theorem recovers_iff (hsound : w.Sound) {result : Result}
    (haccepts : (converge sha512 s false rootUid).run m.handle w = (.ok result, v))
    (hstop : w' ∈ (converge sha512 s false rootUid).stops m.handle w) :
    Recovers m sha512 s rootUid w w' ↔
      ∀ n, w'.at_ keyName = some n → (w'.files n).nlink = 1 := by
  obtain ⟨hparent, hfree, seed, hopens, hleaves⟩ := opens_of_ok hsound haccepts
  have hplace : w' = w ∨ Midway m False seed w' := by
    rcases (along_converge s sha512 hparent hopens hleaves).stop hstop with
      ⟨_, h⟩ | ⟨_, h⟩
    · exact h
    · exact Or.inr (Or.inl h.midway)
  rcases hplace with rfl | horder | hhalf
  · rcases hopens with ⟨hnone, hempty⟩ | horder
    · refine iff_of_true ?_ fun n hn => ?_
      · obtain ⟨v', hrun', hsettled'⟩ := run_settles s sha512 hparent hfree
          (Or.inl ⟨hnone, hempty⟩) hleaves
        refine ⟨_, v', seed, hrun', hsettled'.view, fun n hn => ?_, _, v', seed, hrun',
          hsettled'.view, fun _ => rfl⟩
        rw [hempty] at hn
        cases hn
      · rw [hempty] at hn
        cases hn
    · exact iff_of_true (recovers_of_inOrder hparent hfree (Or.inr horder) hleaves horder)
        fun n hn => (horder.key n hn).2
  · exact iff_of_true (recovers_of_inOrder hparent hfree hopens hleaves horder)
      fun n hn => (horder.key n hn).2
  · refine iff_of_false (not_recovers_of_halfLinked hhalf) fun hone => ?_
    obtain ⟨n, hn, -, hlinks⟩ := hhalf.key
    rw [hone n hn] at hlinks
    cases hlinks

theorem run_of_ends {α : Type} {p : KeyProg α} {step : Place → KeyOp → Prop} {a : α}
    (h : p.Along m.handle step (fun r u => r = .ok a ∧ u = v) w) :
    p.run m.handle w = (.ok a, v) :=
  Prod.ext h.ends.1 h.ends.2

variable (s sha512) in
theorem halfLinked_passed (hparent : ParentPasses m rootUid) (h : InOrder m b seed w)
    (habsent : w.at_ keyName = none) (hseed : seed = m.bytes w.draws seedBytes) :
    ∃ v ∈ (converge sha512 s false rootUid).stops m.handle w, HalfLinked m b seed v := by
  obtain ⟨info, hinfo, hkind⟩ := h.directory
  have hcheck : (checkParent s rootUid).run m.handle w = (.ok (), w) := by
    refine run_of_ends (along_checkParent.weaken fun r v hpost => ?_)
    exact hpost.elim (fun h => ⟨h.2.2, h.2.1⟩) fun h => absurd hparent h.1
  have hopened : (makeDirectory s false).run m.handle w = (.ok (true, false), w) := by
    refine run_of_ends ((along_makeDirectory_there hinfo).weaken fun r v hpost => ?_)
    exact hpost.elim (fun h => ⟨h.2.2, h.2.1⟩) fun h => absurd hkind h.1
  have hlisted : (listDirectory s).run m.handle w = (.ok (leftovers w), w) := by
    refine run_of_ends (along_listDirectory.weaken fun r v hpost => ?_)
    exact hpost.elim (fun h => ⟨h.2.2, h.2.1⟩) fun hnot => absurd h.names hnot.1
  have hinspected : (inspectKey sha512 s).run m.handle w = (.ok none, w) := by
    refine run_of_ends (along_inspectKey.weaken fun r v hpost => ?_)
    obtain ⟨rfl, hinspects⟩ := hpost
    cases hinspects with
    | absent _ => exact ⟨rfl, rfl⟩
    | passes hkey _ => rw [habsent] at hkey; cases hkey
    | refused hkey _ => rw [habsent] at hkey; cases hkey
  obtain ⟨htidy, hdone⟩ := (along_tidy (m := m) (s := s) h
    { Result.new with directoryCreated := false }).ends
  generalize hrun : (tidy s false (leftovers w)
    { Result.new with directoryCreated := false }).run m.handle w = outcome at htidy hdone
  obtain ⟨r, mid⟩ := outcome
  obtain rfl := htidy
  have hlength : seed.length = seedBytes := by rw [hseed, m.length_bytes]
  have htemp := isTempName_hex (m := m) (Or.inl rfl) mid.draw.draws
  have hfree : mid.at_ (keyTempPrefix ++ m.hex mid.draw.draws 8) = none :=
    free_of_clean hdone.clean htemp
  have hdrawn : InOrder m b seed mid.draw.draw := hdone.order.draw.draw
  have hbytes : m.bytes mid.draws seedBytes = seed := by rw [hseed, ← hdone.draws]
  have hwritten := run_of_ends (along_writeNewFile (s := s) htemp hdrawn hfree keyMode
    (b64encode (m.bytes mid.draws seedBytes)))
  refine ⟨_, ?_, halfLinked_linked (s := s) hdrawn hdone.clean hlength htemp⟩
  refine mem_stops_bind hcheck (mem_stops_bind hopened (mem_stops_resume_left
    (mem_stops_bind hlisted (mem_stops_bind hinspected (mem_stops_bind hrun
      (mem_stops_resume_left ?_))))))
  refine mem_stops_bind (t := mid.draw) rfl (mem_stops_bind (t := mid.draw.draw) rfl
    (mem_stops_bind hwritten (List.mem_cons_of_mem _ ?_)))
  rw [handle_linkKey (w := mid.draw.draw) (isTempName_ne htemp).1 (hdone.key.name.trans habsent),
    hbytes]
  exact mem_stops_start

/-- A first run that is cut off before it does anything is made good. -/
theorem recovers_iff_empty : ∃ result v,
    (converge (fun _ => []) plainSettings false 0).run plainMachine.handle emptyPlace =
        (.ok result, v) ∧
      (Recovers plainMachine (fun _ => []) plainSettings 0 emptyPlace emptyPlace ↔
        ∀ n, emptyPlace.at_ keyName = some n → (emptyPlace.files n).nlink = 1) := by
  obtain ⟨v, hrun, -⟩ := run_settles plainSettings (fun _ => []) parentPasses_plain emptyPlace_free
    (Or.inr (emptyPlace_inOrder _)) fun _ => rfl
  exact ⟨_, v, hrun, recovers_iff emptyPlace_sound hrun mem_stops_start⟩

/-- A first run cut off between the link and the removal of the temporary name is never made
good. -/
theorem halfLinked_never_recovers : ∃ w' ∈ (converge (fun _ => []) plainSettings false 0).stops
    plainMachine.handle emptyPlace,
      (∃ result v, (converge (fun _ => []) plainSettings false 0).run plainMachine.handle
        emptyPlace = (.ok result, v)) ∧
      ¬ Recovers plainMachine (fun _ => []) plainSettings 0 emptyPlace w' := by
  obtain ⟨v, hrun, -⟩ := run_settles plainSettings (fun _ => []) parentPasses_plain emptyPlace_free
    (Or.inr (emptyPlace_inOrder _)) fun _ => rfl
  obtain ⟨w', hstop, hhalf⟩ := halfLinked_passed plainSettings (fun _ => [])
    parentPasses_plain (emptyPlace_inOrder _) (emptyPlace_at keyName) rfl
  exact ⟨w', hstop, ⟨_, v, hrun⟩, not_recovers_of_halfLinked hhalf⟩

end CutOff

section Refusals

variable {m : Machine} {s : Settings} {sha512 : Bytes → Bytes} {w v : Place} {rootUid : Nat}

/-- No file was made, taken away or changed, and no directory that was there either. -/
structure Untouched (w v : Place) : Prop where
  entries : v.entries = w.entries
  files : v.files = w.files
  directory : w.directory ≠ none → v.directory = w.directory

def Refuses (m : Machine) (sha512 : Bytes → Bytes) (s : Settings) (rootUid : Nat)
    (checkMode : Bool) (w : Place) : Prop :=
  ∃ code path,
    ((converge sha512 s checkMode rootUid).run m.handle w).1 = .error (.refusal code path)

/-- Every refusal comes before the first change, and a check run is refused exactly where the
run itself is. -/
structure RefusesFirst (m : Machine) (sha512 : Bytes → Bytes) (s : Settings) (rootUid : Nat)
    (w : Place) : Prop where
  untouched : ∀ code path v, (converge sha512 s false rootUid).run m.handle w =
    (.error (.refusal code path), v) → Untouched w v
  foretold : Refuses m sha512 s rootUid true w ↔ Refuses m sha512 s rootUid false w

theorem kept_of_untouched {b : Prop} {seed : Bytes} (h : Untouched w v)
    (hdirectory : w.directory ≠ none) (hkeyed : Keyed m b s seed v) : SoleKept w s := by
  have hat : ∀ name, v.at_ name = w.at_ name := fun name => by
    rw [Place.at_, Place.at_, h.entries]
  have hsame : SameKey w v := ⟨hat keyName, fun n _ => by rw [h.files]⟩
  refine ⟨⟨?_, ?_⟩, ?_, ?_⟩
  · obtain ⟨n, hn⟩ := hkeyed.key.there
    exact ⟨n, (hat keyName).symm.trans hn⟩
  · rw [← hsame.adopts]
    exact hkeyed.key.adopts
  · rw [← directoryAdopts_congr (h.directory hdirectory)]
    exact hkeyed.directory
  · rw [leftovers_eq_nil_iff]
    exact fun name n hn => hkeyed.clean name n ((hat name).trans hn)

theorem run_blocked (hsound : w.Sound) (hearly : EarlyPasses m rootUid w)
    (hblocked : Blocked w m) : ∃ code path v seed, (converge sha512 s false rootUid).run m.handle w =
      (.error (.refusal code path), v) ∧ Keyed m True s seed v ∧ w.directory ≠ none := by
  obtain ⟨seed, hopens, hleaves⟩ := opens_of_early (b := True) hsound hearly fun _ => trivial
  have hends := (along_converge s sha512 hearly.1 hopens hleaves).ends
  generalize hrun : (converge sha512 s false rootUid).run m.handle w = outcome at hends
  obtain ⟨r, v⟩ := outcome
  have hthere : w.directory ≠ none := fun hnone => by
    obtain ⟨n, hn, -⟩ := hblocked
    rw [hsound.absent hnone] at hn
    cases hn
  cases hends with
  | settled hfree _ => exact absurd hblocked hfree
  | blocked _ hkeyed => exact ⟨_, _, v, seed, rfl, hkeyed, hthere⟩

theorem kept_of_refusesFirst (hsound : w.Sound) (h : RefusesFirst m sha512 s rootUid w)
    (hearly : EarlyPasses m rootUid w) (hblocked : Blocked w m) : SoleKept w s := by
  obtain ⟨code, path, v, seed, hrun, hkeyed, hthere⟩ := run_blocked hsound hearly hblocked
  exact kept_of_untouched (h.untouched code path v hrun) hthere hkeyed

variable (s sha512) in
theorem run_quiet (checkMode : Bool) (hearly : EarlyPasses m rootUid w) {info : Info}
    (hinfo : w.directory = some info) (hidle : checkMode = true ∨ Idle m sha512 s w) : ∃ r,
      (converge sha512 s checkMode rootUid).run m.handle w = (r, w) ∧
        Foresees m sha512 s w false r := by
  obtain ⟨hplace, hforesees⟩ := (along_quiet s sha512 checkMode hearly hinfo hidle).ends
  exact ⟨_, Prod.ext rfl hplace, hforesees⟩

theorem foresees_blocked {r : Except KeyError Result} (hblocked : Blocked w m)
    (hkey : ∃ n, w.at_ keyName = some n) (h : Foresees m sha512 s w false r) :
    ∃ code path, r = .error (.refusal code path) := by
  obtain ⟨n, hn⟩ := hkey
  cases h with
  | absent habsent =>
    rw [habsent] at hn
    cases hn
  | there _ _ htells =>
    cases htells with
    | free hfree => exact absurd hblocked hfree
    | blocked _ => exact ⟨_, _, rfl⟩

theorem foresees_free {made : Bool} {r : Except KeyError Result} (hfree : ¬ Blocked w m)
    (h : Foresees m sha512 s w made r) : ∃ result, r = .ok result := by
  cases h with
  | absent _ => exact ⟨_, rfl⟩
  | there _ _ htells =>
    cases htells with
    | free _ => exact ⟨_, rfl⟩
    | blocked hblocked => exact absurd hblocked hfree

/-- Refusals come first exactly where a public name that is in the way is all there is to see to:
else a run that passes every earlier check is refused after it has changed something. -/
theorem refusesFirst_iff (hsound : w.Sound) : RefusesFirst m sha512 s rootUid w ↔
    (EarlyPasses m rootUid w → Blocked w m → SoleKept w s) := by
  refine ⟨kept_of_refusesFirst hsound, fun hkept => ?_⟩
  by_cases hearly : EarlyPasses m rootUid w
  swap
  · obtain ⟨code, path, hrun⟩ := run_refused s sha512 false hearly
    obtain ⟨code', path', hcheck⟩ := run_refused s sha512 true hearly
    refine ⟨fun _ _ v h => ?_, iff_of_true ⟨code', path', by rw [hcheck]⟩
      ⟨code, path, by rw [hrun]⟩⟩
    obtain ⟨-, rfl⟩ := Prod.mk.inj (hrun.symm.trans h)
    exact ⟨rfl, rfl, fun _ => rfl⟩
  by_cases hblocked : Blocked w m
  · have hkept := hkept hearly hblocked
    obtain ⟨info, hinfo⟩ : ∃ info, w.directory = some info := by
      refine Option.ne_none_iff_exists'.mp fun hnone => ?_
      obtain ⟨n, hn, -⟩ := hblocked
      rw [hsound.absent hnone] at hn
      cases hn
    obtain ⟨r, hrun, hforesees⟩ := run_quiet s sha512 false hearly hinfo
      (Or.inr ⟨hkept, Or.inl hblocked⟩)
    obtain ⟨r', hcheck, hforesees'⟩ := run_quiet s sha512 true hearly hinfo
      (Or.inl rfl)
    obtain ⟨code, path, rfl⟩ := foresees_blocked hblocked hkept.key.there hforesees
    obtain ⟨code', path', rfl⟩ := foresees_blocked hblocked hkept.key.there hforesees'
    refine ⟨fun _ _ v h => ?_, iff_of_true ⟨code', path', by rw [hcheck]⟩
      ⟨code, path, by rw [hrun]⟩⟩
    obtain ⟨-, rfl⟩ := Prod.mk.inj (hrun.symm.trans h)
    exact ⟨rfl, rfl, fun _ => rfl⟩
  · obtain ⟨seed, hopens, hleaves⟩ := opens_of_early hsound hearly hblocked
    obtain ⟨v, hrun, -⟩ := run_settles s sha512 hearly.1 hblocked hopens hleaves
    have hcheck : ∃ result, (converge sha512 s true rootUid).run m.handle w = (.ok result, w) := by
      cases hdirectory : w.directory with
      | none =>
        obtain ⟨hplace, hresult⟩ := (along_quiet_absent s sha512 hearly hdirectory).ends
        exact ⟨_, Prod.ext hresult hplace⟩
      | some info =>
        obtain ⟨r, hcheck, hforesees⟩ := run_quiet s sha512 true hearly hdirectory (Or.inl rfl)
        obtain ⟨result, rfl⟩ := foresees_free hblocked hforesees
        exact ⟨result, hcheck⟩
    obtain ⟨result, hcheck⟩ := hcheck
    refine ⟨fun code path v h => ?_, iff_of_false ?_ ?_⟩
    · rw [hrun] at h
      cases h
    · rintro ⟨code, path, h⟩
      rw [hcheck] at h
      cases h
    · rintro ⟨code, path, h⟩
      rw [hrun] at h
      cases h

/-- In an empty directory every refusal would come first. -/
theorem refusesFirst_iff_empty : RefusesFirst plainMachine (fun _ => []) plainSettings 0 emptyPlace ↔
    (EarlyPasses plainMachine 0 emptyPlace → Blocked emptyPlace plainMachine →
      SoleKept emptyPlace plainSettings) :=
  refusesFirst_iff emptyPlace_sound

/-- With a directory at the public name and no key, the key is made and then the run refused. -/
theorem refused_after_creating :
    ¬ RefusesFirst plainMachine (fun _ => []) plainSettings 0 heldPlace := by
  intro h
  obtain ⟨n, hn⟩ := (kept_of_refusesFirst heldPlace_sound h heldPlace_early heldPlace_blocked).key.there
  exact absurd (heldPlace_at hn).1 (by decide)

end Refusals

section Repeated

variable {m : Machine} {s : Settings} {sha512 : Bytes → Bytes} {seed : Bytes} {w v : Place}
  {rootUid : Nat}

theorem keyPasses_unique {n : Nat} {other : Bytes} (h : KeyPasses w n seed)
    (h' : KeyPasses w n other) : other = seed := by
  have hcontent := h.1.content.symm.trans h'.1.content
  have hdecoded := congrArg b64decode hcontent
  rw [b64decode_b64encode, b64decode_b64encode] at hdecoded
  exact (Option.some.inj hdecoded).symm

theorem run_settled (hparent : ParentPasses m rootUid) (h : SoleSettled m False sha512 s seed w) :
    ∃ again, (converge sha512 s false rootUid).run m.handle w = (.ok again, w) ∧
      again.changed = false ∧
      ∀ x ∈ (converge sha512 s false rootUid).trace m.handle w, x.1.writes = false := by
  obtain ⟨info, hinfo, hkind⟩ := h.order.directory
  have hearly : EarlyPasses m rootUid w := by
    refine ⟨hparent, fun info' hinfo' => ?_⟩
    obtain rfl := Option.some.inj (hinfo.symm.trans hinfo')
    exact ⟨hkind, h.order.names, fun n hn => ⟨seed, h.order.key n hn⟩⟩
  have hclean : leftovers w = [] := leftovers_eq_nil_iff.mpr h.clean
  have hidle : Idle m sha512 s w := by
    refine ⟨⟨h.key, h.directory, hclean⟩, Or.inr fun n other hn hpasses => ?_⟩
    rw [keyPasses_unique (h.order.key n hn) hpasses]
    exact h.pub
  have halong := along_quiet s sha512 false hearly hinfo (Or.inr hidle)
  obtain ⟨r, hrun, hforesees⟩ := run_quiet s sha512 false hearly hinfo (Or.inr hidle)
  refine (?_ : ∃ again, r = .ok again ∧ again.changed = false).elim fun again hagain =>
    ⟨again, hagain.1 ▸ hrun, hagain.2, fun x hx => ?_⟩
  · obtain ⟨n, hn⟩ := h.key.there
    cases hforesees with
    | absent habsent =>
      rw [habsent] at hn
      cases hn
    | there hkey hpasses htells =>
      cases htells with
      | free _ =>
        obtain rfl := keyPasses_unique (h.order.key _ hkey) hpasses
        refine ⟨_, rfl, ?_⟩
        simp [Result.changed, report, hn, h.directory, h.key.adopts, hclean, h.pub]
      | blocked hblocked => exact absurd hblocked h.order.pub
  · obtain ⟨_, -, hwrites⟩ := halong.performed hx
    exact hwrites

/-- A second run has nothing to do, and a check run on the first state tells what the run does. -/
theorem run_repeated (hsound : w.Sound) {result : Result}
    (h : (converge sha512 s false rootUid).run m.handle w = (.ok result, v)) :
    (∃ again, (converge sha512 s false rootUid).run m.handle v = (.ok again, v) ∧
      again.changed = false ∧
      ∀ x ∈ (converge sha512 s false rootUid).trace m.handle v, x.1.writes = false) ∧
    ∃ told, (converge sha512 s true rootUid).run m.handle w = (.ok told, w) ∧
      (∀ x ∈ (converge sha512 s true rootUid).trace m.handle w, x.1.writes = false) ∧
      told.created = result.created ∧ told.adopted = result.adopted ∧
      told.tempCleaned = result.tempCleaned ∧ told.changed = result.changed ∧
      ((∃ n, w.at_ keyName = some n) → told.publicKey = result.publicKey) := by
  obtain ⟨hparent, hfree, seed, hopens, hleaves⟩ := opens_of_ok hsound h
  obtain ⟨v', hrun, hsettled⟩ := run_settles s sha512 hparent hfree hopens hleaves
  obtain ⟨hresult, rfl⟩ := Prod.mk.inj (h.symm.trans hrun)
  obtain rfl := Except.ok.inj hresult
  refine ⟨run_settled hparent hsettled, ?_⟩
  rcases hopens with ⟨hnone, hempty⟩ | horder
  · have hearly : EarlyPasses m rootUid w := ⟨hparent, fun info hinfo => by
      rw [hnone] at hinfo
      cases hinfo⟩
    have halong := along_quiet_absent s sha512 hearly hnone
    refine ⟨_, Prod.ext halong.ends.2 halong.ends.1, fun x hx => ?_, ?_, ?_, ?_, ?_, fun ⟨n, hn⟩ => ?_⟩
    · obtain ⟨_, -, hwrites⟩ := halong.performed hx
      exact hwrites
    · simp [report, hempty]
    · simp [report, Result.new, directoryAdopts, hnone, keyAdopts, hempty]
    · have hclean : leftovers w = [] := leftovers_eq_nil_iff.mpr fun name n hn => by
        rw [hempty] at hn
        cases hn
      simp [report, Result.new, hclean]
    · simp [report, Result.changed, hempty]
    · rw [hempty] at hn
      cases hn
  · obtain ⟨info, hinfo, hkind⟩ := horder.directory
    have hearly : EarlyPasses m rootUid w := by
      refine ⟨hparent, fun info' hinfo' => ?_⟩
      obtain rfl := Option.some.inj (hinfo.symm.trans hinfo')
      exact ⟨hkind, horder.names, fun n hn => ⟨seed, horder.key n hn⟩⟩
    have halong := along_quiet s sha512 true hearly hinfo (Or.inl rfl)
    obtain ⟨r, hcheck, hforesees⟩ := run_quiet s sha512 true hearly hinfo
      (Or.inl rfl)
    have hwrites : ∀ x ∈ (converge sha512 s true rootUid).trace m.handle w, x.1.writes = false :=
      fun x hx => by
        obtain ⟨_, -, hwrites⟩ := halong.performed hx
        exact hwrites
    cases hforesees with
    | absent habsent =>
      refine ⟨_, hcheck, hwrites, ?_, ?_, ?_, ?_, fun ⟨n, hn⟩ => ?_⟩
      · rfl
      · rfl
      · rfl
      · simp [report, Result.changed, habsent]
      · rw [habsent] at hn
        cases hn
    | there hkey hpasses htells =>
      cases htells with
      | free _ =>
        obtain rfl := keyPasses_unique (horder.key _ hkey) hpasses
        refine ⟨_, hcheck, hwrites, rfl, rfl, rfl, ?_, fun _ => rfl⟩
        have hthere : w.directory.isNone = false := by rw [hinfo]; rfl
        simp only [Result.changed, report, hthere, Bool.false_or]
        rfl
      | blocked hblocked => exact absurd hblocked hfree

theorem run_repeated_empty : ∃ result v,
    (converge (fun _ => []) plainSettings false 0).run plainMachine.handle emptyPlace =
        (.ok result, v) ∧
      ∃ again, (converge (fun _ => []) plainSettings false 0).run plainMachine.handle v =
        (.ok again, v) ∧ again.changed = false := by
  obtain ⟨v, hrun, -⟩ := run_settles plainSettings (fun _ => []) parentPasses_plain emptyPlace_free
    (Or.inr (emptyPlace_inOrder _)) fun _ => rfl
  obtain ⟨⟨again, hagain, hchanged, -⟩, -⟩ := run_repeated emptyPlace_sound hrun
  exact ⟨_, v, hrun, again, hagain, hchanged⟩

end Repeated

end SharedInfra.ChannelKey
