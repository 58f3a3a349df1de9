import SharedInfra.ChannelKey.SolePlaces

/-!
# A run from a directory in order

Each part of `_converge_in_directory` from a directory in order to what it leaves,
with every place it goes through on the way (`Midway`).
-/

namespace SharedInfra.ChannelKey

open Python Effects Prog

section Wanted

variable (s : Settings) (w : Place)

def directoryAdopts : Bool :=
  match w.directory with
  | none => false
  | some info => decide (info.uid ≠ s.uid ∨ info.gid ≠ s.gid ∨ info.mode ≠ dirMode)

/-- Whether the key's owner and mode are to be changed. -/
def keyAdopts : Bool :=
  match w.at_ keyName with
  | none => false
  | some n => decide ((w.files n).uid ≠ s.uid ∨ (w.files n).gid ≠ s.gid ∨
      (w.files n).mode ≠ keyMode)

/-- The directory holds no name but the two files'. -/
def Clean : Prop := ∀ name n, w.at_ name = some n → name = keyName ∨ name = pubName

end Wanted

section Run

variable {m : Machine} {b : Prop} {s : Settings} {sha512 : Bytes → Bytes} {seed : Bytes}
  {w v : Place}

/-- Any operation in a place between two operations of a run. -/
def Within (m : Machine) (b : Prop) (seed : Bytes) (v : Place) (_ : KeyOp) : Prop := Midway m b seed v

theorem InOrder.within (h : InOrder m b seed w) (op : KeyOp) : Within m b seed w op := Or.inl h

theorem quiet_within (h : InOrder m b seed w) (v : Place) (op : KeyOp) (hquiet : Quiet w v op) :
    Within m b seed v op := by
  obtain ⟨rfl, -⟩ := hquiet
  exact h.within op

theorem directoryAdopts_of_wanted {info : Info} (h : w.directory = some info)
    (hinfo : info.uid = s.uid ∧ info.gid = s.gid ∧ info.mode = dirMode) :
    directoryAdopts s w = false := by
  simp only [directoryAdopts, h, hinfo]
  simp

/-- Taking a leftover's name away. -/
def unlinked (w : Place) (name : Str) (n : Nat) : Place :=
  (w.change n fun f => { f with nlink := f.nlink - 1 }).remove name

theorem handle_unlink {name : Str} {n : Nat} (hn : w.at_ name = some n)
    (hkind : (w.files n).kind = .regular) :
    m.handle w (.unlinkEntry name) = (.ok (), unlinked w name n) := by
  simp only [Machine.handle, hn, hkind]
  rfl

theorem unlinked_facts (h : InOrder m b seed w) {name : Str} {n : Nat} (hn : w.at_ name = some n)
    (htemp : isTempName name = true) :
    InOrder m b seed (unlinked w name n) ∧ SameKey w (unlinked w name n) ∧
      SamePublic w (unlinked w name n) := by
  obtain ⟨hkey, hpub⟩ := isTempName_ne htemp
  have hother : w.at_ keyName ≠ some n := fun hk => hkey (h.alone n name hk hn)
  refine ⟨(h.change rfl fun hk => absurd hk hother).remove, ⟨?_, fun k hk => ?_⟩,
    ⟨?_, fun k hk => ?_⟩⟩
  · rw [unlinked, Place.at_remove, if_neg hkey.symm, Place.at_change]
  · have hne : k ≠ n := fun heq => hother (heq ▸ hk)
    rw [unlinked, Place.files_remove, Place.files_change_ne hne]
  · rw [unlinked, Place.at_remove, if_neg hpub.symm, Place.at_change]
  · rw [unlinked, Place.files_remove]
    by_cases heq : k = n
    · subst heq
      rw [Place.files_change_self]
      exact ⟨rfl, rfl, rfl, rfl, rfl⟩
    · rw [Place.files_change_ne heq]
      exact Alike.rfl

/-- While the leftovers are taken away: these are still to go. -/
structure Clearing (m : Machine) (b : Prop) (seed : Bytes) (w : Place) (names : List Str)
    (v : Place) : Prop where
  order : InOrder m b seed v
  key : SameKey w v
  pub : SamePublic w v
  directory : v.directory = w.directory
  draws : v.draws = w.draws
  left : ∀ name, (∃ n, v.at_ name = some n) → name = keyName ∨ name = pubName ∨ name ∈ names
  there : ∀ name ∈ names, isTempName name = true ∧ ∃ n, v.at_ name = some n
  nodup : names.Nodup

theorem along_clear {names : List Str} (h : Clearing m b seed w names v) :
    (forEach names fun name => sys (.unlinkEntry name)).Along m.handle (Within m b seed)
      (fun r u => r = .ok () ∧ Clearing m b seed w [] u) v := by
  refine along_forEach (I := Clearing m b seed w) (fun name rest v h => ?_) h
  obtain ⟨htemp, n, hn⟩ := h.there name (.head _)
  have hkind := (h.order.own hn (isTempName_ne htemp).1 (isTempName_ne htemp).2).2
  obtain ⟨horder, hkey, hpub⟩ := unlinked_facts h.order hn htemp
  have hat : ∀ other, (unlinked v name n).at_ other = if other = name then none else v.at_ other :=
    fun other => Place.at_remove
  have hnotin := (List.nodup_cons.mp h.nodup).1
  refine along_sys (handle_unlink hn hkind) (h.order.within _) ⟨rfl, horder, h.key.trans hkey,
    h.pub.trans hpub, h.directory, h.draws, fun other hother => ?_, fun other hother => ?_,
    (List.nodup_cons.mp h.nodup).2⟩
  · obtain ⟨k, hk⟩ := hother
    rw [hat] at hk
    split_ifs at hk with heq
    rcases h.left other ⟨k, hk⟩ with hleft | hleft | hleft
    · exact Or.inl hleft
    · exact Or.inr (Or.inl hleft)
    · exact Or.inr (Or.inr ((List.mem_cons.mp hleft).resolve_left heq))
  · obtain ⟨htemp', k, hk⟩ := h.there other (.tail _ hother)
    refine ⟨htemp', k, ?_⟩
    rw [hat, if_neg (ne_of_mem_of_not_mem hother hnotin)]
    exact hk

theorem clearing_start (h : InOrder m b seed w) : Clearing m b seed w (leftovers w) w where
  order := h
  key := SameKey.refl
  pub := SamePublic.refl
  directory := rfl
  draws := rfl
  left name hname := by
    by_cases hkey : name = keyName
    · exact Or.inl hkey
    · by_cases hpub : name = pubName
      · exact Or.inr (Or.inl hpub)
      · exact Or.inr (Or.inr (mem_leftovers.mpr ⟨hname, hkey, hpub⟩))
  there name hname := by
    obtain ⟨⟨n, hn⟩, hkey, hpub⟩ := mem_leftovers.mp hname
    exact ⟨(h.own hn hkey hpub).1, n, hn⟩
  nodup := nodup_leftovers

/-- What a part of a run leaves, beside what it is for. -/
structure Tidied (m : Machine) (b : Prop) (seed : Bytes) (s : Settings) (w v : Place) :
    Prop where
  order : InOrder m b seed v
  clean : Clean v
  directory : directoryAdopts s v = false
  key : SameKey w v
  pub : SamePublic w v
  draws : v.draws = w.draws

theorem tidied_of_clearing {info : Info} {u : Place} (h : Clearing m b seed u [] v)
    (hdirectory : u.directory = some info)
    (hinfo : info.uid = s.uid ∧ info.gid = s.gid ∧ info.mode = dirMode)
    (hkey : SameKey w u) (hpub : SamePublic w u) (hdraws : u.draws = w.draws) :
    Tidied m b seed s w v where
  order := h.order
  clean name n hn := by
    rcases h.left name ⟨n, hn⟩ with hleft | hleft | hleft
    · exact Or.inl hleft
    · exact Or.inr hleft
    · cases hleft
  directory := directoryAdopts_of_wanted (h.directory.trans hdirectory) hinfo
  key := hkey.trans h.key
  pub := hpub.trans h.pub
  draws := h.draws.trans hdraws

/-- `tidy`'s report, in either mode. -/
def tidyResult (s : Settings) (w : Place) (result : Result) : Result :=
  { result with
    adopted := result.adopted || directoryAdopts s w
    tempCleaned := (leftovers w).length }

theorem along_tidy (h : InOrder m b seed w) (result : Result) :
    (tidy s false (leftovers w) result).Along m.handle (Within m b seed)
      (fun r v => r = .ok (tidyResult s w result) ∧ Tidied m b seed s w v) w := by
  obtain ⟨info, hinfo, hkind⟩ := h.directory
  have hstat : m.handle w .statDirectory = (.ok info, w) := by
    simp only [Machine.handle, hinfo]
  have hadopts : directoryAdopts s w =
      decide (info.uid ≠ s.uid ∨ info.gid ≠ s.gid ∨ info.mode ≠ dirMode) := by
    rw [directoryAdopts, hinfo]
  refine along_sys_bind hstat (h.within _) ?_
  have hend : ∀ {u : Place}, InOrder m b seed u → leftovers u = leftovers w → SameKey w u →
      SamePublic w u → u.draws = w.draws → (∃ info, u.directory = some info ∧
        info.uid = s.uid ∧ info.gid = s.gid ∧ info.mode = dirMode) →
      (do
        onlyIf (!false) (forEach (leftovers w) fun name => sys (.unlinkEntry name))
        pure { result with
          adopted := result.adopted ||
            decide (info.uid ≠ s.uid ∨ info.gid ≠ s.gid ∨ info.mode ≠ dirMode)
          tempCleaned := (leftovers w).length } : KeyProg Result).Along m.handle (Within m b seed)
        (fun r v => r = .ok (tidyResult s w result) ∧ Tidied m b seed s w v) u := by
    intro u hu hleft hkey hpub hdraws hdirectory
    obtain ⟨info', hinfo', hwanted⟩ := hdirectory
    rw [← hleft]
    refine Along.bind (along_clear (clearing_start hu)) (fun _ v hpost => ?_) fun e v hpost => ?_
    · refine ⟨?_, tidied_of_clearing hpost.2 hinfo' hwanted hkey hpub hdraws⟩
      rw [tidyResult, hadopts, hleft]
    · cases hpost.1
  by_cases hadopt : info.uid ≠ s.uid ∨ info.gid ≠ s.gid ∨ info.mode ≠ dirMode
  · have hchown := h.changeDirectory (f := fun info => { info with uid := s.uid, gid := s.gid })
      fun _ => rfl
    have hchmod := hchown.changeDirectory (f := fun info => { info with mode := dirMode })
      fun _ => rfl
    simp only [hadopt, decide_true, Bool.not_false, Bool.and_true, onlyIf, if_true] at hend ⊢
    refine Along.bind (Q := fun r v => r = .ok () ∧ v =
      (w.changeDirectory fun info => { info with uid := s.uid, gid := s.gid }).changeDirectory
        fun info => { info with mode := dirMode }) ?_ (fun _ v hpost => ?_) fun e v hpost => ?_
    · exact along_sys_bind rfl (h.within _) (along_sys rfl (hchown.within _) ⟨rfl, rfl⟩)
    · obtain ⟨-, rfl⟩ := hpost
      refine hend hchmod rfl ⟨rfl, fun _ _ => rfl⟩ ⟨rfl, fun _ _ => Alike.rfl⟩ rfl
        ⟨{ info with uid := s.uid, gid := s.gid, mode := dirMode }, ?_, rfl, rfl, rfl⟩
      simp only [Place.changeDirectory, hinfo, Option.map_some]
    · cases hpost.1
  · have hwanted : info.uid = s.uid ∧ info.gid = s.gid ∧ info.mode = dirMode := by
      simpa only [not_or, not_not] using hadopt
    simp only [hadopt, decide_false, Bool.false_and, onlyIf] at hend ⊢
    exact hend h rfl SameKey.refl SamePublic.refl rfl ⟨info, hinfo, hwanted⟩

/-- A file of the module's making. -/
def madeFile (s : Settings) (mode : Nat) (content : Bytes) : File :=
  ⟨.regular, content, 1, s.uid, s.gid, mode⟩

theorem keyMode_narrow : keyMode &&& 0o077 = 0 := by decide

theorem along_writeAll {name : Str} (htemp : isTempName name = true) (h : InOrder m b seed w)
    (hfree : w.at_ name = none) {mode : Nat} (turns : Nat) (before data : Bytes)
    (hturns : data.length ≤ turns) :
    (writeAll w.next turns data).Along m.handle (Within m b seed)
      (fun r v => r = .ok () ∧ v = w.create name (madeFile s mode (before ++ data)))
      (w.create name (madeFile s mode before)) := by
  induction turns generalizing before data with
  | zero =>
    obtain rfl := List.length_eq_zero_iff.mp (Nat.le_zero.mp hturns)
    exact ⟨rfl, by rw [List.append_nil]⟩
  | succ turns ih =>
    rw [writeAll]
    by_cases hnil : data = []
    · subst hnil
      exact ⟨rfl, by rw [List.append_nil]⟩
    · rw [if_neg (by simpa using hnil)]
      have hpos := m.written_pos (w.create name (madeFile s mode before)) w.next data hnil
      generalize hcount : m.written (w.create name (madeFile s mode before)) w.next data = count
      refine along_sys_bind (a := count)
        (v := w.create name (madeFile s mode (before ++ data.take count))) ?_
        ((h.create htemp hfree rfl).within _) ?_
      · simp only [Machine.handle, hcount, Place.change_create]
        rfl
      · have hsplit : before ++ data = before ++ data.take count ++ data.drop count := by
          rw [List.append_assoc, List.take_append_drop]
        rw [hsplit]
        refine ih _ _ ?_
        rw [List.length_drop]
        omega

theorem along_writeNewFile {name : Str} (htemp : isTempName name = true) (h : InOrder m b seed w)
    (hfree : w.at_ name = none) (mode : Nat) (data : Bytes) :
    (writeNewFile s name mode data).Along m.handle (Within m b seed)
      (fun r v => r = .ok () ∧ v = w.create name (madeFile s mode data)) w := by
  have hmade : ∀ {g : File}, g.kind = .regular → ∀ op, Within m b seed (w.create name g) op :=
    fun hkind => (h.create htemp hfree hkind).within
  have hcreate : m.handle w (.createEntry name mode) = (.ok w.next, w.create name
      ⟨.regular, [], 1, m.owner.1, m.owner.2, m.masked mode⟩) := by
    simp only [Machine.handle, hfree]
  refine along_sys_bind hcreate (h.within _) (Along.finally_ (Q := fun r v =>
    r = .ok () ∧ v = w.create name (madeFile s mode data)) ?_ fun r v hpost => ?_)
  · refine along_sys_bind (a := ()) (v := w.create name ⟨.regular, [], 1, s.uid, s.gid, m.masked mode⟩) ?_
      (hmade rfl _) (along_sys_bind (a := ()) (v := w.create name (madeFile s mode [])) ?_ (hmade rfl _)
        (Along.bind (along_writeAll htemp h hfree data.length [] data le_rfl)
          (fun _ v hpost => ?_) fun e v hpost => ?_))
    · simp only [Machine.handle, Place.change_create]
    · simp only [Machine.handle, Place.change_create]
      rfl
    · obtain ⟨-, rfl⟩ := hpost
      exact along_sys rfl (hmade rfl _) ⟨rfl, rfl⟩
    · cases hpost.1
  · obtain ⟨rfl, rfl⟩ := hpost
    exact along_sys rfl (hmade rfl _) ⟨rfl, rfl, rfl⟩

theorem free_of_clean {name : Str} (h : Clean w) (htemp : isTempName name = true) :
    w.at_ name = none := by
  cases hn : w.at_ name with
  | none => rfl
  | some n =>
    rcases h name n hn with hname | hname
    · exact absurd hname (isTempName_ne htemp).1
    · exact absurd hname (isTempName_ne htemp).2

theorem isTempName_hex {stem : Str} (hstem : stem = keyTempPrefix ∨ stem = pubTempPrefix)
    (draw : Nat) : isTempName (stem ++ m.hex draw 8) = true :=
  isTempName_draw hstem (m.length_hex draw 8) (m.hex_digits draw 8)

structure KeyDone (s : Settings) (v : Place) : Prop where
  there : ∃ n, v.at_ keyName = some n
  adopts : keyAdopts s v = false

theorem created_facts (h : InOrder m b seed w) (hclean : Clean w) (hlength : seed.length = seedBytes)
    (hdirectory : v.directory = w.directory) (hnext : v.next = w.next + 1)
    (hat : ∀ other, v.at_ other = if other = keyName then some w.next else w.at_ other)
    (hnew : v.files w.next = madeFile s keyMode (b64encode seed))
    (hold : ∀ k, k ≠ w.next → v.files k = w.files k) :
    InOrder m b seed v ∧ Clean v ∧ SamePublic w v ∧ KeyDone s v := by
  have hlt : ∀ {other k}, w.at_ other = some k → k ≠ w.next := fun hk =>
    Nat.ne_of_lt (h.fresh _ _ hk)
  have hkey : v.at_ keyName = some w.next := by rw [hat, if_pos rfl]
  have hcase : ∀ {other k}, v.at_ other = some k →
      (other = keyName ∧ k = w.next) ∨ w.at_ other = some k := by
    intro other k hk
    rw [hat] at hk
    split_ifs at hk with heq
    · exact Or.inl ⟨heq, (Option.some.inj hk).symm⟩
    · exact Or.inr hk
  have hclean' : Clean v := by
    intro other k hk
    rcases hcase hk with ⟨heq, _⟩ | hk
    · exact Or.inl heq
    · exact hclean other k hk
  have hpub : SamePublic w v := by
    refine ⟨?_, fun k hk => ?_⟩
    · rw [hat, if_neg (by decide)]
    · rw [hold k (hlt hk)]
      exact Alike.rfl
  refine ⟨⟨?_, fun other k hk => ?_, fun k hk => ?_, fun k other hk hother => ?_,
    fun other k hk => ?_, fun hblocked => h.pub (hpub.blocked.mp hblocked)⟩, hclean', hpub,
    ⟨⟨w.next, hkey⟩, ?_⟩⟩
  · rw [hdirectory]
    exact h.directory
  · exact (hclean' other k hk).imp_right Or.inl
  · obtain rfl := Option.some.inj (hkey.symm.trans hk)
    rw [KeyPasses, hnew]
    exact ⟨⟨rfl, rfl, hlength, keyMode_narrow⟩, rfl⟩
  · obtain rfl := Option.some.inj (hkey.symm.trans hk)
    rcases hcase hother with ⟨heq, _⟩ | hother
    · exact heq
    · exact absurd rfl (hlt hother)
  · rw [hnext]
    rcases hcase hk with ⟨_, rfl⟩ | hk
    · exact Nat.lt_succ_self _
    · exact Nat.lt_succ_of_lt (h.fresh other k hk)
  · simp only [keyAdopts, hkey, hnew, madeFile]
    simp

/-- The key's file has its name, and still the temporary one. -/
def linked (w : Place) (name : Str) (g : File) : Place :=
  (w.create name { g with nlink := 2 }).name w.next keyName

theorem at_linked {name other : Str} {g : File} : (linked w name g).at_ other =
    if other = keyName then some w.next else if other = name then some w.next else w.at_ other := by
  rw [linked, Place.at_name, Place.at_create]

theorem files_linked {name : Str} {g : File} : (linked w name g).files w.next =
    { g with nlink := 2 } :=
  Function.update_self _ _ _

theorem handle_linkKey {name : Str} {mode : Nat} {content : Bytes} (hne : name ≠ keyName)
    (habsent : w.at_ keyName = none) :
    m.handle (w.create name (madeFile s mode content)) (.linkEntry name keyName) =
      (.ok (), linked w name (madeFile s mode content)) := by
  have hname : (w.create name (madeFile s mode content)).at_ name = some w.next := by
    rw [Place.at_create, if_pos rfl]
  have hkey : (w.create name (madeFile s mode content)).at_ keyName = none := by
    rw [Place.at_create, if_neg hne.symm, habsent]
  simp only [Machine.handle, hname, hkey, Place.change_create]
  rfl

theorem halfLinked_linked (h : InOrder m b seed w) (hclean : Clean w)
    (hlength : seed.length = seedBytes) {name : Str} (htemp : isTempName name = true) :
    HalfLinked m b seed (linked w name (madeFile s keyMode (b64encode seed))) := by
  obtain ⟨hkeyne, hpubne⟩ := isTempName_ne htemp
  refine ⟨h.directory, fun other k hk => ?_, ⟨w.next, by rw [at_linked, if_pos rfl], ?_, ?_⟩,
    fun hblocked => h.pub ((blocked_congr ?_ fun k hk => ?_).mp hblocked)⟩
  · by_cases hkey : other = keyName
    · exact Or.inl hkey
    · by_cases hother : other = name
      · subst hother
        refine Or.inr (Or.inr ⟨htemp, fun k' hk' => ?_⟩)
        rw [at_linked, if_neg hkey, if_pos rfl] at hk'
        rw [← Option.some.inj hk', files_linked]
        rfl
      · rw [at_linked, if_neg hkey, if_neg hother] at hk
        exact (hclean other k hk).imp_right Or.inl
  · rw [files_linked]
    exact ⟨rfl, rfl, hlength, keyMode_narrow⟩
  · rw [files_linked]
  · rw [at_linked, if_neg (by decide), if_neg hpubne.symm]
  · exact congrArg File.kind (Function.update_of_ne (Nat.ne_of_lt (h.fresh _ _ hk)) _ _)

theorem along_createKey (h : InOrder m b seed w) (hclean : Clean w)
    (habsent : w.at_ keyName = none) (hseed : seed = m.bytes w.draws seedBytes) :
    (createKey sha512 s).Along m.handle (Within m b seed)
      (fun r v => r = .ok (some (derivePublic sha512 seed)) ∧ InOrder m b seed v ∧ Clean v ∧
        v.directory = w.directory ∧ SamePublic w v ∧ KeyDone s v) w := by
  have hlength : seed.length = seedBytes := by rw [hseed, m.length_bytes]
  have htemp := isTempName_hex (m := m) (Or.inl rfl) w.draw.draws
  obtain ⟨hkeyne, -⟩ := isTempName_ne htemp
  generalize hname : keyTempPrefix ++ m.hex w.draw.draws 8 = name at htemp hkeyne
  have hdrawn : InOrder m b seed w.draw.draw := h.draw.draw
  have hfree : w.at_ name = none := free_of_clean hclean htemp
  refine along_sys_bind (a := seed) (v := w.draw) (by rw [hseed]; rfl) (h.within _)
    (along_sys_bind (a := m.hex w.draw.draws 8) (v := w.draw.draw) rfl (h.draw.within _) ?_)
  rw [hname]
  refine Along.bind (along_writeNewFile htemp hdrawn hfree keyMode (b64encode seed))
    (fun _ v hpost => ?_) fun e v hpost => ?_
  swap
  · cases hpost.1
  obtain ⟨-, rfl⟩ := hpost
  have hmade : InOrder m b seed
      (w.draw.draw.create name (madeFile s keyMode (b64encode seed))) :=
    hdrawn.create htemp hfree rfl
  refine along_ask_bind (hmade.within _) ?_
  rw [handle_linkKey (w := w.draw.draw) hkeyne habsent]
  generalize hplace : linked w.draw.draw name (madeFile s keyMode (b64encode seed)) = place
  have hat : ∀ other, place.at_ other = if other = keyName then some w.next else
      if other = name then some w.next else w.at_ other := by
    rw [← hplace]
    exact fun other => at_linked
  have hnew : place.files w.next = { madeFile s keyMode (b64encode seed) with nlink := 2 } := by
    rw [← hplace]
    exact files_linked
  have hold : ∀ k, k ≠ w.next → place.files k = w.files k := by
    rw [← hplace]
    exact fun k hk => Function.update_of_ne hk _ _
  -- The one place in which the key has two names.
  have hhalf : HalfLinked m b seed place := hplace ▸ halfLinked_linked hdrawn hclean hlength htemp
  have hunlink : m.handle place (.unlinkEntry name) = (.ok (), unlinked place name w.next) :=
    handle_unlink (by rw [hat, if_neg hkeyne, if_pos rfl]) (by rw [hnew]; rfl)
  have hdirectory : place.directory = w.directory := by rw [← hplace]; rfl
  have hnext : place.next = w.next + 1 := by rw [← hplace]; rfl
  refine along_sys_bind hunlink (Or.inr hhalf) ⟨rfl, ?_⟩
  have hfacts := created_facts (v := unlinked place name w.next) (s := s) h hclean hlength
    hdirectory hnext (fun other => ?_) ?_ fun k hk => ?_
  · exact ⟨hfacts.1, hfacts.2.1, hdirectory, hfacts.2.2⟩
  · rw [unlinked, Place.at_remove, Place.at_change, hat]
    by_cases hother : other = name
    · subst hother
      rw [if_pos rfl, if_neg hkeyne, hfree]
    · rw [if_neg hother, if_neg hother]
  · rw [unlinked, Place.files_remove, Place.files_change_self, hnew]
    rfl
  · rw [unlinked, Place.files_remove, Place.files_change_ne hk, hold k hk]

section Publishing

variable {publicHalf : Bytes}

theorem SameKey.adopts (h : SameKey w v) : keyAdopts s v = keyAdopts s w := by
  rw [keyAdopts, keyAdopts, h.name]
  cases hn : w.at_ keyName with
  | none => rfl
  | some n => simp only [h.file n hn]

theorem published_facts (h : InOrder m b seed w) (hclean : Clean w)
    (hdirectory : v.directory = w.directory) (hnext : v.next = w.next + 1)
    (hat : ∀ other, v.at_ other = if other = pubName then some w.next else w.at_ other)
    (hnew : v.files w.next = madeFile s pubMode (publicText publicHalf))
    (hkey : ∀ k, w.at_ keyName = some k → v.files k = w.files k) :
    InOrder m b seed v ∧ Clean v ∧ SameKey w v ∧ currentPublic v s publicHalf = true := by
  have hlt : ∀ {other k}, w.at_ other = some k → k ≠ w.next := fun hk =>
    Nat.ne_of_lt (h.fresh _ _ hk)
  have hkeyat : v.at_ keyName = w.at_ keyName := by rw [hat, if_neg (by decide)]
  have hcase : ∀ {other k}, v.at_ other = some k →
      (other = pubName ∧ k = w.next) ∨ w.at_ other = some k := by
    intro other k hk
    rw [hat] at hk
    split_ifs at hk with heq
    · exact Or.inl ⟨heq, (Option.some.inj hk).symm⟩
    · exact Or.inr hk
  have hclean' : Clean v := by
    intro other k hk
    rcases hcase hk with ⟨heq, _⟩ | hk
    · exact Or.inr heq
    · exact hclean other k hk
  refine ⟨⟨?_, fun other k hk => ?_, fun k hk => ?_, fun k other hk hother => ?_,
    fun other k hk => ?_, fun ⟨k, hk, _, hne⟩ => ?_⟩, hclean', ⟨hkeyat, hkey⟩, ?_⟩
  · rw [hdirectory]
    exact h.directory
  · exact (hclean' other k hk).imp_right Or.inl
  · rw [hkeyat] at hk
    rw [KeyPasses, hkey k hk]
    exact h.key k hk
  · rw [hkeyat] at hk
    rcases hcase hother with ⟨_, rfl⟩ | hother
    · exact absurd rfl (hlt hk)
    · exact h.alone k other hk hother
  · rw [hnext]
    rcases hcase hk with ⟨_, rfl⟩ | hk
    · exact Nat.lt_succ_self _
    · exact Nat.lt_succ_of_lt (h.fresh other k hk)
  · rw [hat, if_pos rfl, Option.some.injEq] at hk
    rw [← hk, hnew] at hne
    exact absurd rfl hne
  · have hpubat : v.at_ pubName = some w.next := by rw [hat, if_pos rfl]
    simp only [currentPublic, hpubat, hnew, madeFile]
    simp

theorem along_writePublic (h : InOrder m b seed w) (hclean : Clean w)
    (hpub : ∀ n, w.at_ pubName = some n → (w.files n).kind ≠ .directory) :
    (writePublic s publicHalf).Along m.handle (Within m b seed)
      (fun r v => r = .ok () ∧ InOrder m b seed v ∧ Clean v ∧ v.directory = w.directory ∧
        SameKey w v ∧ currentPublic v s publicHalf = true) w := by
  have htemp := isTempName_hex (m := m) (Or.inr rfl) w.draws
  obtain ⟨hkeyne, hpubne⟩ := isTempName_ne htemp
  generalize hname : pubTempPrefix ++ m.hex w.draws 8 = name at htemp hkeyne hpubne
  have hdrawn : InOrder m b seed w.draw := h.draw
  have hfree : w.at_ name = none := free_of_clean hclean htemp
  have hlt : ∀ {other k}, w.at_ other = some k → k ≠ w.next := fun hk =>
    Nat.ne_of_lt (h.fresh _ _ hk)
  refine along_sys_bind (a := m.hex w.draws 8) (v := w.draw) rfl (h.within _) ?_
  rw [hname]
  refine Along.bind (along_writeNewFile htemp hdrawn hfree pubMode (publicText publicHalf))
    (fun _ v hpost => ?_) fun e v hpost => ?_
  swap
  · cases hpost.1
  obtain ⟨-, rfl⟩ := hpost
  let g := madeFile s pubMode (publicText publicHalf)
  have hmade : InOrder m b seed (w.draw.create name g) := hdrawn.create htemp hfree rfl
  have hnameat : (w.draw.create name g).at_ name = some w.next := by
    rw [Place.at_create, if_pos rfl]
    rfl
  have hpubat : (w.draw.create name g).at_ pubName = w.at_ pubName := by
    rw [Place.at_create, if_neg hpubne.symm]
    rfl
  have hat : ∀ {place : Place}, (∀ other, place.at_ other = (w.draw.create name g).at_ other) →
      ∀ other, ((place.remove name).name w.next pubName).at_ other =
        if other = pubName then some w.next else w.at_ other := by
    intro place hplace other
    rw [Place.at_name, Place.at_remove, hplace, Place.at_create]
    by_cases hother : other = name
    · subst hother
      rw [if_pos rfl, if_neg hpubne, if_neg hpubne, hfree]
    · rw [if_neg hother, if_neg hother]
      rfl
  have hcreated : ∀ {k}, k ≠ w.next → (w.draw.create name g).files k = w.files k := fun hk =>
    Function.update_of_ne hk _ _
  refine along_ask_bind (hmade.within _) ?_
  cases hold : w.at_ pubName with
  | none =>
    have hrename : m.handle (w.draw.create name g) (.renameEntry name pubName) =
        (.ok (), ((w.draw.create name g).remove name).name w.next pubName) := by
      simp only [Machine.handle, hnameat, hpubat, hold]
    rw [hrename]
    have hfacts : _ ∧ _ ∧ _ ∧ currentPublic _ s publicHalf = true := published_facts h hclean
      (v := ((w.draw.create name g).remove name).name w.next pubName) rfl rfl
      (hat fun _ => rfl) (Function.update_self _ _ _) fun k hk => hcreated (hlt hk)
    exact ⟨rfl, hfacts.1, hfacts.2.1, rfl, hfacts.2.2⟩
  | some old =>
    let fewer : File → File := fun f => { f with nlink := f.nlink - 1 }
    have hne : old ≠ w.next := hlt hold
    have hkind : ((w.draw.create name g).files old).kind ≠ .directory := by
      rw [hcreated hne]
      exact hpub old hold
    have hrename : m.handle (w.draw.create name g) (.renameEntry name pubName) = (.ok (),
        (((w.draw.create name g).change old fewer).remove name).name w.next pubName) := by
      simp only [Machine.handle, hnameat, hpubat, hold, if_neg hne, if_neg hkind]
      rfl
    rw [hrename]
    have hkey : ∀ k, w.at_ keyName = some k →
        ((w.draw.create name g).change old fewer).files k = w.files k := by
      intro k hk
      have hold' : k ≠ old := by
        rintro rfl
        exact absurd (h.alone k pubName hk hold) (by decide)
      rw [Place.files_change_ne hold', hcreated (hlt hk)]
    have hnew : ((w.draw.create name g).change old fewer).files w.next = g := by
      rw [Place.files_change_ne hne.symm]
      exact Function.update_self _ _ _
    have hfacts : _ ∧ _ ∧ _ ∧ currentPublic _ s publicHalf = true := published_facts h hclean
      (v := (((w.draw.create name g).change old fewer).remove name).name w.next pubName) rfl rfl
      (hat fun _ => rfl) hnew hkey
    exact ⟨rfl, hfacts.1, hfacts.2.1, rfl, hfacts.2.2⟩

theorem length_toLittle (length n : Nat) : (toLittle length n).length = length := by
  induction length generalizing n with
  | zero => rfl
  | succ length ih => rw [toLittle, List.length_cons, ih]

theorem length_derivePublic : (derivePublic sha512 seed).length = 32 := length_toLittle _ _

/-- Everything is as the module wants it. -/
structure SoleSettled (m : Machine) (b : Prop) (sha512 : Bytes → Bytes) (s : Settings) (seed : Bytes)
    (w : Place) : Prop where
  order : InOrder m b seed w
  clean : Clean w
  directory : directoryAdopts s w = false
  key : KeyDone s w
  pub : currentPublic w s (derivePublic sha512 seed) = true

/-- The place before the public file is looked at: the rest is as wanted. -/
structure Keyed (m : Machine) (b : Prop) (s : Settings) (seed : Bytes) (w : Place) : Prop where
  order : InOrder m b seed w
  clean : Clean w
  directory : directoryAdopts s w = false
  key : KeyDone s w

theorem directoryAdopts_congr (h : v.directory = w.directory) :
    directoryAdopts s v = directoryAdopts s w := by
  rw [directoryAdopts, directoryAdopts, h]

/-- A run comes to its end, or to a public name it cannot use. -/
inductive Comes (m : Machine) (b : Prop) (sha512 : Bytes → Bytes) (s : Settings) (seed : Bytes)
    (w : Place) (result : Result) : Except KeyError Result → Place → Prop
  | settled {v : Place} (hfree : ¬ Blocked w m) (h : SoleSettled m b sha512 s seed v) :
      Comes m b sha512 s seed w result (.ok { result with
        publicKey := some (b64encode (derivePublic sha512 seed))
        publicChanged := result.publicChanged || !currentPublic w s (derivePublic sha512 seed) }) v
  | blocked {v : Place} {code : Code} {path : Str} (hblocked : Blocked w m)
      (h : Keyed m b s seed v) : Comes m b sha512 s seed w result (.error (.refusal code path)) v

theorem along_publish (h : Keyed m b s seed w) (result : Result) :
    (publish s false (derivePublic sha512 seed) result).Along m.handle (Within m b seed)
      (Comes m b sha512 s seed w result) w := by
  refine Along.bind ((along_publicIsCurrent length_derivePublic).mono (quiet_within h.order)
    fun _ _ hpost => hpost) (fun current v hpost => ?_) fun e v hpost => ?_
  swap
  · obtain ⟨rfl, ⟨hblocked, code, path, he⟩ | ⟨_, he⟩⟩ := hpost
    · obtain rfl := Except.error.inj he
      exact .blocked hblocked h
    · cases he
  obtain ⟨rfl, ⟨_, _, _, he⟩ | ⟨hfree, he⟩⟩ := hpost
  · cases he
  obtain rfl := Except.ok.inj he
  have hpub : ∀ n, v.at_ pubName = some n → (v.files n).kind ≠ .directory := by
    intro n hn hkind
    refine hfree ⟨n, hn, ?_, by simp [hkind]⟩
    rw [Machine.openFile, hkind]
    rfl
  have hlast : ∀ (result : Result) {u : Place}, SoleSettled m b sha512 s seed u → ∀ changed, (do
        onlyIf (!false && changed) (sys .syncDirectory)
        pure result : KeyProg Result).Along m.handle (Within m b seed)
          (fun r u' => r = .ok result ∧ SoleSettled m b sha512 s seed u') u := by
    intro result u hu changed
    cases changed with
    | false => exact ⟨rfl, hu⟩
    | true =>
      exact along_sys_bind (v := u) rfl (hu.order.within _) ⟨rfl, hu⟩
  cases hcurrent : currentPublic v s (derivePublic sha512 seed) with
  | true =>
    refine (hlast _ ⟨h.order, h.clean, h.directory, h.key, hcurrent⟩ _).weaken fun r u hpost => ?_
    obtain ⟨rfl, hu⟩ := hpost
    have hcomes : Comes m b sha512 s seed _ result _ _ := .settled hfree hu
    rwa [hcurrent] at hcomes
  | false =>
    refine Along.bind (along_writePublic h.order h.clean hpub) (fun _ u hpost => ?_)
      fun e u hpost => ?_
    · obtain ⟨-, horder, hclean, hdirectory, hkey, hpublic⟩ := hpost
      have hu : SoleSettled m b sha512 s seed u := ⟨horder, hclean,
        (directoryAdopts_congr hdirectory).trans h.directory,
        ⟨h.key.there.imp fun n hn => hkey.name.trans hn, hkey.adopts.trans h.key.adopts⟩, hpublic⟩
      refine (hlast _ hu _).weaken fun r u hpost => ?_
      obtain ⟨rfl, hu⟩ := hpost
      have hcomes : Comes m b sha512 s seed _ result _ _ := .settled hfree hu
      rwa [hcurrent] at hcomes
    · cases hpost.1

end Publishing

/-- What the run reports of the key and the directory. -/
def report (s : Settings) (w : Place) (made : Bool) : Result where
  created := (w.at_ keyName).isNone
  adopted := directoryAdopts s w || keyAdopts s w
  publicChanged := false
  tempCleaned := (leftovers w).length
  directoryCreated := made
  publicKey := none

theorem along_adoptKey {n : Nat} (h : Tidied m b seed s w v) (hn : v.at_ keyName = some n)
    (result : Result) :
    (adoptKey s false n ⟨derivePublic sha512 seed, (v.files n).uid, (v.files n).gid,
        (v.files n).mode⟩ result).Along m.handle (Within m b seed)
      (Comes m b sha512 s seed w { result with adopted := result.adopted || keyAdopts s w }) v := by
  have hadopts : keyAdopts s v = decide ((v.files n).uid ≠ s.uid ∨ (v.files n).gid ≠ s.gid ∨
      (v.files n).mode ≠ keyMode) := by
    simp only [keyAdopts, hn]
  have hend : ∀ {u : Place}, Keyed m b s seed u → SamePublic v u →
      (publish s false (derivePublic sha512 seed)
        { result with adopted := result.adopted || keyAdopts s v }).Along m.handle (Within m b seed)
        (Comes m b sha512 s seed w { result with adopted := result.adopted || keyAdopts s w }) u := by
    intro u hu hpub
    rw [h.key.adopts]
    refine (along_publish hu _).weaken fun r place hpost => ?_
    have hsame := h.pub.trans hpub
    cases hpost with
    | settled hfree hsettled =>
      rw [hsame.current]
      exact .settled (fun hblocked => hfree (hsame.blocked.mpr hblocked)) hsettled
    | blocked hblocked hkeyed => exact .blocked (hsame.blocked.mp hblocked) hkeyed
  have hclose : ∀ r u, Comes m b sha512 s seed w
      { result with adopted := result.adopted || keyAdopts s w } r u →
      (sys (.closeFile n)).Along m.handle (Within m b seed) (fun r' u' => r' = .ok () ∧
        Comes m b sha512 s seed w { result with adopted := result.adopted || keyAdopts s w } r u')
        u := by
    intro r u hpost
    have horder : InOrder m b seed u := by
      cases hpost with
      | settled _ hsettled => exact hsettled.order
      | blocked _ hkeyed => exact hkeyed.order
    exact along_sys (v := u) rfl (horder.within _) ⟨rfl, hpost⟩
  refine Along.finally_ ?_ hclose
  by_cases hadopt : (v.files n).uid ≠ s.uid ∨ (v.files n).gid ≠ s.gid ∨ (v.files n).mode ≠ keyMode
  · obtain ⟨hkey, hlink⟩ := h.order.key n hn
    have hpubne : v.at_ pubName ≠ some n := fun hpub =>
      absurd (h.order.alone n pubName hn hpub) (by decide)
    let owned : File → File := fun f => { f with uid := s.uid, gid := s.gid }
    let narrowed : File → File := fun f => { f with mode := keyMode }
    have hchown : InOrder m b seed (v.change n owned) :=
      h.order.change rfl fun _ => ⟨⟨hkey.kind, hkey.content, hkey.length, hkey.narrow⟩, hlink⟩
    have hchmod : InOrder m b seed ((v.change n owned).change n narrowed) := by
      refine hchown.change rfl fun _ => ?_
      rw [Place.files_change_self]
      exact ⟨⟨hkey.kind, hkey.content, hkey.length, keyMode_narrow⟩, hlink⟩
    have hpub : SamePublic v ((v.change n owned).change n narrowed) := by
      refine ⟨rfl, fun k hk => ?_⟩
      have hne : k ≠ n := fun heq => hpubne (heq ▸ hk)
      rw [Place.files_change_ne hne, Place.files_change_ne hne]
      exact Alike.rfl
    have hkeyed : Keyed m b s seed ((v.change n owned).change n narrowed) := by
      refine ⟨hchmod, h.clean, h.directory, ⟨n, hn⟩, ?_⟩
      simp only [keyAdopts, Place.at_change, hn, Place.files_change_self]
      simp [owned, narrowed]
    rw [hadopts, decide_eq_true hadopt] at hend
    simp only [hadopt, decide_true, Bool.not_false, Bool.and_true, onlyIf, if_true]
    refine Along.bind (Q := fun r u => r = .ok () ∧ u = (v.change n owned).change n narrowed) ?_
      (fun _ u hpost => ?_) fun e u hpost => ?_
    · exact along_sys_bind (v := v.change n owned) rfl (h.order.within _)
        (along_sys (v := (v.change n owned).change n narrowed) rfl (hchown.within _) ⟨rfl, rfl⟩)
    · obtain ⟨-, rfl⟩ := hpost
      exact hend hkeyed hpub
    · cases hpost.1
  · have hkeyed : Keyed m b s seed v := by
      refine ⟨h.order, h.clean, h.directory, ⟨n, hn⟩, ?_⟩
      rw [hadopts, decide_eq_false hadopt]
    rw [hadopts, decide_eq_false hadopt] at hend
    simp only [hadopt, decide_false, Bool.false_and, onlyIf]
    exact hend hkeyed SamePublic.refl

theorem along_makeKey (h : Tidied m b seed s w v) (habsent : w.at_ keyName = none)
    (hseed : seed = m.bytes w.draws seedBytes) (result : Result) :
    (makeKey sha512 s false result).Along m.handle (Within m b seed)
      (Comes m b sha512 s seed w { result with created := true }) v := by
  have habsent' : v.at_ keyName = none := h.key.name.trans habsent
  refine Along.bind (along_createKey h.order h.clean habsent' (by rw [h.draws, hseed]))
    (fun made u hpost => ?_) fun e u hpost => ?_
  · obtain ⟨hmade, horder, hclean, hdirectory, hpub, hkey⟩ := hpost
    obtain rfl := Except.ok.inj hmade
    have hsame := h.pub.trans hpub
    have hkeyed : Keyed m b s seed u :=
      ⟨horder, hclean, (directoryAdopts_congr hdirectory).trans h.directory, hkey⟩
    refine (along_publish hkeyed _).weaken fun r place hpost => ?_
    cases hpost with
    | settled hfree hsettled =>
      rw [hsame.current]
      exact .settled (fun hblocked => hfree (hsame.blocked.mpr hblocked)) hsettled
    | blocked hblocked hkeyed => exact .blocked (hsame.blocked.mp hblocked) hkeyed
  · cases hpost.1

def Leaves (m : Machine) (seed : Bytes) (w : Place) : Prop :=
  w.at_ keyName = none → seed = m.bytes w.draws seedBytes

theorem along_convergeInDirectory (h : InOrder m b seed w) (hseed : Leaves m seed w) (made : Bool) :
    (convergeInDirectory sha512 s false { Result.new with directoryCreated := made }).Along
      m.handle (Within m b seed) (Comes m b sha512 s seed w (report s w made)) w := by
  refine Along.bind (along_listDirectory.mono (quiet_within h) fun _ _ hpost => hpost)
    (fun temps v hpost => ?_) fun e v hpost => ?_
  swap
  · rcases hpost with ⟨_, _, he⟩ | ⟨hnot, _⟩
    · cases he
    · exact absurd h.names hnot
  rcases hpost with ⟨-, rfl, he⟩ | ⟨hnot, _⟩
  swap
  · exact absurd h.names hnot
  obtain rfl := Except.ok.inj he
  refine Along.bind (along_inspectKey.mono (quiet_within h) fun _ _ hpost => hpost)
    (fun found u hpost => ?_) fun e u hpost => ?_
  · obtain ⟨rfl, hinspects⟩ := hpost
    cases hinspects with
    | absent habsent =>
      refine Along.bind (along_tidy h _) (fun result place hpost => ?_) fun e place hpost => ?_
      · obtain ⟨hresult, htidied⟩ := hpost
        obtain rfl := Except.ok.inj hresult
        have hreport : report s u made = { tidyResult s u
            { Result.new with directoryCreated := made } with created := true } := by
          simp [report, tidyResult, Result.new, habsent, keyAdopts]
        rw [hreport]
        exact along_makeKey htidied habsent (hseed habsent) _
      · cases hpost.1
    | passes hkey hpasses =>
      rename_i n seed'
      have hsame : seed' = seed := by
        have hcontent := hpasses.1.content
        rw [(h.key n hkey).1.content] at hcontent
        have := congrArg b64decode hcontent
        rw [b64decode_b64encode, b64decode_b64encode] at this
        exact (Option.some.inj this).symm
      subst hsame
      refine Along.bind (Q := fun r v => r = .ok (tidyResult s u
        { Result.new with directoryCreated := made }) ∧ Tidied m b seed' s u v) ?_
        (fun result place hpost => ?_) fun e place hpost => ?_
      · refine Along.catchWith (along_tidy h _) (fun result place hpost => hpost)
          fun e place hpost => ?_
        cases hpost.1
      · obtain ⟨hresult, htidied⟩ := hpost
        obtain rfl := Except.ok.inj hresult
        have hn := htidied.key.name.trans hkey
        have hreport : report s u made = { tidyResult s u
            { Result.new with directoryCreated := made } with
              adopted := (tidyResult s u { Result.new with directoryCreated := made }).adopted ||
                keyAdopts s u } := by
          simp [report, tidyResult, Result.new, hkey]
        rw [hreport, ← htidied.key.file n hkey]
        exact along_adoptKey htidied hn _
      · cases hpost.1
  · obtain ⟨rfl, hinspects⟩ := hpost
    cases hinspects with
    | refused hkey hnot => exact absurd ⟨seed, h.key _ hkey⟩ hnot

end Run

end SharedInfra.ChannelKey
