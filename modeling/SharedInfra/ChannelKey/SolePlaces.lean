import SharedInfra.ChannelKey.SoleReading

/-!
# The places a run goes through

`InOrder` is a directory the module takes up again, and what each change of a run
does to it.  `HalfLinked` is the one place of a run that is none: the key has its
name, and still the temporary one.
-/

namespace SharedInfra.ChannelKey

open Python Effects Prog

theorem isTempName_keyName : isTempName keyName = false := by decide

theorem isTempName_pubName : isTempName pubName = false := by decide

theorem isTempName_ne {name : Str} (h : isTempName name = true) :
    name ≠ keyName ∧ name ≠ pubName := by
  refine ⟨?_, ?_⟩ <;> rintro rfl
  · rw [isTempName_keyName] at h
    cases h
  · rw [isTempName_pubName] at h
    cases h

theorem isTempName_draw {stem hex : Str} (hstem : stem = keyTempPrefix ∨ stem = pubTempPrefix)
    (hlength : hex.length = 16) (hhex : hex.all isHexDigit = true) :
    isTempName (stem ++ hex) = true := by
  have hsame : keyTempPrefix.length = pubTempPrefix.length := by decide
  have hstart : ∀ stem : Str, startsWith (stem ++ hex) stem = true := fun stem =>
    List.isPrefixOf_iff_prefix.mpr (List.prefix_append stem hex)
  rcases hstem with rfl | rfl
  · simp [isTempName, hstart, hlength, hhex]
  · simp [isTempName, hstart, hlength, hhex, hsame]

namespace Place

variable {w : Place} {name other : Str} {n k : Nat} {f : File → File} {g : File}

@[simp] theorem at_change : (w.change n f).at_ name = w.at_ name := rfl

@[simp] theorem at_changeDirectory {f : Info → Info} :
    (w.changeDirectory f).at_ name = w.at_ name := rfl

@[simp] theorem at_draw : w.draw.at_ name = w.at_ name := rfl

theorem at_remove : (w.remove other).at_ name = if name = other then none else w.at_ name := by
  split_ifs with h
  · rw [h]
    exact AList.lookup_erase _ _
  · exact AList.lookup_erase_ne h

theorem at_name : (w.name n other).at_ name = if name = other then some n else w.at_ name := by
  split_ifs with h
  · rw [h]
    exact AList.lookup_insert _
  · exact AList.lookup_insert_ne h

theorem at_create : (w.create other g).at_ name = if name = other then some w.next else w.at_ name := by
  split_ifs with h
  · rw [h]
    exact AList.lookup_insert _
  · exact AList.lookup_insert_ne h

@[simp] theorem files_remove : (w.remove name).files = w.files := rfl

@[simp] theorem files_name : (w.name n name).files = w.files := rfl

@[simp] theorem files_change_self : (w.change n f).files n = f (w.files n) :=
  Function.update_self _ _ _

theorem files_change_ne (h : k ≠ n) : (w.change n f).files k = w.files k :=
  Function.update_of_ne h _ _

@[simp] theorem files_create_self : (w.create name g).files w.next = g :=
  Function.update_self _ _ _

theorem files_create_ne (h : k ≠ w.next) : (w.create name g).files k = w.files k :=
  Function.update_of_ne h _ _

theorem change_create : (w.create name g).change w.next f = w.create name (f g) := by
  simp only [change, create, Function.update_self, Function.update_idem]

end Place

section Orders

/-- A directory that a run takes up: the module's own names, and the key of this seed or none.
Where `b` fails, the public name is not blocked either. -/
structure InOrder (m : Machine) (b : Prop) (seed : Bytes) (w : Place) : Prop where
  directory : ∃ info, w.directory = some info ∧ info.kind = .directory
  names : ∀ name n, w.at_ name = some n → OwnName w name
  key : ∀ n, w.at_ keyName = some n → KeyPasses w n seed
  alone : ∀ n name, w.at_ keyName = some n → w.at_ name = some n → name = keyName
  fresh : ∀ name n, w.at_ name = some n → n < w.next
  pub : Blocked w m → b

/-- The key is published and its temporary name not yet taken away. -/
structure HalfLinked (m : Machine) (b : Prop) (seed : Bytes) (w : Place) : Prop where
  directory : ∃ info, w.directory = some info ∧ info.kind = .directory
  names : ∀ name n, w.at_ name = some n → OwnName w name
  key : ∃ n, w.at_ keyName = some n ∧ IsKey (w.files n) seed ∧ (w.files n).nlink = 2
  pub : Blocked w m → b

/-- The places between two operations of a run. -/
def Midway (m : Machine) (b : Prop) (seed : Bytes) (w : Place) : Prop :=
  InOrder m b seed w ∨ HalfLinked m b seed w

/-- The files are alike but for the number of their links. -/
structure Alike (f g : File) : Prop where
  kind : g.kind = f.kind
  content : g.content = f.content
  uid : g.uid = f.uid
  gid : g.gid = f.gid
  mode : g.mode = f.mode

theorem Alike.rfl {f : File} : Alike f f := ⟨Eq.refl _, Eq.refl _, Eq.refl _, Eq.refl _, Eq.refl _⟩

structure SamePublic (w v : Place) : Prop where
  name : v.at_ pubName = w.at_ pubName
  file : ∀ n, w.at_ pubName = some n → Alike (w.files n) (v.files n)

structure SameKey (w v : Place) : Prop where
  name : v.at_ keyName = w.at_ keyName
  file : ∀ n, w.at_ keyName = some n → v.files n = w.files n

variable {m : Machine} {b : Prop} {seed : Bytes} {w v u : Place} {s : Settings}

theorem SamePublic.refl : SamePublic w w := ⟨rfl, fun _ _ => Alike.rfl⟩

theorem SamePublic.trans (h : SamePublic w v) (h' : SamePublic v u) : SamePublic w u where
  name := h'.name.trans h.name
  file n hn :=
    have first := h.file n hn
    have second := h'.file n (h.name.trans hn)
    ⟨second.kind.trans first.kind, second.content.trans first.content,
      second.uid.trans first.uid, second.gid.trans first.gid, second.mode.trans first.mode⟩

theorem SameKey.refl : SameKey w w := ⟨rfl, fun _ _ => rfl⟩

theorem SameKey.trans (h : SameKey w v) (h' : SameKey v u) : SameKey w u where
  name := h'.name.trans h.name
  file n hn := (h'.file n (h.name.trans hn)).trans (h.file n hn)

theorem SamePublic.current (h : SamePublic w v) (publicHalf : Bytes) :
    currentPublic v s publicHalf = currentPublic w s publicHalf := by
  rw [currentPublic, currentPublic, h.name]
  cases hn : w.at_ pubName with
  | none => rfl
  | some n =>
    obtain ⟨hkind, hcontent, huid, hgid, hmode⟩ := h.file n hn
    simp only [hkind, hcontent, huid, hgid, hmode]

theorem openFile_congr {n : Nat} (h : (v.files n).kind = (w.files n).kind) :
    m.openFile v n = m.openFile w n := by
  rw [Machine.openFile, Machine.openFile, h]

theorem blocked_congr (hname : v.at_ pubName = w.at_ pubName)
    (hkind : ∀ n, w.at_ pubName = some n → (v.files n).kind = (w.files n).kind) :
    Blocked v m ↔ Blocked w m := by
  rw [Blocked, Blocked, hname]
  refine exists_congr fun n => and_congr_right fun hn => ?_
  rw [openFile_congr (hkind n hn), hkind n hn]

theorem SamePublic.blocked (h : SamePublic w v) : Blocked v m ↔ Blocked w m :=
  blocked_congr h.name fun n hn => (h.file n hn).kind

end Orders

section Changes

variable {m : Machine} {b : Prop} {seed : Bytes} {w v : Place} {name : Str} {n : Nat}
  {f : File → File}

theorem InOrder.own (h : InOrder m b seed w) {k : Nat} (hk : w.at_ name = some k)
    (hkey : name ≠ keyName) (hpub : name ≠ pubName) :
    isTempName name = true ∧ (w.files k).kind = .regular :=
  match h.names name k hk with
  | Or.inl h => absurd h hkey
  | Or.inr (Or.inl h) => absurd h hpub
  | Or.inr (Or.inr h) => ⟨h.1, h.2 k hk⟩

theorem InOrder.changeDirectory (h : InOrder m b seed w) {f : Info → Info}
    (hf : ∀ info, (f info).kind = info.kind) : InOrder m b seed (w.changeDirectory f) where
  directory := by
    obtain ⟨info, hinfo, hkind⟩ := h.directory
    exact ⟨f info, by rw [Place.changeDirectory, hinfo]; rfl, (hf info).trans hkind⟩
  names := h.names
  key := h.key
  alone := h.alone
  fresh := h.fresh
  pub := h.pub

theorem InOrder.draw (h : InOrder m b seed w) : InOrder m b seed w.draw :=
  ⟨h.directory, h.names, h.key, h.alone, h.fresh, h.pub⟩

theorem InOrder.change (h : InOrder m b seed w) (hkind : (f (w.files n)).kind = (w.files n).kind)
    (hkey : w.at_ keyName = some n → IsKey (f (w.files n)) seed ∧ (f (w.files n)).nlink = 1) :
    InOrder m b seed (w.change n f) where
  directory := h.directory
  names name k hk := by
    rcases h.names name k hk with hname | hname | ⟨htemp, hregular⟩
    · exact Or.inl hname
    · exact Or.inr (Or.inl hname)
    · refine Or.inr (Or.inr ⟨htemp, fun k' hk' => ?_⟩)
      by_cases heq : k' = n
      · subst heq
        rw [Place.files_change_self, hkind]
        exact hregular k' hk'
      · rw [Place.files_change_ne heq]
        exact hregular k' hk'
  key k hk := by
    by_cases heq : k = n
    · subst heq
      rw [KeyPasses, Place.files_change_self]
      exact hkey hk
    · rw [KeyPasses, Place.files_change_ne heq]
      exact h.key k hk
  alone := h.alone
  fresh := h.fresh
  pub hblocked := by
    refine h.pub ((blocked_congr (w := w) (v := w.change n f) rfl fun k _ => ?_).mp hblocked)
    by_cases heq : k = n
    · subst heq
      rw [Place.files_change_self, hkind]
    · rw [Place.files_change_ne heq]

theorem InOrder.remove (h : InOrder m b seed w) : InOrder m b seed (w.remove name) := by
  have hat : ∀ {other k}, (w.remove name).at_ other = some k → w.at_ other = some k := by
    intro other k hk
    rw [Place.at_remove] at hk
    split_ifs at hk
    exact hk
  refine ⟨h.directory, fun other k hk => ?_, fun k hk => h.key k (hat hk),
    fun k other hk hother => h.alone k other (hat hk) (hat hother),
    fun other k hk => h.fresh other k (hat hk),
    fun ⟨k, hk, hblocked⟩ => h.pub ⟨k, hat hk, hblocked⟩⟩
  rcases h.names other k (hat hk) with hother | hother | ⟨htemp, hregular⟩
  · exact Or.inl hother
  · exact Or.inr (Or.inl hother)
  · exact Or.inr (Or.inr ⟨htemp, fun k' hk' => hregular k' (hat hk')⟩)

theorem InOrder.create (h : InOrder m b seed w) (htemp : isTempName name = true)
    (hfree : w.at_ name = none) {g : File} (hkind : g.kind = .regular) :
    InOrder m b seed (w.create name g) := by
  have hkeyname : keyName ≠ name := (isTempName_ne htemp).1.symm
  have hold : ∀ {other k}, w.at_ other = some k → k ≠ w.next := fun hk =>
    Nat.ne_of_lt (h.fresh _ _ hk)
  have hkeyAt : (w.create name g).at_ keyName = w.at_ keyName := by
    rw [Place.at_create, if_neg hkeyname]
  have hcase : ∀ {other k}, (w.create name g).at_ other = some k →
      (other = name ∧ k = w.next) ∨ (other ≠ name ∧ w.at_ other = some k) := by
    intro other k hk
    rw [Place.at_create] at hk
    split_ifs at hk with heq
    · exact Or.inl ⟨heq, (Option.some.inj hk).symm⟩
    · exact Or.inr ⟨heq, hk⟩
  have hpubname : pubName ≠ name := (isTempName_ne htemp).2.symm
  refine ⟨h.directory, fun other k hk => ?_, fun k hk => ?_, fun k other hk hother => ?_,
    fun other k hk => ?_, fun hblocked => h.pub ((blocked_congr ?_ fun k hk => ?_).mp hblocked)⟩
  · rcases hcase hk with ⟨rfl, rfl⟩ | ⟨hne, hk⟩
    · refine Or.inr (Or.inr ⟨htemp, fun k' hk' => ?_⟩)
      rw [Place.at_create, if_pos rfl] at hk'
      rw [← Option.some.inj hk', Place.files_create_self, hkind]
    · rcases h.names other k hk with hother | hother | ⟨hother, hregular⟩
      · exact Or.inl hother
      · exact Or.inr (Or.inl hother)
      · refine Or.inr (Or.inr ⟨hother, fun k' hk' => ?_⟩)
        rw [Place.at_create, if_neg hne] at hk'
        rw [Place.files_create_ne (hold hk')]
        exact hregular k' hk'
  · rw [hkeyAt] at hk
    rw [KeyPasses, Place.files_create_ne (hold hk)]
    exact h.key k hk
  · rw [hkeyAt] at hk
    rcases hcase hother with ⟨rfl, rfl⟩ | ⟨_, hother⟩
    · exact absurd rfl (hold hk)
    · exact h.alone k other hk hother
  · rcases hcase hk with ⟨_, rfl⟩ | ⟨_, hk⟩
    · exact Nat.lt_succ_self _
    · exact Nat.lt_succ_of_lt (h.fresh other k hk)
  · rw [Place.at_create, if_neg hpubname]
  · rw [Place.files_create_ne (hold hk)]

end Changes

end SharedInfra.ChannelKey
