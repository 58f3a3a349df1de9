import SharedInfra.ChannelKey.SharedDirectory

/-!
# Steps that keep the key

What every operation of every run guarantees of the shared directory (`Step`), and
what no such step undoes: the key a run has seen, the public file that fits it, and
a run's own temporary file.
-/

namespace SharedInfra
namespace ChannelKey

open Python Effects Prog

variable {ι : Type} {sha512 : Bytes → Bytes}

/-- Every name is of a file that was made, and no drawn text came twice. -/
structure WellFormed (w : KeyWorld ι) : Prop where
  entries_lt : ∀ name n, w.entries name = some n → n < w.next
  drawn_nodup : (w.drawn.map Prod.snd).Nodup

/-- What a step may change of a file that counts here. -/
def core (w : KeyWorld ι) (n : Nat) : Kind × Bytes × Option ι :=
  ((w.inodes n).kind, (w.inodes n).content, (w.inodes n).maker)

def KeyIs (w : KeyWorld ι) (seed : Bytes) : Prop :=
  seed.length = 32 ∧ ∃ n, w.entries keyName = some n ∧ (w.inodes n).content = b64encode seed

variable (sha512) in
/-- The public file holds the text of this seed's public half. -/
def PublicIs (w : KeyWorld ι) (seed : Bytes) : Prop :=
  ∃ m, w.entries pubName = some m ∧ (w.inodes m).kind = .regular ∧
    (w.inodes m).content = publicText (derivePublic sha512 seed)

theorem KeyIs.unique {w : KeyWorld ι} {seed seed' : Bytes} (h : KeyIs w seed)
    (h' : KeyIs w seed') : seed' = seed := by
  obtain ⟨_, n, hn, hcontent⟩ := h
  obtain ⟨_, m, hm, hcontent'⟩ := h'
  rw [hn, Option.some.injEq] at hm
  subst hm
  exact b64encode_injective (hcontent'.symm.trans hcontent)

/-- A temporary name from a text that this run drew. -/
def DrawnBy (who : Option ι) (w : KeyWorld ι) (name : Str) : Prop :=
  ∃ i hex, who = some i ∧ (i, hex) ∈ w.drawn ∧
    (name = keyTempPrefix ++ hex ∨ name = pubTempPrefix ++ hex)

theorem tempPrefix_inj {hex hex' : Str}
    (h : keyTempPrefix ++ hex = keyTempPrefix ++ hex' ∨
      keyTempPrefix ++ hex = pubTempPrefix ++ hex' ∨
      pubTempPrefix ++ hex = keyTempPrefix ++ hex' ∨
      pubTempPrefix ++ hex = pubTempPrefix ++ hex') : hex = hex' := by
  have hlength : keyTempPrefix.length = pubTempPrefix.length := by decide
  rcases h with h | h | h | h
  · exact (List.append_inj h rfl).2
  · exact (List.append_inj h hlength).2
  · exact (List.append_inj h hlength.symm).2
  · exact (List.append_inj h rfl).2

theorem DrawnBy.unique {who who' : Option ι} {w : KeyWorld ι} {name : Str} (hw : WellFormed w)
    (h : DrawnBy who w name) (h' : DrawnBy who' w name) : who' = who := by
  obtain ⟨i, hex, rfl, hi, hname⟩ := h
  obtain ⟨j, hex', rfl, hj, hname'⟩ := h'
  have hhex : hex = hex' := by
    apply tempPrefix_inj
    rcases hname with rfl | rfl <;> rcases hname' with h | h <;> simp only [h, true_or, or_true]
  subst hhex
  have hpair : (i, hex) = (j, hex) :=
    List.inj_on_of_nodup_map hw.drawn_nodup hi hj rfl
  rw [Prod.mk.injEq] at hpair
  rw [hpair.1]

theorem DrawnBy.ne_named {who : Option ι} {w : KeyWorld ι} {name : Str} (h : DrawnBy who w name) :
    name ≠ keyName ∧ name ≠ pubName := by
  have hkey : keyName.head? = some 'c' := by decide
  have hpub : pubName.head? = some 'c' := by decide
  have hkeyTemp : keyTempPrefix.head? = some '.' := by decide
  have hpubTemp : pubTempPrefix.head? = some '.' := by decide
  have hname : name.head? = some '.' := by
    obtain ⟨_, hex, _, _, rfl | rfl⟩ := h
    · rw [List.head?_append, hkeyTemp]
      rfl
    · rw [List.head?_append, hpubTemp]
      rfl
  constructor
  · rintro rfl
    rw [hkey] at hname
    cases hname
  · rintro rfl
    rw [hpub] at hname
    cases hname

section Step

variable (sha512) in
/-- What a step of `who` guarantees; `none` stands for a step that touches no file. -/
structure Step (who : Option ι) (w w' : KeyWorld ι) : Prop where
  wf : WellFormed w → WellFormed w'
  next : w.next ≤ w'.next
  drawn : ∀ e ∈ w.drawn, e ∈ w'.drawn
  keyKept : ∀ n, w.entries keyName = some n → w'.entries keyName = some n
  keyNew : ∀ n, w'.entries keyName = some n → w.entries keyName = some n ∨
    ((w'.inodes n).maker = who ∧ ∃ seed, seed.length = 32 ∧ (w'.inodes n).content = b64encode seed)
  publicNew : w'.entries pubName = w.entries pubName ∨
    ((∃ seed, KeyIs w' seed ∧ PublicIs sha512 w' seed) ∧
      ∀ m, w'.entries pubName = some m → (w'.inodes m).maker = who)
  names : ∀ name, name ≠ keyName → name ≠ pubName →
    w'.entries name = w.entries name ∨ w'.entries name = none ∨ DrawnBy who w name
  files : ∀ n, n < w.next → core w' n = core w n ∨
    ((w.inodes n).maker = who ∧ w.entries keyName ≠ some n ∧ w.entries pubName ≠ some n ∧
      (w'.inodes n).kind = (w.inodes n).kind ∧ (w'.inodes n).maker = who)

def Lasting (sha512 : Bytes → Bytes) (fact : KeyWorld ι → Prop) : Prop :=
  ∀ who w w', fact w → Step sha512 who w w' → fact w'

/-- A fact that no step of another run undoes. -/
def Kept (sha512 : Bytes → Bytes) (i : ι) (fact : KeyWorld ι → Prop) : Prop :=
  ∀ who w w', who ≠ some i → fact w → Step sha512 who w w' → fact w'

theorem Lasting.kept {fact : KeyWorld ι → Prop} (h : Lasting sha512 fact) (i : ι) :
    Kept sha512 i fact :=
  fun who w w' _ hw hstep => h who w w' hw hstep

variable {who : Option ι} {w w' : KeyWorld ι}

theorem Step.core_named (h : Step sha512 who w w') (hw : WellFormed w) {n : Nat}
    (hn : w.entries keyName = some n ∨ w.entries pubName = some n) : core w' n = core w n := by
  have hlt : n < w.next := hn.elim (hw.entries_lt _ _) (hw.entries_lt _ _)
  rcases h.files n hlt with h | ⟨_, hkey, hpub, _⟩
  · exact h
  · exact (hn.elim hkey hpub).elim

theorem core_content {n : Nat} (h : core w' n = core w n) :
    (w'.inodes n).content = (w.inodes n).content := by
  simp only [core, Prod.mk.injEq] at h
  exact h.2.1

theorem core_kind {n : Nat} (h : core w' n = core w n) :
    (w'.inodes n).kind = (w.inodes n).kind := by
  simp only [core, Prod.mk.injEq] at h
  exact h.1

theorem core_maker {n : Nat} (h : core w' n = core w n) :
    (w'.inodes n).maker = (w.inodes n).maker := by
  simp only [core, Prod.mk.injEq] at h
  exact h.2.2

theorem lasting_wellFormed : Lasting sha512 (WellFormed (ι := ι)) :=
  fun _ _ _ hw hstep => hstep.wf hw

theorem KeyIs.step {seed : Bytes} (h : KeyIs w seed) (hw : WellFormed w)
    (hstep : Step sha512 who w w') : KeyIs w' seed := by
  obtain ⟨hlength, n, hn, hcontent⟩ := h
  refine ⟨hlength, n, hstep.keyKept n hn, ?_⟩
  rw [core_content (hstep.core_named hw (Or.inl hn)), hcontent]

theorem PublicIs.step {seed : Bytes} (h : PublicIs sha512 w seed) (hkey : KeyIs w seed)
    (hw : WellFormed w) (hstep : Step sha512 who w w') : PublicIs sha512 w' seed := by
  obtain ⟨m, hm, hkind, hcontent⟩ := h
  rcases hstep.publicNew with hsame | ⟨⟨seed', hkey', hpublic⟩, _⟩
  · have hcore := hstep.core_named hw (Or.inr hm)
    exact ⟨m, hsame.trans hm, (core_kind hcore).trans hkind, (core_content hcore).trans hcontent⟩
  · rwa [(hkey.step hw hstep).unique hkey'] at hpublic

def Known (seed : Bytes) (w : KeyWorld ι) : Prop := WellFormed w ∧ KeyIs w seed

variable (sha512) in
/-- A run knows the key and the public file fits it. -/
def Published (seed : Bytes) (w : KeyWorld ι) : Prop :=
  WellFormed w ∧ KeyIs w seed ∧ PublicIs sha512 w seed

theorem lasting_known (seed : Bytes) : Lasting sha512 (Known (ι := ι) seed) :=
  fun _ _ _ ⟨hw, hkey⟩ hstep => ⟨hstep.wf hw, hkey.step hw hstep⟩

theorem lasting_published (seed : Bytes) : Lasting sha512 (Published (ι := ι) sha512 seed) :=
  fun _ _ _ ⟨hw, hkey, hpublic⟩ hstep =>
    ⟨hstep.wf hw, hkey.step hw hstep, hpublic.step hkey hw hstep⟩

end Step

/-- A temporary file that run `i` made and that holds `data` so far; its name may be gone. -/
structure Temporary (i : ι) (name : Str) (n : Nat) (data : Bytes) (w : KeyWorld ι) : Prop where
  wf : WellFormed w
  mine : DrawnBy (some i) w name
  named : w.entries name = some n ∨ w.entries name = none
  lt : n < w.next
  file : core w n = (.regular, data, some i)
  notKey : w.entries keyName ≠ some n
  notPublic : w.entries pubName ≠ some n

theorem DrawnBy.step {who who' : Option ι} {w w' : KeyWorld ι} {name : Str}
    (h : DrawnBy who w name) (hstep : Step sha512 who' w w') : DrawnBy who w' name := by
  obtain ⟨i, hex, hi, hdrawn, hname⟩ := h
  exact ⟨i, hex, hi, hstep.drawn _ hdrawn, hname⟩

theorem kept_temporary (i : ι) (name : Str) (n : Nat) (data : Bytes) :
    Kept sha512 i (Temporary i name n data) := by
  intro who w w' hwho h hstep
  obtain ⟨hwf, hmine, hnamed, hlt, hfile, hnotKey, hnotPublic⟩ := h
  have hmaker : (w.inodes n).maker = some i := by
    simp only [core, Prod.mk.injEq] at hfile
    exact hfile.2.2
  have hcore : core w' n = core w n := by
    rcases hstep.files n hlt with h | ⟨hother, _⟩
    · exact h
    · exact absurd (hother.symm.trans hmaker) hwho
  have hmaker' := (core_maker hcore).trans hmaker
  refine ⟨hstep.wf hwf, hmine.step hstep, ?_, lt_of_lt_of_le hlt hstep.next, hcore.trans hfile,
    fun hkey => ?_, fun hpublic => ?_⟩
  · obtain ⟨hkey, hpublic⟩ := hmine.ne_named
    rcases hstep.names name hkey hpublic with h | h | h
    · rw [h]
      exact hnamed
    · exact Or.inr h
    · exact absurd (hmine.unique hwf h) hwho
  · rcases hstep.keyNew n hkey with h | ⟨h, _⟩
    · exact hnotKey h
    · exact hwho (h.symm.trans hmaker')
  · rcases hstep.publicNew with h | ⟨_, h⟩
    · exact hnotPublic (h ▸ hpublic)
    · exact hwho ((h n hpublic).symm.trans hmaker')

end ChannelKey
end SharedInfra

/-!
# Operations as steps

Each operation of a run is a step (`Step`), from what the run knows when it
performs it.  Most operations touch no name and no content at all (`quiet`); the
others have a lemma each.
-/

namespace SharedInfra
namespace ChannelKey

open Python Effects Prog

variable {ι : Type} {sha512 : Bytes → Bytes} {who : Option ι} {i : ι} {w w' : KeyWorld ι}

/-- Operations of runs that never draw one text twice. -/
def FreshDoes (i : ι) (w : KeyWorld ι) (op : KeyOp) (a : KeyAnswer op) (w' : KeyWorld ι) : Prop :=
  Does i w op a w' ∧ (w'.drawn.map Prod.snd).Nodup

/-- The operations that change no name, content or draw. -/
def KeyOp.quiet : KeyOp → Bool
  | .createEntry _ _ | .writeFile _ _ | .linkEntry _ _ | .unlinkEntry _ | .renameEntry _ _
  | .randomHex _ => false
  | _ => true

/-- Nothing that counts differs. -/
structure SameFiles (w w' : KeyWorld ι) : Prop where
  entries : w'.entries = w.entries
  next : w'.next = w.next
  drawn : w'.drawn = w.drawn
  core : ∀ n, core w' n = core w n

theorem SameFiles.refl (w : KeyWorld ι) : SameFiles w w := ⟨rfl, rfl, rfl, fun _ => rfl⟩

theorem core_change {n : Nat} {f : Inode ι → Inode ι} (m : Nat)
    (hf : ∀ x, (f x).kind = x.kind ∧ (f x).content = x.content ∧ (f x).maker = x.maker) :
    core (w.change n f) m = core w m := by
  by_cases h : m = n
  · subst h
    simp [core, KeyWorld.change, hf]
  · simp [core, KeyWorld.change, h]

theorem sameFiles_change {n : Nat} {f : Inode ι → Inode ι}
    (hf : ∀ x, (f x).kind = x.kind ∧ (f x).content = x.content ∧ (f x).maker = x.maker) :
    SameFiles w (w.change n f) :=
  ⟨rfl, rfl, rfl, fun m => core_change m hf⟩

theorem does_error {op : KeyOp} {e : Errno} (h : Does i w op (.error e) w') : w' = w := by
  cases h
  rfl

theorem sameFiles_of_quiet {op : KeyOp} {a : KeyAnswer op} (hop : op.quiet = true)
    (h : Does i w op a w') : SameFiles w w' := by
  cases h with
  | chownFile => exact sameFiles_change fun _ => ⟨rfl, rfl, rfl⟩
  | chmodFile => exact sameFiles_change fun _ => ⟨rfl, rfl, rfl⟩
  | createEntry | writeFile | linkEntry | unlinkEntry | renamed | replaced | renameSame
  | randomHex => cases hop
  | _ => exact ⟨rfl, rfl, rfl, fun _ => rfl⟩

theorem SameFiles.step (h : SameFiles w w') : Step sha512 who w w' where
  wf hw := ⟨fun name n hn => by rw [h.next]; exact hw.entries_lt name n (h.entries ▸ hn),
    h.drawn ▸ hw.drawn_nodup⟩
  next := h.next.ge
  drawn _ he := h.drawn ▸ he
  keyKept n hn := h.entries ▸ hn
  keyNew n hn := Or.inl (h.entries ▸ hn)
  publicNew := Or.inl (by rw [h.entries])
  names name _ _ := Or.inl (by rw [h.entries])
  files n _ := Or.inl (h.core n)

theorem Step.refl (w : KeyWorld ι) : Step sha512 who w w := (SameFiles.refl w).step

theorem step_randomHex {hex : Str} (hfresh : ((w.drawn ++ [(i, hex)]).map Prod.snd).Nodup) :
    Step sha512 who w { w with drawn := w.drawn ++ [(i, hex)] } where
  wf hw := ⟨hw.entries_lt, hfresh⟩
  next := le_refl _
  drawn _ he := List.mem_append_left _ he
  keyKept _ hn := hn
  keyNew _ hn := Or.inl hn
  publicNew := Or.inl rfl
  names _ _ _ := Or.inl rfl
  files _ _ := Or.inl rfl

theorem core_create {name : Str} {mode n : Nat} (h : n < w.next) :
    core (w.create i name mode) n = core w n := by
  simp [core, KeyWorld.create, Nat.ne_of_lt h]

theorem step_create {name : Str} {mode : Nat} (hw : WellFormed w)
    (hmine : DrawnBy (some i) w name) : Step sha512 (some i) w (w.create i name mode) := by
  obtain ⟨hkey, hpub⟩ := hmine.ne_named
  have hentries : ∀ other, other ≠ name →
      (w.create i name mode).entries other = w.entries other := fun other h => by
    simp [KeyWorld.create, h]
  refine ⟨fun _ => ⟨fun other n hn => ?_, hw.drawn_nodup⟩, Nat.le_succ _, fun e he => he,
    fun n hn => (hentries _ hkey.symm).trans hn, fun n hn => Or.inl ((hentries _ hkey.symm) ▸ hn),
    Or.inl (hentries _ hpub.symm), fun other _ _ => ?_, fun n hn => Or.inl (core_create hn)⟩
  · by_cases h : other = name
    · subst h
      simp only [KeyWorld.create, Function.update_self, Option.some.injEq] at hn ⊢
      omega
    · rw [hentries other h] at hn
      exact Nat.lt_succ_of_lt (hw.entries_lt other n hn)
  · by_cases h : other = name
    · exact Or.inr (Or.inr (h ▸ hmine))
    · exact Or.inl (hentries other h)

theorem temporary_create {name : Str} {mode : Nat} (hw : WellFormed w)
    (hmine : DrawnBy (some i) w name) :
    Temporary i name w.next [] (w.create i name mode) := by
  obtain ⟨hkey, hpub⟩ := hmine.ne_named
  have hstep : Step (fun _ => []) (some i) w (w.create i name mode) := step_create hw hmine
  refine ⟨hstep.wf hw, hmine.step hstep, Or.inl ?_, Nat.lt_succ_self _, ?_, ?_, ?_⟩
  · simp [KeyWorld.create]
  · simp [core, KeyWorld.create]
  · simp only [KeyWorld.create, Function.update_of_ne hkey.symm]
    exact fun h => absurd (hw.entries_lt _ _ h) (Nat.lt_irrefl _)
  · simp only [KeyWorld.create, Function.update_of_ne hpub.symm]
    exact fun h => absurd (hw.entries_lt _ _ h) (Nat.lt_irrefl _)

section Write

variable {name : Str} {n : Nat} {data more : Bytes}

theorem Temporary.inode (h : Temporary i name n data w) :
    (w.inodes n).kind = .regular ∧ (w.inodes n).content = data ∧ (w.inodes n).maker = some i := by
  have := h.file
  simpa only [core, Prod.mk.injEq] using this

theorem step_write (h : Temporary i name n data w) :
    Step sha512 (some i) w (w.change n fun f => { f with content := f.content ++ more }) := by
  refine ⟨fun hw => ⟨hw.entries_lt, hw.drawn_nodup⟩, le_refl _, fun e he => he, fun _ hn => hn,
    fun _ hn => Or.inl hn, Or.inl rfl, fun _ _ _ => Or.inl rfl, fun m _ => ?_⟩
  by_cases hm : m = n
  · subst hm
    refine Or.inr ⟨h.inode.2.2, h.notKey, h.notPublic, ?_, ?_⟩
    · simp [KeyWorld.change]
    · simp [KeyWorld.change, h.inode.2.2]
  · exact Or.inl (by simp [core, KeyWorld.change, hm])

theorem temporary_write (h : Temporary i name n data w) :
    Temporary i name n (data ++ more)
      (w.change n fun f => { f with content := f.content ++ more }) := by
  obtain ⟨hkind, hcontent, hmaker⟩ := h.inode
  exact ⟨⟨h.wf.entries_lt, h.wf.drawn_nodup⟩, h.mine, h.named, h.lt,
    by simp [core, KeyWorld.change, hkind, hcontent, hmaker], h.notKey, h.notPublic⟩

end Write

section Names

variable {name : Str} {n : Nat}

theorem step_remove {f : Inode ι → Inode ι} (hkey : name ≠ keyName) (hpub : name ≠ pubName)
    (hf : ∀ x, (f x).kind = x.kind ∧ (f x).content = x.content ∧ (f x).maker = x.maker) :
    Step sha512 who w ((w.change n f).remove name) := by
  have hentries : ∀ other, other ≠ name →
      ((w.change n f).remove name).entries other = w.entries other := fun other h => by
    simp [KeyWorld.remove, KeyWorld.change, h]
  have hname : ((w.change n f).remove name).entries name = none := by simp [KeyWorld.remove]
  refine ⟨fun hw => ⟨fun other m hm => ?_, hw.drawn_nodup⟩, le_refl _, fun e he => he,
    fun m hm => (hentries _ hkey.symm).trans hm, fun m hm => Or.inl ((hentries _ hkey.symm) ▸ hm),
    Or.inl (hentries _ hpub.symm), fun other _ _ => ?_, fun m _ => Or.inl (core_change m hf)⟩
  · by_cases h : other = name
    · rw [h, hname] at hm
      cases hm
    · rw [hentries other h] at hm
      exact hw.entries_lt other m hm
  · by_cases h : other = name
    · exact Or.inr (Or.inl (h ▸ hname))
    · exact Or.inl (hentries other h)

theorem keyName_ne_pubName : keyName ≠ pubName := by decide

theorem step_link {seed : Bytes} {f : Inode ι → Inode ι} (hseed : seed.length = 32)
    (h : Temporary i name n (b64encode seed) w) (hfree : w.entries keyName = none)
    (hf : ∀ x, (f x).kind = x.kind ∧ (f x).content = x.content ∧ (f x).maker = x.maker) :
    Step sha512 (some i) w ((w.change n f).name n keyName) ∧
      Known seed ((w.change n f).name n keyName) := by
  have hentries : ∀ other, other ≠ keyName →
      ((w.change n f).name n keyName).entries other = w.entries other := fun other hne => by
    simp [KeyWorld.name, KeyWorld.change, hne]
  have hname : ((w.change n f).name n keyName).entries keyName = some n := by
    simp [KeyWorld.name]
  have hcore : ∀ m, core ((w.change n f).name n keyName) m = core w m := fun m => core_change m hf
  have hcontent := (core_content (hcore n)).trans h.inode.2.1
  have hwf : WellFormed w → WellFormed ((w.change n f).name n keyName) := by
    refine fun hw => ⟨fun other m hm => ?_, hw.drawn_nodup⟩
    by_cases hother : other = keyName
    · rw [hother, hname, Option.some.injEq] at hm
      exact hm ▸ h.lt
    · rw [hentries other hother] at hm
      exact hw.entries_lt other m hm
  refine ⟨⟨hwf, le_refl _, fun e he => he, fun m hm => ?_, fun m hm => Or.inr ?_,
    Or.inl (hentries _ keyName_ne_pubName.symm), fun other hother _ => Or.inl (hentries _ hother),
    fun m _ => Or.inl (hcore m)⟩, hwf h.wf, hseed, n, hname, hcontent⟩
  · rw [hfree] at hm
    cases hm
  · rw [hname, Option.some.injEq] at hm
    subst hm
    exact ⟨(core_maker (hcore n)).trans h.inode.2.2, seed, hseed, hcontent⟩

theorem step_rename {seed : Bytes} {v : KeyWorld ι}
    (h : Temporary i name n (publicText (derivePublic sha512 seed)) w) (hkey : KeyIs w seed)
    (hsame : SameFiles w v) :
    Step sha512 (some i) w ((v.remove name).name n pubName) ∧
      Published sha512 seed ((v.remove name).name n pubName) := by
  obtain ⟨hneKey, hnePub⟩ := h.mine.ne_named
  have hentries : ∀ other, other ≠ name → other ≠ pubName →
      ((v.remove name).name n pubName).entries other = w.entries other := fun other h1 h2 => by
    simp [KeyWorld.name, KeyWorld.remove, h1, h2, hsame.entries]
  have hgone : ((v.remove name).name n pubName).entries name = none := by
    simp [KeyWorld.name, KeyWorld.remove, hnePub]
  have hname : ((v.remove name).name n pubName).entries pubName = some n := by
    simp [KeyWorld.name]
  have hcore : ∀ m, core ((v.remove name).name n pubName) m = core w m := hsame.core
  have hkeyKept : ((v.remove name).name n pubName).entries keyName = w.entries keyName :=
    hentries _ hneKey.symm keyName_ne_pubName
  have hkey' : KeyIs ((v.remove name).name n pubName) seed := by
    obtain ⟨hlength, m, hm, hcontent⟩ := hkey
    exact ⟨hlength, m, hkeyKept.trans hm, (core_content (hcore m)).trans hcontent⟩
  have hpublic : PublicIs sha512 ((v.remove name).name n pubName) seed :=
    ⟨n, hname, (core_kind (hcore n)).trans h.inode.1, (core_content (hcore n)).trans h.inode.2.1⟩
  have hwf : WellFormed w → WellFormed ((v.remove name).name n pubName) := by
    refine fun hw => ⟨fun other m hm => ?_, ?_⟩
    · show m < v.next
      rw [hsame.next]
      by_cases hpub : other = pubName
      · rw [hpub, hname, Option.some.injEq] at hm
        exact hm ▸ h.lt
      · by_cases hother : other = name
        · rw [hother, hgone] at hm
          cases hm
        · rw [hentries other hother hpub] at hm
          exact hw.entries_lt other m hm
    · show (v.drawn.map Prod.snd).Nodup
      exact hsame.drawn ▸ hw.drawn_nodup
  refine ⟨⟨hwf, hsame.next.ge, fun e he => hsame.drawn.symm ▸ he, fun m hm => hkeyKept.trans hm,
    fun m hm => Or.inl (hkeyKept ▸ hm), Or.inr ⟨⟨seed, hkey', hpublic⟩, fun m hm => ?_⟩,
    fun other _ hpub => ?_, fun m _ => Or.inl (hcore m)⟩, hwf h.wf, hkey', hpublic⟩
  · rw [hname, Option.some.injEq] at hm
    exact hm ▸ (core_maker (hcore n)).trans h.inode.2.2
  · by_cases hother : other = name
    · exact Or.inr (Or.inl (hother ▸ hgone))
    · exact Or.inl (hentries other hother hpub)

end Names

end ChannelKey
end SharedInfra
