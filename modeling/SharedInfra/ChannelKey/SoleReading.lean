import SharedInfra.ChannelKey.SoleRun

/-!
# What a run learns before it changes anything

The directory's names (`along_listDirectory`), the key (`along_inspectKey`) and the
public file (`along_publicIsCurrent`) are read without a change, and what is read
decides by itself whether the run is refused there.
-/

namespace SharedInfra.ChannelKey

open Python Effects Prog

section State

structure IsKey (f : File) (seed : Bytes) : Prop where
  kind : f.kind = .regular
  content : f.content = b64encode seed
  length : seed.length = seedBytes
  narrow : f.mode &&& 0o077 = 0

variable (w : Place)

/-- A name the module knows: one of the two files, or a leftover that is a regular file. -/
def OwnName (name : Str) : Prop :=
  name = keyName ∨ name = pubName ∨
    (isTempName name = true ∧ ∀ n, w.at_ name = some n → (w.files n).kind = .regular)

def KeyPasses (n : Nat) (seed : Bytes) : Prop := IsKey (w.files n) seed ∧ (w.files n).nlink = 1

/-- What stands at the public name is opened and is no regular file. -/
def Blocked (m : Machine) : Prop :=
  ∃ n, w.at_ pubName = some n ∧ (m.openFile w n).toOption = some n ∧ (w.files n).kind ≠ .regular

/-- The leftover names, in the order a run takes them away. -/
def leftovers : List Str := (sorted w.entries.keys).filter fun name => name ≠ keyName ∧ name ≠ pubName

def currentPublic (s : Settings) (publicHalf : Bytes) : Bool :=
  match w.at_ pubName with
  | none => false
  | some n => decide ((w.files n).kind = .regular ∧ (w.files n).uid = s.uid ∧
      (w.files n).gid = s.gid ∧ (w.files n).mode = pubMode ∧
      (w.files n).content = publicText publicHalf)

/-- An operation that reads, in a place that is still as it was. -/
def Quiet (v : Place) (op : KeyOp) : Prop := v = w ∧ op.writes = false

end State

section Reading

variable {m : Machine} {s : Settings} {sha512 : Bytes → Bytes} {w v : Place} {α : Type}
  {step : Place → KeyOp → Prop} {Q : Except KeyError α → Place → Prop}

theorem mem_keys {name : Str} : name ∈ w.entries.keys ↔ ∃ n, w.at_ name = some n := by
  rw [← AList.mem_keys, ← AList.lookup_isSome, Option.isSome_iff_exists]
  rfl

theorem mem_sorted {names : List Str} {name : Str} : name ∈ sorted names ↔ name ∈ names :=
  List.mem_mergeSort

theorem mem_leftovers {name : Str} : name ∈ leftovers w ↔
    (∃ n, w.at_ name = some n) ∧ name ≠ keyName ∧ name ≠ pubName := by
  rw [leftovers, List.mem_filter, mem_sorted, mem_keys, decide_eq_true_iff]

theorem nodup_leftovers : (leftovers w).Nodup :=
  ((List.mergeSort_perm _ _).nodup_iff.mpr w.entries.keys_nodup).filter _

theorem along_sys_bind {op : KeyOp} {a : KeyValue op} {f : KeyValue op → KeyProg α}
    (h : m.handle w op = (.ok a, v)) (hstep : step w op)
    (hf : (f a).Along m.handle step Q v) : (sys op >>= f).Along m.handle step Q w := by
  refine ⟨hstep, ?_⟩
  rw [h]
  exact hf

theorem along_sys {op : KeyOp} {a : KeyValue op} {Q : Except KeyError (KeyValue op) → Place → Prop}
    (h : m.handle w op = (.ok a, v)) (hstep : step w op) (hpost : Q (.ok a) v) :
    (sys op).Along m.handle step Q w := by
  refine ⟨hstep, ?_⟩
  rw [h]
  exact hpost

/-- A run that is refused for what it read has changed nothing. -/
def Refused (w : Place) (r : Except KeyError α) (v : Place) : Prop :=
  v = w ∧ ∃ code path, r = .error (.refusal code path)

theorem along_collectTemps {names : List Str} (h : ∀ name ∈ names, ∃ n, w.at_ name = some n) :
    (collectTemps s names).Along m.handle (Quiet w) (fun r v =>
      ((∀ name ∈ names, OwnName w name) ∧ v = w ∧
        r = .ok (names.filter fun name => name ≠ keyName ∧ name ≠ pubName)) ∨
      ((¬ ∀ name ∈ names, OwnName w name) ∧ Refused w r v)) w := by
  induction names with
  | nil => exact Or.inl ⟨by simp, rfl, rfl⟩
  | cons name names ih =>
    obtain ⟨⟨n, hn⟩, hnames⟩ := List.forall_mem_cons.mp h
    rw [collectTemps]
    split_ifs with hown htemp
    · refine (ih hnames).weaken fun r v hpost => ?_
      have hname : OwnName w name := hown.elim Or.inl fun hpub => Or.inr (Or.inl hpub)
      have hout : ¬ (name ≠ keyName ∧ name ≠ pubName) := fun hne => hown.elim hne.1 hne.2
      rw [List.forall_mem_cons, List.filter_cons_of_neg (by simpa using hout)]
      simpa [hname] using hpost
    · have hforeign : ¬ OwnName w name := by
        rintro (hkey | hpub | ⟨htemp', -⟩)
        · exact hown (Or.inl hkey)
        · exact hown (Or.inr hpub)
        · simp [htemp'] at htemp
      exact Or.inr ⟨fun hall => hforeign (List.forall_mem_cons.mp hall).1, rfl, _, _, rfl⟩
    · have htemp : isTempName name = true := by simpa using htemp
      refine along_sys_bind (a := (w.files n).kind) (v := w) ?_ ⟨rfl, rfl⟩ ?_
      · simp only [Machine.handle, hn]
      split_ifs with hkind
      · have hforeign : ¬ OwnName w name := by
          rintro (hkey | hpub | ⟨-, hregular⟩)
          · exact hown (Or.inl hkey)
          · exact hown (Or.inr hpub)
          · exact hkind (hregular n hn)
        exact Or.inr ⟨fun hall => hforeign (List.forall_mem_cons.mp hall).1, rfl, _, _, rfl⟩
      · have hname : OwnName w name := by
          refine Or.inr (Or.inr ⟨htemp, fun n' hn' => ?_⟩)
          obtain rfl := Option.some.inj (hn.symm.trans hn')
          exact not_not.mp hkind
        have hin : name ≠ keyName ∧ name ≠ pubName := not_or.mp hown
        rw [List.forall_mem_cons, List.filter_cons_of_pos (by simpa using hin)]
        refine Along.bind (ih hnames) (fun temps v hpost => ?_) fun e v hpost => ?_
        · rcases hpost with ⟨hall, hv, htemps⟩ | ⟨-, -, _, _, he⟩
          · refine Or.inl ⟨⟨hname, hall⟩, hv, ?_⟩
            rw [Except.ok.inj htemps]
          · cases he
        · rcases hpost with ⟨-, -, he⟩ | ⟨hnot, hv, code, path, he⟩
          · cases he
          · exact Or.inr ⟨fun hall => hnot hall.2, hv, code, path, by rw [Except.error.inj he]⟩

theorem along_listDirectory : (listDirectory s).Along m.handle (Quiet w) (fun r v =>
    ((∀ name n, w.at_ name = some n → OwnName w name) ∧ v = w ∧ r = .ok (leftovers w)) ∨
      ((¬ ∀ name n, w.at_ name = some n → OwnName w name) ∧ Refused w r v)) w := by
  have hall : (∀ name ∈ sorted w.entries.keys, OwnName w name) ↔
      ∀ name n, w.at_ name = some n → OwnName w name := by
    simp only [mem_sorted, mem_keys, forall_exists_index]
  refine along_sys_bind (v := w) rfl ⟨rfl, rfl⟩ ?_
  rw [← hall]
  exact along_collectTemps fun name hname => mem_keys.mp (mem_sorted.mp hname)

theorem decodeSeed_eq_some {data seed : Bytes} :
    decodeSeed data = some seed ↔ data = b64encode seed ∧ seed.length = seedBytes := by
  rw [decodeSeed]
  constructor
  · intro h
    split_ifs at h with hlength
    split at h
    · cases h
    · split_ifs at h with hbad
      obtain rfl := Option.some.inj h
      rw [not_or, not_not, not_not] at hbad
      exact ⟨hbad.2.symm, hbad.1⟩
  · rintro ⟨rfl, hlength⟩
    rw [length_b64encode, hlength, if_neg (by decide), b64decode_b64encode]
    simp [hlength]

theorem take_key {f : File} {seed : Bytes} (h : IsKey f seed) :
    f.content.length = keyTextBytes ∧ f.content.take (maxKeyFileBytes + 1) = f.content := by
  have hlength : f.content.length = keyTextBytes := by
    rw [h.content, length_b64encode, h.length]
    rfl
  exact ⟨hlength, List.take_of_length_le (by rw [hlength]; decide)⟩

theorem along_judgeKey {n : Nat} : (judgeKey sha512 s n).Along m.handle (Quiet w) (fun r v =>
    (∃ seed, KeyPasses w n seed ∧ v = w ∧ r = .ok ⟨derivePublic sha512 seed, (w.files n).uid,
      (w.files n).gid, (w.files n).mode⟩) ∨
    ((¬ ∃ seed, KeyPasses w n seed) ∧ Refused w r v)) w := by
  refine along_sys_bind (a := (w.files n).info) (v := w) rfl ⟨rfl, rfl⟩ ?_
  split_ifs with hkind hlinks hsize hmode
  · exact Or.inr ⟨fun ⟨_, h, _⟩ => hkind h.kind, rfl, _, _, rfl⟩
  · exact Or.inr ⟨fun ⟨_, _, h⟩ => hlinks h, rfl, _, _, rfl⟩
  · refine Or.inr ⟨fun ⟨_, h, _⟩ => ?_, rfl, _, _, rfl⟩
    have hsize : maxKeyFileBytes < (w.files n).content.length := hsize
    rw [(take_key h).1] at hsize
    exact absurd hsize (by decide)
  · exact Or.inr ⟨fun ⟨_, h, _⟩ => hmode h.narrow, rfl, _, _, rfl⟩
  · refine along_sys_bind (v := w) rfl ⟨rfl, rfl⟩ ?_
    have htake : (w.files n).content.take (maxKeyFileBytes + 1) = (w.files n).content :=
      List.take_of_length_le (Nat.le_succ_of_le (Nat.not_lt.mp hsize))
    rw [htake]
    cases hseed : decodeSeed (w.files n).content with
    | none =>
      refine Or.inr ⟨fun ⟨seed, h, _⟩ => ?_, rfl, _, _, rfl⟩
      rw [decodeSeed_eq_some.mpr ⟨h.content, h.length⟩] at hseed
      cases hseed
    | some seed =>
      obtain ⟨hcontent, hlength⟩ := decodeSeed_eq_some.mp hseed
      exact Or.inl ⟨seed, ⟨⟨not_not.mp hkind, hcontent, hlength, not_not.mp hmode⟩,
        not_not.mp hlinks⟩, rfl, rfl⟩

inductive Inspects (sha512 : Bytes → Bytes) (w : Place) :
    Except KeyError (Option (Nat × KeyFile)) → Prop
  | absent (h : w.at_ keyName = none) : Inspects sha512 w (.ok none)
  | passes {n : Nat} {seed : Bytes} (h : w.at_ keyName = some n) (hkey : KeyPasses w n seed) :
      Inspects sha512 w (.ok (some (n, ⟨derivePublic sha512 seed, (w.files n).uid,
        (w.files n).gid, (w.files n).mode⟩)))
  | refused {n : Nat} {code : Code} {path : Str} (h : w.at_ keyName = some n)
      (hkey : ¬ ∃ seed, KeyPasses w n seed) : Inspects sha512 w (.error (.refusal code path))

theorem along_inspectKey : (inspectKey sha512 s).Along m.handle (Quiet w)
    (fun r v => v = w ∧ Inspects sha512 w r) w := by
  refine along_ask_bind ⟨rfl, rfl⟩ ?_
  simp only [Machine.handle]
  cases hkey : w.at_ keyName with
  | none => exact ⟨rfl, .absent hkey⟩
  | some n =>
    have hopen : (∃ e, m.openFile w n = .error (.other e) ∧ (w.files n).kind ≠ .regular) ∨
        m.openFile w n = .ok n := by
      rw [Machine.openFile]
      cases hkind : (w.files n).kind with
      | regular => exact Or.inr rfl
      | directory => exact Or.inr rfl
      | link => exact Or.inl ⟨_, rfl, by simp⟩
      | special =>
        simp only
        split_ifs
        · exact Or.inr rfl
        · exact Or.inl ⟨_, rfl, by simp⟩
    rcases hopen with ⟨e, hopen, hkind⟩ | hopen
    · simp only [hopen]
      exact ⟨rfl, .refused hkey fun ⟨_, h, _⟩ => hkind h.kind⟩
    · simp only [hopen]
      refine Along.bind (Q := fun r v => (∃ seed, KeyPasses w n seed ∧ v = w ∧
          r = .ok ⟨derivePublic sha512 seed, (w.files n).uid, (w.files n).gid,
            (w.files n).mode⟩) ∨ ((¬ ∃ seed, KeyPasses w n seed) ∧ Refused w r v)) ?_ ?_ ?_
      · refine Along.catchWith along_judgeKey (fun key v hpost => hpost) fun e v hpost => ?_
        rcases hpost with ⟨_, _, _, he⟩ | ⟨hnot, rfl, code, path, he⟩
        · cases he
        · refine along_sys_bind (v := v) rfl ⟨rfl, rfl⟩ ?_
          exact Or.inr ⟨hnot, rfl, code, path, he⟩
      · intro key v hpost
        rcases hpost with ⟨seed, hpasses, rfl, hr⟩ | ⟨_, _, _, _, he⟩
        · obtain rfl := Except.ok.inj hr
          exact ⟨rfl, .passes hkey hpasses⟩
        · cases he
      · intro e v hpost
        rcases hpost with ⟨_, _, _, he⟩ | ⟨hnot, rfl, code, path, he⟩
        · cases he
        · obtain rfl := Except.error.inj he
          exact ⟨rfl, .refused hkey hnot⟩

theorem publicText_le (publicHalf : Bytes) (h : publicHalf.length = 32) :
    (publicText publicHalf).length ≤ maxPubFileBytes := by
  rw [publicText, List.length_append, length_b64encode, h]
  decide

theorem along_publicIsCurrent {publicHalf : Bytes} (hlength : publicHalf.length = 32) :
    (publicIsCurrent s publicHalf).Along m.handle (Quiet w) (fun r v => v = w ∧
      ((Blocked w m ∧ ∃ code path, r = .error (.refusal code path)) ∨
        (¬ Blocked w m ∧ r = .ok (currentPublic w s publicHalf)))) w := by
  refine along_ask_bind ⟨rfl, rfl⟩ ?_
  simp only [Machine.handle]
  cases hpub : w.at_ pubName with
  | none =>
    refine ⟨rfl, Or.inr ⟨fun ⟨n, hn, _⟩ => ?_, ?_⟩⟩
    · rw [hpub] at hn
      cases hn
    · rw [currentPublic, hpub]
  | some n =>
    have hsame : ∀ n', w.at_ pubName = some n' → n' = n := fun n' hn' =>
      Option.some.inj (hn'.symm.trans hpub)
    simp only
    cases hopen : m.openFile w n with
    | error e =>
      refine ⟨rfl, Or.inr ⟨fun ⟨n', hn', hopen', _⟩ => ?_, ?_⟩⟩
      · rw [hsame n' hn', hopen] at hopen'
        cases hopen'
      · have hkind : (w.files n).kind ≠ .regular := by
          intro hkind
          rw [Machine.openFile, hkind] at hopen
          cases hopen
        simp only [currentPublic, hpub]
        rw [eq_comm]
        simp [hkind]
    | ok fd =>
      have hfd : fd = n := by
        rw [Machine.openFile] at hopen
        split at hopen <;> (try split_ifs at hopen) <;> cases hopen <;> rfl
      subst hfd
      refine Along.finally_ (Q := fun r v => v = w ∧
        ((Blocked w m ∧ ∃ code path, r = .error (.refusal code path)) ∨
          (¬ Blocked w m ∧ r = .ok (currentPublic w s publicHalf)))) ?_ fun r v hpost => ?_
      · refine along_sys_bind (a := (w.files fd).info) (v := w) rfl ⟨rfl, rfl⟩ ?_
        split_ifs with hkind hsize
        · exact ⟨rfl, Or.inl ⟨⟨fd, hpub, by rw [hopen]; rfl, hkind⟩, _, _, rfl⟩⟩
        · have hfree : ¬ Blocked w m := fun ⟨n', hn', _, hne⟩ => hkind (hsame n' hn' ▸ hne)
          refine ⟨rfl, Or.inr ⟨hfree, ?_⟩⟩
          have hne : (w.files fd).content ≠ publicText publicHalf := by
            intro heq
            have hsize : maxPubFileBytes < (w.files fd).content.length := hsize
            rw [heq] at hsize
            exact absurd (publicText_le publicHalf hlength) (Nat.not_le.mpr hsize)
          simp only [currentPublic, hpub]
          simp [hne]
        · have hfree : ¬ Blocked w m := fun ⟨n', hn', _, hne⟩ => hkind (hsame n' hn' ▸ hne)
          refine along_sys_bind (v := w) rfl ⟨rfl, rfl⟩ ⟨rfl, Or.inr ⟨hfree, ?_⟩⟩
          have hkind : (w.files fd).kind = .regular := not_not.mp hkind
          rw [List.take_of_length_le (Nat.le_succ_of_le (Nat.not_lt.mp hsize))]
          simp only [currentPublic, hpub, hkind, true_and]
          rfl
      · obtain ⟨rfl, hpost⟩ := hpost
        exact along_sys (v := v) rfl ⟨rfl, rfl⟩ ⟨rfl, rfl, hpost⟩

end Reading

end SharedInfra.ChannelKey
