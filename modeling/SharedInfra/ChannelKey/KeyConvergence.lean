import SharedInfra.ChannelKey.KeyOperations

/-!
# One run among others

Every function of `converge` keeps the steps of its run within what all runs
guarantee, whatever the others do between its operations, and ends with the key
known and the public file in place (`converges_converge`).
-/

namespace SharedInfra.ChannelKey

open Python Effects Prog

variable {ι : Type} {sha512 : Bytes → Bytes} {s : Settings} {checkMode : Bool} {i : ι}
  {w w' : KeyWorld ι} {α β : Type}

section Rules

variable {p : KeyProg α} {op : KeyOp}

/-- A run takes only guaranteed steps, and where it returns, `ends` holds. -/
abbrev Converges (sha512 : Bytes → Bytes) (i : ι) (ends : α → KeyWorld ι → Prop) (p : KeyProg α)
    (w : KeyWorld ι) : Prop :=
  p.Keeps FreshDoes (fun i => Step sha512 (some i)) i (fun r w => ∀ a, r = .ok a → ends a w) w

variable {ends ends' : α → KeyWorld ι → Prop} {fact : KeyWorld ι → Prop}

theorem Kept.stable (h : Kept sha512 i fact) :
    Stable (fun i => Step sha512 (some i)) i fact :=
  fun w w' hw ⟨j, hj, hstep⟩ => h (some j) w w' (by simpa using hj) hw hstep

theorem Kept.same (h : Kept sha512 i fact) (hw : fact w) (hsame : SameFiles w w') : fact w' :=
  h none w w' (by simp) hw hsame.step

theorem converges_pure {a : α} (h : ends a w) : Converges sha512 i ends (pure a) w := by
  intro b hb
  cases hb
  exact h

theorem converges_raise {e : KeyError} : Converges sha512 i ends (raise e) w := by
  intro b hb
  cases hb

theorem Converges.bind {p : KeyProg β} {f : β → KeyProg α} {between : β → KeyWorld ι → Prop}
    (h : Converges sha512 i between p w)
    (hf : ∀ b w, between b w → Converges sha512 i ends (f b) w) :
    Converges sha512 i ends (p >>= f) w :=
  Keeps.bind h (fun b w hb => hf b w (hb b rfl)) fun e w _ a ha => (by cases ha)

theorem Converges.mono (h : Converges sha512 i ends p w)
    (hends : ∀ a w, ends a w → ends' a w) : Converges sha512 i ends' p w :=
  Keeps.mono h fun _ w hr a ha => hends a w (hr a ha)

theorem Converges.frame (h : Converges sha512 i ends p w)
    (hfact : Lasting sha512 fact) (hw : fact w) :
    Converges sha512 i (fun a w => ends a w ∧ fact w) p w := by
  induction p generalizing w with
  | done r => exact fun a ha => ⟨h a ha, hw⟩
  | perform op next ih =>
    intro w₁ hothers a w₂ hdoes
    obtain ⟨hstep, hnext⟩ := h w₁ hothers a w₂ hdoes
    have hw₁ : fact w₁ := (hfact.kept i).stable.after hw hothers
    exact ⟨hstep, ih a hnext (hfact _ _ _ hw₁ hstep)⟩

theorem converges_ask {answers : KeyAnswer op → KeyWorld ι → Prop}
    (hkept : Kept sha512 i fact) (hw : fact w)
    (hok : ∀ w₁ a w₂, fact w₁ → Does i w₁ op (.ok a) w₂ → (w₂.drawn.map Prod.snd).Nodup →
      Step sha512 (some i) w₁ w₂ ∧ answers (.ok a) w₂)
    (herror : ∀ e w₁, fact w₁ → answers (.error e) w₁) :
    Converges sha512 i answers (ask op) w := by
  refine keeps_ask hkept.stable hw fun w₁ a w₂ hw₁ hdoes => ?_
  cases a with
  | ok a =>
    obtain ⟨hstep, hanswer⟩ := hok w₁ a w₂ hw₁ hdoes.1 hdoes.2
    refine ⟨hstep, fun b hb => ?_⟩
    cases hb
    exact hanswer
  | error e =>
    rw [does_error hdoes.1]
    refine ⟨Step.refl w₁, fun b hb => ?_⟩
    cases hb
    exact herror e w₁ hw₁

theorem converges_sys {values : KeyValue op → KeyWorld ι → Prop}
    (hkept : Kept sha512 i fact) (hw : fact w)
    (hok : ∀ w₁ a w₂, fact w₁ → Does i w₁ op (.ok a) w₂ → (w₂.drawn.map Prod.snd).Nodup →
      Step sha512 (some i) w₁ w₂ ∧ values a w₂) :
    Converges sha512 i values (sys op) w := by
  have hask : Converges sha512 i (fun (answer : KeyAnswer op) w => ∀ a, answer = .ok a → values a w)
      (ask op) w := by
    refine converges_ask hkept hw (fun w₁ b w₂ hw₁ hdoes hfresh => ?_) fun e w₁ _ _ ha => (by cases ha)
    obtain ⟨hstep, hvalue⟩ := hok w₁ b w₂ hw₁ hdoes hfresh
    refine ⟨hstep, fun _ hb => ?_⟩
    cases hb
    exact hvalue
  refine hask.bind fun answer w hanswer => ?_
  cases answer with
  | ok a => exact converges_pure (hanswer a rfl)
  | error e => exact converges_raise

theorem converges_quiet (hop : op.quiet = true) (hkept : Kept sha512 i fact)
    (hw : fact w) :
    Converges sha512 i (fun a w' => fact w' ∧ ∃ w₁, fact w₁ ∧ Does i w₁ op (.ok a) w') (sys op) w :=
  converges_sys hkept hw fun w₁ _ _ hw₁ hdoes _ =>
    ⟨(sameFiles_of_quiet hop hdoes).step, hkept.same hw₁ (sameFiles_of_quiet hop hdoes),
      w₁, hw₁, hdoes⟩

theorem Converges.after_quiet {f : KeyValue op → KeyProg α} (hop : op.quiet = true)
    (hkept : Kept sha512 i fact) (hw : fact w)
    (hf : ∀ a w, fact w → Converges sha512 i ends (f a) w) :
    Converges sha512 i ends (sys op >>= f) w :=
  (converges_quiet hop hkept hw).bind fun a w' h => hf a w' h.1

theorem converges_onlyIf {condition : Bool} {p : KeyProg Unit} (hno : condition = false → fact w)
    (hyes : condition = true → Converges sha512 i (fun _ => fact) p w) :
    Converges sha512 i (fun _ => fact) (onlyIf condition p) w := by
  cases condition with
  | true => exact hyes rfl
  | false => exact converges_pure (hno rfl)

theorem kept_true (i : ι) : Kept sha512 i fun _ => True := fun _ _ _ _ h _ => h

theorem Converges.closing {fd : Nat} (h : Converges sha512 i ends p w) :
    Converges sha512 i ends (p.catchWith fun e => do
      sys (.closeFile fd)
      raise e) w := by
  refine Keeps.resume h fun r w hr => ?_
  cases r with
  | ok a => exact fun b hb => hr b hb
  | error e => exact Converges.after_quiet rfl (kept_true i) trivial fun _ _ _ => converges_raise

/-- An operation that closes something and nothing more. -/
def Closes (sha512 : Bytes → Bytes) (i : ι) (last : KeyProg Unit) : Prop :=
  ∀ (fact : KeyWorld ι → Prop) (w : KeyWorld ι), Kept sha512 i fact → fact w →
    Converges sha512 i (fun _ => fact) last w

theorem closes_file (i : ι) (fd : Nat) : Closes sha512 i (sys (.closeFile fd)) :=
  fun _ _ hkept hw => (converges_quiet rfl hkept hw).mono fun _ _ h => h.1

theorem closes_directory (i : ι) : Closes sha512 i (sys .closeDirectory) :=
  fun _ _ hkept hw => (converges_quiet rfl hkept hw).mono fun _ _ h => h.1

theorem Converges.finally {last : KeyProg Unit} (h : Converges sha512 i ends p w)
    (hends : ∀ a, Kept sha512 i (ends a)) (hlast : Closes sha512 i last) :
    Converges sha512 i ends (p.finally_ last) w := by
  refine Keeps.resume h fun r w hr => ?_
  cases r with
  | ok a =>
    refine Converges.bind (hlast (ends a) w (hends a) (hr a rfl)) fun _ w' hw' => ?_
    exact converges_pure hw'
  | error e =>
    refine Converges.bind (hlast (fun _ => True) w (kept_true i) trivial) fun _ w' _ => ?_
    exact converges_raise

end Rules

/-- The key's name is of this file, whatever it holds. -/
def KeyAt (n : Nat) (w : KeyWorld ι) : Prop := WellFormed w ∧ w.entries keyName = some n

theorem lasting_keyAt (n : Nat) : Lasting sha512 (KeyAt (ι := ι) n) :=
  fun _ _ _ ⟨hw, hn⟩ hstep => ⟨hstep.wf hw, hstep.keyKept n hn⟩

theorem decodeSeed_some {data seed : Bytes} (h : decodeSeed data = some seed) :
    seed.length = 32 ∧ b64encode seed = data ∧ data.length = 44 := by
  unfold decodeSeed at h
  split_ifs at h with hlength
  split at h
  · cases h
  · split_ifs at h with hbad
    rw [Option.some.injEq] at h
    subst h
    rw [not_or, not_not, not_not] at hbad
    exact ⟨hbad.1, hbad.2, not_not.mp hlength⟩

def Learned (sha512 : Bytes → Bytes) (key : KeyFile) (w : KeyWorld ι) : Prop :=
  ∃ seed, Known seed w ∧ key.publicHalf = derivePublic sha512 seed

theorem converges_judgeKey {fd : Nat} (h : KeyAt fd w) :
    Converges sha512 i (fun key w => Learned sha512 key w) (judgeKey sha512 s fd) w := by
  have hkept : Kept sha512 i (KeyAt fd) := (lasting_keyAt fd).kept i
  refine Converges.after_quiet rfl hkept h fun info w hw => ?_
  split_ifs
  · exact converges_raise
  · exact converges_raise
  · exact converges_raise
  · exact converges_raise
  refine (converges_quiet rfl hkept hw).bind fun data w' hdata => ?_
  obtain ⟨⟨hwf, hname⟩, w₁, _, hdoes⟩ := hdata
  cases hdoes
  split
  · exact converges_raise
  · rename_i seed hseed
    obtain ⟨hlength, hencode, hdata⟩ := decodeSeed_some hseed
    refine converges_pure ⟨seed, ⟨hwf, hlength, fd, hname, ?_⟩, rfl⟩
    -- The read was not cut short, so the file holds just what was decoded.
    rw [hencode]
    have hlimit : maxKeyFileBytes = 64 := rfl
    rw [List.length_take] at hdata
    exact (List.take_of_length_le (by omega)).symm

theorem converges_inspectKey (h : WellFormed w) :
    Converges sha512 i (fun found w => WellFormed w ∧
      ∀ fd key, found = some (fd, key) → Learned sha512 key w) (inspectKey sha512 s) w := by
  have hopen : Converges sha512 i (fun (answer : KeyAnswer (.openEntry keyName)) w =>
      WellFormed w ∧ ∀ fd, answer = .ok fd → KeyAt fd w) (ask (KeyOp.openEntry keyName)) w := by
    refine converges_ask (lasting_wellFormed.kept i) h (fun w₁ fd w₂ hw₁ hdoes _ => ?_)
      fun e w₁ hw₁ => ⟨hw₁, fun _ hfd => by cases hfd⟩
    have hstep : Step sha512 (some i) w₁ w₂ := (sameFiles_of_quiet rfl hdoes).step
    cases hdoes with
    | openEntry hn _ =>
      refine ⟨hstep, hw₁, fun n hn' => ?_⟩
      cases hn'
      exact ⟨hw₁, hn⟩
  refine hopen.bind fun answer w hanswer => ?_
  split
  · exact converges_pure ⟨hanswer.1, fun _ _ h => (by cases h)⟩
  · exact converges_raise
  · rename_i fd
    refine (converges_judgeKey (hanswer.2 fd rfl)).closing.bind fun key w hkey => ?_
    refine converges_pure ⟨?_, fun _ _ h => ?_⟩
    · obtain ⟨_, hknown, _⟩ := hkey
      exact hknown.1
    · cases h
      exact hkey

/-- The run drew this temporary name. -/
def Drawn (i : ι) (name : Str) (w : KeyWorld ι) : Prop := WellFormed w ∧ DrawnBy (some i) w name

theorem lasting_drawn (i : ι) (name : Str) : Lasting sha512 (Drawn i name) :=
  fun _ _ _ ⟨hw, hmine⟩ hstep => ⟨hstep.wf hw, hmine.step hstep⟩

theorem converges_writeAll {name : Str} {n turns : Nat} {pre data : Bytes}
    (h : Temporary i name n pre w) (hturns : data.length ≤ turns) :
    Converges sha512 i (fun _ => Temporary i name n (pre ++ data)) (writeAll n turns data) w := by
  induction turns generalizing pre data w with
  | zero =>
    have hnil : data = [] := List.length_eq_zero_iff.mp (by omega)
    subst hnil
    exact converges_pure (by simpa using h)
  | succ turns ih =>
    rw [writeAll]
    split_ifs with hempty
    · rw [List.isEmpty_iff] at hempty
      subst hempty
      exact converges_pure (by simpa using h)
    · have hwrite : Converges sha512 i (fun count w => 0 < count ∧
          Temporary i name n (pre ++ data.take count) w) (sys (.writeFile n data)) w := by
        refine converges_sys (kept_temporary i name n pre) h fun w₁ count w₂ hw₁ hdoes _ => ?_
        cases hdoes with
        | writeFile hpos _ => exact ⟨step_write hw₁, hpos, temporary_write hw₁⟩
      refine hwrite.bind fun count w' hcount => ?_
      have hless : (data.drop count).length ≤ turns := by
        rw [List.length_drop]
        omega
      have hrest := ih hcount.2 hless
      rwa [List.append_assoc, List.take_append_drop] at hrest

theorem converges_writeNewFile {name : Str} {mode : Nat} {data : Bytes} (h : Drawn i name w) :
    Converges sha512 i (fun _ w => ∃ n, Temporary i name n data w)
      (writeNewFile s name mode data) w := by
  have hcreate : Converges sha512 i (fun n => Temporary i name n [])
      (sys (.createEntry name mode)) w := by
    refine converges_sys ((lasting_drawn i name).kept i) h fun w₁ n w₂ hw₁ hdoes _ => ?_
    cases hdoes with
    | createEntry _ => exact ⟨step_create hw₁.1 hw₁.2, temporary_create hw₁.1 hw₁.2⟩
  refine hcreate.bind fun n w hw => ?_
  have hkept : ∀ d, Kept sha512 i (Temporary i name n d) := kept_temporary i name n
  have hbody : Converges sha512 i (fun _ => Temporary i name n data) (do
      sys (.chownFile n s.uid s.gid)
      sys (.chmodFile n mode)
      writeAll n data.length data
      sys (.syncFile n)) w := by
    refine Converges.after_quiet rfl (hkept []) hw fun _ w hw => ?_
    refine Converges.after_quiet rfl (hkept []) hw fun _ w hw => ?_
    refine (converges_writeAll hw (le_refl _)).bind fun _ w hw => ?_
    exact (converges_quiet rfl (hkept data) hw).mono fun _ _ h => h.1
  exact (hbody.finally (fun _ => hkept data) (closes_file i n)).mono fun _ _ h => ⟨n, h⟩

theorem converges_randomHex {count : Nat} (hw : WellFormed w) :
    Converges sha512 i (fun hex w => Drawn i (keyTempPrefix ++ hex) w ∧
      Drawn i (pubTempPrefix ++ hex) w) (sys (.randomHex count)) w := by
  refine converges_sys (lasting_wellFormed.kept i) hw fun w₁ hex w₂ hw₁ hdoes hfresh => ?_
  cases hdoes with
  | randomHex _ _ =>
    have hstep : Step sha512 (some i) w₁ _ := step_randomHex hfresh
    have hmem : (i, hex) ∈ w₁.drawn ++ [(i, hex)] := by simp
    exact ⟨hstep, ⟨hstep.wf hw₁, i, hex, rfl, hmem, Or.inl rfl⟩,
      hstep.wf hw₁, i, hex, rfl, hmem, Or.inr rfl⟩

theorem converges_unlink {name : Str} (hkey : name ≠ keyName) (hpub : name ≠ pubName) :
    Converges sha512 i (fun _ _ => True) (sys (.unlinkEntry name)) w := by
  refine converges_sys (kept_true i) trivial fun w₁ _ w₂ _ hdoes _ => ?_
  cases hdoes with
  | unlinkEntry _ _ => exact ⟨step_remove hkey hpub fun _ => ⟨rfl, rfl, rfl⟩, trivial⟩

theorem converges_createKey (h : WellFormed w) :
    Converges sha512 i (fun made w => WellFormed w ∧ ∀ publicHalf, made = some publicHalf →
      ∃ seed, Known seed w ∧ publicHalf = derivePublic sha512 seed) (createKey sha512 s) w := by
  have hseed : Converges sha512 i (fun seed w => WellFormed w ∧ seed.length = 32)
      (sys (.randomBytes seedBytes)) w := by
    refine (converges_quiet rfl (lasting_wellFormed.kept i) h).mono fun seed w' hw => ?_
    obtain ⟨hwf, w₁, _, hdoes⟩ := hw
    cases hdoes with
    | randomBytes hlength => exact ⟨hwf, hlength⟩
  refine hseed.bind fun seed w hw => ?_
  obtain ⟨hwf, hlength⟩ := hw
  refine (converges_randomHex hwf).bind fun hex w hw => ?_
  obtain ⟨⟨hwf, hmine⟩, _⟩ := hw
  obtain ⟨hneKey, hnePub⟩ := hmine.ne_named
  refine (converges_writeNewFile ⟨hwf, hmine⟩).bind fun _ w hw => ?_
  obtain ⟨n, htemp⟩ := hw
  have hlink : Converges sha512 i (fun (linked : KeyAnswer (.linkEntry (keyTempPrefix ++ hex) keyName))
      w => WellFormed w ∧ (linked = .ok () → Known seed w))
      (ask (KeyOp.linkEntry (keyTempPrefix ++ hex) keyName)) w := by
    refine converges_ask (kept_temporary i _ n _) htemp (fun w₁ a w₂ hw₁ hdoes _ => ?_)
      fun e w₁ hw₁ => ⟨hw₁.wf, fun h => by cases h⟩
    cases hdoes with
    | @linkEntry _ _ m hm hfree =>
      have hmn : m = n := by
        rcases hw₁.named with h | h
        · rw [hm, Option.some.injEq] at h
          exact h
        · rw [hm] at h
          cases h
      subst hmn
      have hlinked : Step sha512 (some i) w₁ _ ∧ Known seed _ :=
        step_link (f := fun f => { f with nlink := f.nlink + 1 }) hlength hw₁ hfree
          fun _ => ⟨rfl, rfl, rfl⟩
      exact ⟨hlinked.1, hlinked.2.1, fun _ => hlinked.2⟩
  refine hlink.bind fun linked w hlinked => ?_
  split
  · refine ((converges_unlink hneKey hnePub).frame lasting_wellFormed hlinked.1).bind fun _ w hw => ?_
    exact converges_pure ⟨hw.2, fun _ h => (by cases h)⟩
  · exact converges_raise
  · have hknown := hlinked.2 rfl
    refine ((converges_unlink hneKey hnePub).frame (lasting_known seed) hknown).bind fun _ w hw => ?_
    refine converges_pure ⟨hw.2.1, fun publicHalf hpublic => ⟨seed, hw.2, ?_⟩⟩
    exact (Option.some.inj hpublic).symm

def PublicAt (sha512 : Bytes → Bytes) (seed : Bytes) (m : Nat) (fact : Inode ι → Prop)
    (w : KeyWorld ι) : Prop :=
  Known seed w ∧ (PublicIs sha512 w seed ∨ (w.entries pubName = some m ∧ fact (w.inodes m)))

def OfContent (fact : Inode ι → Prop) : Prop :=
  ∀ f f' : Inode ι, f'.kind = f.kind → f'.content = f.content → fact f → fact f'

theorem lasting_publicAt {seed : Bytes} {m : Nat} {fact : Inode ι → Prop} (hfact : OfContent fact) :
    Lasting sha512 (PublicAt sha512 seed m fact) := by
  rintro who w w' ⟨⟨hw, hkey⟩, h⟩ hstep
  have hkey' := hkey.step hw hstep
  refine ⟨⟨hstep.wf hw, hkey'⟩, ?_⟩
  rcases h with h | ⟨hm, hf⟩
  · exact Or.inl (h.step hkey hw hstep)
  · rcases hstep.publicNew with hsame | ⟨⟨seed', hseed', hpublic⟩, _⟩
    · have hcore := hstep.core_named hw (Or.inr hm)
      exact Or.inr ⟨hsame.trans hm, hfact _ _ (core_kind hcore) (core_content hcore) hf⟩
    · rw [hkey'.unique hseed'] at hpublic
      exact Or.inl hpublic

theorem converges_publicIsCurrent {seed publicHalf : Bytes} (h : Known seed w)
    (hpublic : publicHalf = derivePublic sha512 seed) :
    Converges sha512 i (fun current w => Known seed w ∧ (current = true → PublicIs sha512 w seed))
      (publicIsCurrent s publicHalf) w := by
  have hopen : Converges sha512 i (fun (answer : KeyAnswer (.openEntry pubName)) w =>
      Known seed w ∧ ∀ m, answer = .ok m → PublicAt sha512 seed m (fun _ => True) w)
      (ask (KeyOp.openEntry pubName)) w := by
    refine converges_ask ((lasting_known seed).kept i) h (fun w₁ m w₂ hw₁ hdoes _ => ?_)
      fun e w₁ hw₁ => ⟨hw₁, fun _ hm => by cases hm⟩
    have hstep : Step sha512 (some i) w₁ w₂ := (sameFiles_of_quiet rfl hdoes).step
    cases hdoes with
    | openEntry hm _ =>
      refine ⟨hstep, hw₁, fun n hn => ?_⟩
      cases hn
      exact ⟨hw₁, Or.inr ⟨hm, trivial⟩⟩
  refine hopen.bind fun answer w hanswer => ?_
  split
  · exact converges_pure ⟨hanswer.1, fun h => (by cases h)⟩
  rename_i m
  refine Converges.finally ?_ ?_ (closes_file i m)
  · have hany : OfContent (ι := ι) fun _ => True := fun _ _ _ _ h => h
    have hsmall : OfContent (ι := ι) fun f =>
        f.kind = .regular ∧ f.content.length ≤ maxPubFileBytes := by
      rintro f f' hkind hcontent ⟨hk, hl⟩
      exact ⟨hkind.trans hk, hcontent ▸ hl⟩
    refine (converges_quiet rfl ((lasting_publicAt hany).kept i) (hanswer.2 m rfl)).bind
      fun info w hw => ?_
    obtain ⟨⟨hknown, hat⟩, w₁, _, hdoes⟩ := hw
    cases hdoes
    split_ifs with hkind hsize
    · exact converges_raise
    · exact converges_pure ⟨hknown, fun h => (by cases h)⟩
    have hregular : PublicAt sha512 seed m
        (fun f => f.kind = .regular ∧ f.content.length ≤ maxPubFileBytes) w := by
      refine ⟨hknown, hat.imp id fun hm => ⟨hm.1, not_not.mp hkind, Nat.not_lt.mp hsize⟩⟩
    refine (converges_quiet rfl ((lasting_publicAt hsmall).kept i) hregular).bind fun text w hw => ?_
    obtain ⟨⟨hknown, hat⟩, w₁, _, hdoes⟩ := hw
    cases hdoes
    refine converges_pure ⟨hknown, fun hcurrent => ?_⟩
    rcases hat with hat | ⟨hm, hkind, hlength⟩
    · exact hat
    · -- The whole file was read, so it holds the text it was compared with.
      have htext := (of_decide_eq_true hcurrent).2.2.2
      rw [List.take_of_length_le (by omega)] at htext
      exact ⟨m, hm, hkind, hpublic ▸ htext⟩
  · rintro current who w w' _ ⟨hknown, hcurrent⟩ hstep
    exact ⟨lasting_known seed who w w' hknown hstep,
      fun h => (hcurrent h).step hknown.2 hknown.1 hstep⟩

theorem converges_writePublic {seed publicHalf : Bytes} (h : Known seed w)
    (hpublic : publicHalf = derivePublic sha512 seed) :
    Converges sha512 i (fun _ => Published sha512 seed) (writePublic s publicHalf) w := by
  have hlasting : Lasting sha512 (Known (ι := ι) seed) := lasting_known seed
  refine ((converges_randomHex h.1).frame hlasting h).bind fun hex w hw => ?_
  obtain ⟨⟨_, hdrawn⟩, hknown⟩ := hw
  obtain ⟨hneKey, hnePub⟩ := hdrawn.2.ne_named
  refine ((converges_writeNewFile hdrawn).frame hlasting hknown).bind fun _ w hw => ?_
  obtain ⟨⟨n, htemp⟩, hknown⟩ := hw
  have hkept : Kept sha512 i fun w => Temporary i (pubTempPrefix ++ hex) n (publicText publicHalf) w ∧
      Known seed w :=
    fun who w w' hwho ⟨htemp, hknown⟩ hstep =>
      ⟨kept_temporary i _ n _ who w w' hwho htemp hstep, hlasting who w w' hknown hstep⟩
  have hrename : Converges sha512 i (fun (renamed : KeyAnswer (.renameEntry (pubTempPrefix ++ hex) pubName))
      w => renamed = .ok () → Published sha512 seed w)
      (ask (KeyOp.renameEntry (pubTempPrefix ++ hex) pubName)) w := by
    subst hpublic
    refine converges_ask hkept ⟨htemp, hknown⟩ (fun w₁ a w₂ hw₁ hdoes _ => ?_)
      fun e w₁ _ h => (by cases h)
    obtain ⟨htemp₁, hknown₁⟩ := hw₁
    have hname : ∀ m, w₁.entries (pubTempPrefix ++ hex) = some m → m = n := by
      intro m hm
      rcases htemp₁.named with h | h
      · rw [hm, Option.some.injEq] at h
        exact h
      · rw [hm] at h
        cases h
    cases hdoes with
    | renamed hm _ =>
      obtain rfl := hname _ hm
      obtain ⟨hstep, hends⟩ := step_rename htemp₁ hknown₁.2 (SameFiles.refl w₁)
      exact ⟨hstep, fun _ => hends⟩
    | @replaced _ _ m k hm _ _ _ =>
      obtain rfl := hname _ hm
      have hsame : SameFiles w₁ (w₁.change k fun f => { f with nlink := f.nlink - 1 }) :=
        sameFiles_change fun _ => ⟨rfl, rfl, rfl⟩
      exact ⟨(step_rename htemp₁ hknown₁.2 hsame).1,
        fun _ => (step_rename htemp₁ hknown₁.2 hsame).2⟩
    | renameSame hm hold =>
      obtain rfl := hname _ hm
      exact absurd hold htemp₁.notPublic
  refine hrename.bind fun renamed w hrenamed => ?_
  split
  · exact (converges_unlink hneKey hnePub).bind fun _ _ _ => converges_raise
  · exact converges_pure (hrenamed rfl)

/-- What a run that returns, and was not only checking, leaves and gives back. -/
def Settled (sha512 : Bytes → Bytes) (result : Result) (w : KeyWorld ι) : Prop :=
  ∃ seed, Published sha512 seed w ∧ result.publicKey = some (b64encode (derivePublic sha512 seed))

theorem lasting_settled (result : Result) :
    Lasting sha512 (Settled (ι := ι) sha512 result) :=
  fun who w w' ⟨seed, hpublished, hresult⟩ hstep =>
    ⟨seed, lasting_published seed who w w' hpublished hstep, hresult⟩

/-- What a run ends with; one that was only checking promises nothing. -/
def SettledUnless (sha512 : Bytes → Bytes) (checkMode : Bool) (result : Result) (w : KeyWorld ι) :
    Prop :=
  checkMode = false → Settled sha512 result w

theorem lasting_settledUnless (result : Result) :
    Lasting sha512 (SettledUnless (ι := ι) sha512 checkMode result) :=
  fun who w w' h hstep hmode => lasting_settled result who w w' (h hmode) hstep

theorem converges_publish {seed publicHalf : Bytes} {result : Result} (h : Known seed w)
    (hpublic : publicHalf = derivePublic sha512 seed) :
    Converges sha512 i (SettledUnless sha512 checkMode) (publish s checkMode publicHalf result) w := by
  refine (converges_publicIsCurrent h hpublic).bind fun current w hw => ?_
  obtain ⟨hknown, hcurrent⟩ := hw
  have hwrite : Converges sha512 i (fun _ w => checkMode = false → Published sha512 seed w)
      (onlyIf (!current && !checkMode) (writePublic s publicHalf)) w := by
    refine converges_onlyIf (fun hno hmode => ?_) fun _ => ?_
    · have htrue : current = true := by
        subst hmode
        simpa using hno
      exact ⟨hknown.1, hknown.2, hcurrent htrue⟩
    · exact (converges_writePublic hknown hpublic).mono fun _ _ h _ => h
  refine hwrite.bind fun _ w hw => ?_
  have hkept : Lasting sha512 fun w : KeyWorld ι => checkMode = false → Published sha512 seed w :=
    fun who w w' h hstep hmode => lasting_published seed who w w' (h hmode) hstep
  have hsync : ∀ c, Converges sha512 i (fun _ w => checkMode = false → Published sha512 seed w)
      (onlyIf c (sys .syncDirectory)) w := fun c =>
    converges_onlyIf (fun _ => hw) fun _ =>
      (converges_quiet rfl (hkept.kept i) hw).mono fun _ _ h => h.1
  refine (hsync _).bind fun _ w hw => ?_
  exact converges_pure fun hmode => ⟨seed, hw hmode, hpublic ▸ rfl⟩

theorem converges_adoptKey {fd : Nat} {key : KeyFile} {result : Result}
    (h : Learned sha512 key w) :
    Converges sha512 i (SettledUnless sha512 checkMode) (adoptKey s checkMode fd key result) w := by
  obtain ⟨seed, hknown, hpublic⟩ := h
  have hkept : Kept sha512 i (Known seed) := (lasting_known seed).kept i
  refine Converges.finally ?_ (fun result => (lasting_settledUnless result).kept i)
    (closes_file i fd)
  have hadopt : ∀ c, Converges sha512 i (fun _ => Known seed) (onlyIf c do
      sys (.chownFile fd s.uid s.gid)
      sys (.chmodFile fd keyMode)) w := by
    refine fun c => converges_onlyIf (fun _ => hknown) fun _ => ?_
    refine Converges.after_quiet rfl hkept hknown fun _ w hw => ?_
    exact (converges_quiet rfl hkept hw).mono fun _ _ h => h.1
  exact (hadopt _).bind fun _ w hw => converges_publish hw hpublic

theorem converges_makeKey {result : Result} (h : WellFormed w) :
    Converges sha512 i (SettledUnless sha512 checkMode) (makeKey sha512 s checkMode result) w := by
  unfold makeKey
  split_ifs with hmode
  · exact converges_pure fun h => (by rw [hmode] at h; cases h)
  refine (converges_createKey h).bind fun made w hw => ?_
  obtain ⟨hwf, hmade⟩ := hw
  split
  · obtain ⟨seed, hknown, hpublic⟩ := hmade _ rfl
    exact converges_publish hknown hpublic
  · refine (converges_inspectKey hwf).bind fun found w hw => ?_
    split
    · exact converges_raise
    · exact converges_adoptKey (hw.2 _ _ rfl)

theorem converges_collectTemps {names : List Str} :
    Converges sha512 i (fun temps _ => ∀ name ∈ temps, name ≠ keyName ∧ name ≠ pubName)
      (collectTemps s names) w := by
  induction names generalizing w with
  | nil => exact converges_pure (by simp)
  | cons name rest ih =>
    rw [collectTemps]
    split_ifs with hown
    · exact ih
    · exact converges_raise
    · rw [not_or] at hown
      refine Converges.after_quiet rfl (kept_true i) trivial fun kind w _ => ?_
      split_ifs
      · exact converges_raise
      · refine ih.bind fun more w hmore => converges_pure ?_
        exact List.forall_mem_cons.mpr ⟨hown, hmore⟩

theorem converges_tidy {temps : List Str} {result : Result}
    (h : ∀ name ∈ temps, name ≠ keyName ∧ name ≠ pubName) :
    Converges sha512 i (fun _ _ => True) (tidy s checkMode temps result) w := by
  have htrue : Kept sha512 i fun _ => True := kept_true i
  refine Converges.after_quiet rfl htrue trivial fun info w _ => ?_
  have hadopt : ∀ c, Converges sha512 i (fun _ _ => True) (onlyIf c do
      sys (.chownDirectory s.uid s.gid)
      sys (.chmodDirectory dirMode)) w := by
    refine fun c => converges_onlyIf (fun _ => trivial) fun _ => ?_
    refine Converges.after_quiet rfl htrue trivial fun _ w _ => ?_
    exact (converges_quiet rfl htrue trivial).mono fun _ _ _ => trivial
  refine (hadopt _).bind fun _ w _ => ?_
  have hremove : Converges sha512 i (fun _ _ => True)
      (onlyIf (!checkMode) (forEach temps fun name => sys (.unlinkEntry name))) w := by
    refine converges_onlyIf (fun _ => trivial) fun _ => ?_
    refine keeps_forEach (fun name hname w _ => ?_) fun _ _ => trivial
    exact converges_unlink (h name hname).1 (h name hname).2
  exact hremove.bind fun _ _ _ => converges_pure trivial

theorem converges_convergeInDirectory {result : Result} (h : WellFormed w) :
    Converges sha512 i (SettledUnless sha512 checkMode)
      (convergeInDirectory sha512 s checkMode result) w := by
  have hlist : Converges sha512 i (fun temps _ => ∀ name ∈ temps, name ≠ keyName ∧ name ≠ pubName)
      (listDirectory s) w :=
    Converges.after_quiet rfl (kept_true i) trivial fun names w _ => converges_collectTemps
  refine (hlist.frame lasting_wellFormed h).bind fun temps w hw => ?_
  obtain ⟨htemps, hwf⟩ := hw
  refine (converges_inspectKey hwf).bind fun found w hw => ?_
  obtain ⟨hwf, hfound⟩ := hw
  split
  · refine ((converges_tidy htemps).frame lasting_wellFormed hwf).bind fun result w hw => ?_
    exact converges_makeKey hw.2
  · rename_i fd key
    obtain ⟨seed, hknown, hpublic⟩ := hfound fd key rfl
    refine ((converges_tidy htemps).closing.frame (lasting_known seed) hknown).bind
      fun result w hw => ?_
    exact converges_adoptKey ⟨seed, hw.2, hpublic⟩

theorem converges_quiet_ask {op : KeyOp} (hop : op.quiet = true) :
    Converges sha512 i (fun _ _ => True) (ask op : KeyProg (KeyAnswer op)) w :=
  converges_ask (kept_true i) trivial
    (fun _ _ _ _ hdoes _ => ⟨(sameFiles_of_quiet hop hdoes).step, trivial⟩) fun _ _ _ => trivial

theorem converges_openDirectory : Converges sha512 i (fun _ _ => True) (openDirectory s) w := by
  refine (converges_quiet_ask rfl).bind fun answer w _ => ?_
  split
  · exact converges_raise
  · exact converges_pure trivial

theorem converges_makeDirectory :
    Converges sha512 i (fun opened _ => opened.1 = false → checkMode = true)
      (makeDirectory s checkMode) w := by
  have htrue : Kept sha512 i fun _ => True := kept_true i
  refine (converges_quiet_ask rfl).bind fun answer w _ => ?_
  split
  · split_ifs with hmode
    · exact converges_pure fun _ => hmode
    · refine (converges_quiet_ask rfl).bind fun made w _ => ?_
      split
      · exact converges_raise
      · refine converges_openDirectory.bind fun _ w _ => ?_
        refine Converges.after_quiet rfl htrue trivial fun _ w _ => ?_
        refine Converges.after_quiet rfl htrue trivial fun _ w _ => ?_
        exact converges_pure fun h => (by cases h)
  · exact converges_raise
  · exact converges_openDirectory.bind fun _ w _ => converges_pure fun h => (by cases h)

theorem converges_checkParent {rootUid : Nat} :
    Converges sha512 i (fun _ _ => True) (checkParent s rootUid) w := by
  refine (converges_quiet_ask rfl).bind fun answer w _ => ?_
  split
  · exact converges_raise
  · split_ifs
    · exact converges_raise
    · exact converges_pure trivial

theorem converges_converge {rootUid : Nat} (h : WellFormed w) :
    Converges sha512 i (SettledUnless sha512 checkMode) (converge sha512 s checkMode rootUid) w := by
  refine (converges_checkParent.frame lasting_wellFormed h).bind fun _ w hw => ?_
  refine (converges_makeDirectory.frame lasting_wellFormed hw.2).bind fun opened w hw => ?_
  obtain ⟨hopened, hwf⟩ := hw
  obtain ⟨opened, made⟩ := opened
  show Converges _ _ _ (if _ then _ else _) _
  split_ifs with hclosed
  · refine converges_pure fun hmode => ?_
    rw [hopened (by simpa using hclosed)] at hmode
    cases hmode
  · exact (converges_convergeInDirectory hwf).finally
      (fun result => (lasting_settledUnless result).kept i) (closes_directory i)

end SharedInfra.ChannelKey
