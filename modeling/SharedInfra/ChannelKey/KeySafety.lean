import SharedInfra.ChannelKey.KeyConvergence

/-!
# The signing key never changes

In every interleaving of runs, with any of them stopped at any point, the key that
was published once stays as it is (`signingKey_kept`), provided no run draws a
temporary name that was drawn before; `signingKey_torn` is why that is needed.
-/

namespace SharedInfra.ChannelKey

open Python Effects Prog

variable {ι : Type} {sha512 : Bytes → Bytes} {i : ι} {w w' : KeyWorld ι}

section Fresh

variable [DecidableEq ι] {start c : Config KeyOp KeyAnswer KeyError Result (KeyWorld ι) ι}
  {events : List (Event KeyOp KeyAnswer ι)}

omit [DecidableEq ι] in
theorem does_drawn {op : KeyOp} {a : KeyAnswer op} (h : Does i w op a w') :
    w.drawn <+: w'.drawn := by
  cases h <;> first | exact List.prefix_rfl | exact List.prefix_append _ _

theorem runs_drawn (h : Runs Does stopped start events c) : start.world.drawn <+: c.world.drawn := by
  induction h with
  | start => exact List.prefix_rfl
  | perform _ _ hdoes ih => exact ih.trans (does_drawn hdoes)
  | crash _ ih => exact ih

theorem runs_fresh (h : Runs Does stopped start events c)
    (hfresh : (c.world.drawn.map Prod.snd).Nodup) : Runs FreshDoes stopped start events c := by
  induction h with
  | start => exact .start
  | perform _ hrest hdoes ih =>
    have hbegins := (does_drawn hdoes).map Prod.snd
    exact .perform (ih (hfresh.sublist hbegins.sublist)) hrest ⟨hdoes, hfresh⟩
  | crash _ ih => exact .crash (ih hfresh)

end Fresh

section Runs

variable [DecidableEq ι]

omit [DecidableEq ι] in
theorem lasting_whole : Lasting sha512 fun w : KeyWorld ι =>
    WellFormed w ∧ (w.entries keyName = none ∨ ∃ seed, KeyIs w seed) := by
  rintro who w w' ⟨hw, h⟩ hstep
  refine ⟨hstep.wf hw, ?_⟩
  rcases h with h | ⟨seed, hseed⟩
  · cases hname : w'.entries keyName with
    | none => exact Or.inl rfl
    | some n =>
      rcases hstep.keyNew n hname with hold | ⟨_, seed, hlength, hcontent⟩
      · rw [h] at hold
        cases hold
      · exact Or.inr ⟨seed, hlength, n, hname, hcontent⟩
  · exact Or.inr ⟨seed, hseed.step hw hstep⟩

omit [DecidableEq ι] in
theorem Lasting.after {fact : KeyWorld ι → Prop} (h : Lasting sha512 fact) (hw : fact w)
    (hsteps : Relation.ReflTransGen (fun w w' => ∃ i, Step sha512 (some i) w w') w w') :
    fact w' := by
  induction hsteps with
  | refl => exact hw
  | tail _ hstep ih =>
    obtain ⟨j, hstep⟩ := hstep
    exact h _ _ _ ih hstep

/-- In any interleaving of runs, with any of them stopped at any point and no temporary name drawn
twice: the key once there stays the same file with the same content, is whole from the first, and
is what every run that returns has settled. -/
theorem signingKey_kept (sha512 : Bytes → Bytes) (settings : ι → Settings) (checkMode : ι → Bool)
    (rootUid : Nat) (start c c' : Config KeyOp KeyAnswer KeyError Result (KeyWorld ι) ι)
    (events events' : List (Event KeyOp KeyAnswer ι))
    (hprograms : ∀ i p, start.rest i = some p →
      p = converge sha512 (settings i) (checkMode i) rootUid)
    (hnames : ∀ name n, start.world.entries name = some n → n < start.world.next)
    (hdrawn : start.world.drawn = [])
    (hruns : Runs Does stopped start events c) (hmore : Runs Does stopped c events' c')
    (hfresh : (c'.world.drawn.map Prod.snd).Nodup) :
    (∀ n, c.world.entries keyName = some n → c'.world.entries keyName = some n ∧
      (c'.world.inodes n).content = (c.world.inodes n).content) ∧
    (start.world.entries keyName = none → ∀ n, c.world.entries keyName = some n →
      ∃ seed, seed.length = 32 ∧ (c.world.inodes n).content = b64encode seed ∧
        (c.world.inodes n).content.length = 44) ∧
    ∀ i result, checkMode i = false → c.rest i = some (done (.ok result)) →
      ∃ n m seed, seed.length = 32 ∧ c.world.entries keyName = some n ∧
        (c.world.inodes n).content = b64encode seed ∧
        result.publicKey = some (b64encode (derivePublic sha512 seed)) ∧
        c.world.entries pubName = some m ∧ (c.world.inodes m).kind = .regular ∧
        (c.world.inodes m).content = publicText (derivePublic sha512 seed) := by
  have hwf : WellFormed start.world := ⟨hnames, by simp [hdrawn]⟩
  have hcrash : ∀ (i : ι) w, Step sha512 (some i) w (stopped i w) := fun _ w => Step.refl w
  have hends : ∀ (i : ι) (r : Except KeyError Result), Stable (fun i => Step sha512 (some i)) i
      fun w => ∀ result, r = .ok result → SettledUnless sha512 (checkMode i) result w :=
    fun i r w w' h ⟨j, _, hstep⟩ result hr => lasting_settledUnless result _ _ _ (h result hr) hstep
  have hstart : ∀ i p, start.rest i = some p → p.Keeps FreshDoes (fun i => Step sha512 (some i)) i
      (fun r w => ∀ result, r = .ok result → SettledUnless sha512 (checkMode i) result w)
      start.world := by
    intro i p hp
    rw [hprograms i p hp]
    exact converges_converge hwf
  have hfreshRuns := runs_fresh hruns (hfresh.sublist ((runs_drawn hmore).map Prod.snd).sublist)
  have hkeeps := keeps_of_runs hcrash hends hstart hfreshRuns
  have hsteps := steps_of_runs hcrash hends hstart hfreshRuns
  have hsteps' := steps_of_runs hcrash hends hkeeps (runs_fresh hmore hfresh)
  have hwf' : WellFormed c.world := lasting_wellFormed.after hwf hsteps
  refine ⟨fun n hn => ?_, fun hnone n hn => ?_, fun i result hmode hrest => ?_⟩
  · have hlasting : Lasting sha512 fun w : KeyWorld ι => KeyAt n w ∧
        (w.inodes n).content = (c.world.inodes n).content :=
      fun who w w' ⟨hat, hcontent⟩ hstep => ⟨lasting_keyAt n who w w' hat hstep,
        (core_content (hstep.core_named hat.1 (Or.inl hat.2))).trans hcontent⟩
    obtain ⟨hat, hcontent⟩ := hlasting.after ⟨⟨hwf', hn⟩, rfl⟩ hsteps'
    exact ⟨hat.2, hcontent⟩
  · obtain ⟨_, hwhole⟩ := lasting_whole.after ⟨hwf, Or.inl hnone⟩ hsteps
    rcases hwhole with hwhole | ⟨seed, hlength, m, hm, hcontent⟩
    · rw [hwhole] at hn
      cases hn
    · rw [hn, Option.some.injEq] at hm
      subst hm
      refine ⟨seed, hlength, hcontent, ?_⟩
      rw [hcontent, length_b64encode, hlength]
  · obtain ⟨seed, ⟨_, ⟨hlength, n, hn, hcontent⟩, m, hm, hkind, hpublic⟩, hresult⟩ :=
      hkeeps i _ hrest result rfl hmode
    exact ⟨n, m, seed, hlength, hn, hcontent, hresult, hm, hkind, hpublic⟩

end Runs

def bytesAtOnce (i : Nat) (data : Bytes) : Nat := if i = 2 then 1 else data.length

/-- A host that fails nothing it need not fail; the run 2 writes one byte at a time, and all draws
are the same unless `distinct`. -/
def host (distinct : Bool) (i : Nat) : Handler KeyOp KeyAnswer (KeyWorld Nat)
  | w, .lstatParent => (.ok ⟨.directory, 2, 0, 0, 0, 0o755⟩, w)
  | w, .lstatDirectory => if w.made then (.ok (), w) else (.error .enoent, w)
  | w, .makeDirectory _ => (.error .eexist, w)
  | w, .openDirectory => if w.made then (.ok (), w) else (.error .enoent, w)
  | w, .closeDirectory => (.ok (), w)
  | w, .listDirectory =>
    (.ok ([keyName, pubName, keyTempPrefix ++ List.replicate 16 '0'].filter
      fun name => (w.entries name).isSome), w)
  | w, .statEntry name =>
    match w.entries name with
    | some n => (.ok (w.inodes n).kind, w)
    | none => (.error .enoent, w)
  | w, .statDirectory => (.ok w.directory, w)
  | w, .chownDirectory uid gid => (.ok (), { w with directory := { w.directory with uid := uid, gid := gid } })
  | w, .chmodDirectory mode => (.ok (), { w with directory := { w.directory with mode := mode } })
  | w, .syncDirectory => (.ok (), w)
  | w, .openEntry name =>
    match w.entries name with
    | some n => if (w.inodes n).kind ≠ .link then (.ok n, w) else (.error (.other "ELOOP"), w)
    | none => (.error .enoent, w)
  | w, .createEntry name mode =>
    if w.entries name = none then (.ok w.next, w.create i name mode) else (.error .eexist, w)
  | w, .statFile fd => (.ok (w.inodes fd).info, w)
  | w, .readFile fd limit => (.ok ((w.inodes fd).content.take limit), w)
  | w, .writeFile fd data =>
    if 0 < bytesAtOnce i data ∧ bytesAtOnce i data ≤ data.length then
      (.ok (bytesAtOnce i data),
        w.change fd fun f => { f with content := f.content ++ data.take (bytesAtOnce i data) })
    else (.error (.other "EIO"), w)
  | w, .chownFile fd uid gid => (.ok (), w.change fd fun f => { f with uid := uid, gid := gid })
  | w, .chmodFile fd mode => (.ok (), w.change fd fun f => { f with mode := mode })
  | w, .syncFile _ => (.ok (), w)
  | w, .closeFile _ => (.ok (), w)
  | w, .linkEntry source target =>
    match w.entries source with
    | some n =>
      if w.entries target = none then
        (.ok (), (w.change n fun f => { f with nlink := f.nlink + 1 }).name n target)
      else (.error .eexist, w)
    | none => (.error .enoent, w)
  | w, .unlinkEntry name =>
    match w.entries name with
    | some n =>
      if (w.inodes n).kind ≠ .directory then
        (.ok (), (w.change n fun f => { f with nlink := f.nlink - 1 }).remove name)
      else (.error (.other "EISDIR"), w)
    | none => (.error .enoent, w)
  | w, .renameEntry source target =>
    match w.entries source with
    | some n =>
      if w.entries target = none then (.ok (), (w.remove source).name n target)
      else (.error (.other "EIO"), w)
    | none => (.error .enoent, w)
  | w, .randomBytes count => (.ok (List.replicate count 7), w)
  | w, .randomHex count =>
    let hex := List.replicate (2 * count) (if distinct && !w.drawn.isEmpty then '1' else '0')
    (.ok hex, { w with drawn := w.drawn ++ [(i, hex)] })

theorem does_host (distinct : Bool) (i : Nat) (w : KeyWorld Nat) (op : KeyOp) :
    Does i w op (host distinct i w op).1 (host distinct i w op).2 := by
  cases op with
  | lstatDirectory | openDirectory =>
    rw [host]
    split_ifs with h
    · first | exact .lstatDirectory h | exact .openDirectory h
    · exact .failed
  | statEntry =>
    rw [host]
    split
    · exact .statEntry ‹_›
    · exact .failed
  | openEntry =>
    rw [host]
    split
    · split_ifs with h
      · exact .openEntry ‹_› h
      · exact .failed
    · exact .failed
  | createEntry =>
    rw [host]
    split_ifs with h
    · exact .createEntry h
    · exact .failed
  | writeFile =>
    rw [host]
    split_ifs with h
    · exact .writeFile h.1 h.2
    · exact .failed
  | linkEntry =>
    rw [host]
    split
    · split_ifs with h
      · exact .linkEntry ‹_› h
      · exact .failed
    · exact .failed
  | unlinkEntry =>
    rw [host]
    split
    · split_ifs with h
      · exact .unlinkEntry ‹_› h
      · exact .failed
    · exact .failed
  | renameEntry =>
    rw [host]
    split
    · split_ifs with h
      · exact .renamed ‹_› h
      · exact .failed
    · exact .failed
  | randomBytes => exact .randomBytes (by simp)
  | randomHex =>
    refine .randomHex (by simp) fun c hc => ?_
    rw [List.eq_of_mem_replicate hc]
    split_ifs <;> decide
  | _ => constructor

/-- Runs of one account over a directory that holds nothing yet. -/
def emptyDirectory : Config KeyOp KeyAnswer KeyError Result (KeyWorld Nat) Nat where
  world := ⟨true, ⟨.directory, 2, 0, 0, 0, dirMode⟩, fun _ => none,
    fun _ => ⟨.regular, [], 0, 0, 0, 0, none⟩, 0, []⟩
  rest _ := some (converge (fun _ => []) ⟨"/etc/branchleft/content-safety", 0, 0⟩ false 0)

/-- The result of a run that has returned. -/
def resultOf : Option (KeyProg Result) → Option Result
  | some (done (.ok result)) => some result
  | _ => none

theorem eq_of_resultOf {p : Option (KeyProg Result)} {result : Result}
    (h : resultOf p = some result) : p = some (done (.ok result)) := by
  unfold resultOf at h
  split at h
  · rw [Option.some.inj h]
  · cases h

theorem signingKey_kept_alone :
    ∃ (c : Config KeyOp KeyAnswer KeyError Result (KeyWorld Nat) Nat) (result : Result),
      c.rest 0 = some (done (.ok result)) ∧ ∃ n m seed, seed.length = 32 ∧
        c.world.entries keyName = some n ∧ (c.world.inodes n).content = b64encode seed ∧
        result.publicKey = some (b64encode (derivePublic (fun _ => []) seed)) ∧
        c.world.entries pubName = some m ∧ (c.world.inodes m).kind = .regular ∧
        (c.world.inodes m).content = publicText (derivePublic (fun _ => []) seed) := by
  have hbegin : Runs Does stopped emptyDirectory [] emptyDirectory := .start
  obtain ⟨events, hruns⟩ := runs_follow (does_host true) (List.replicate 30 0) hbegin
  have hreturned : (resultOf
      ((follow (host true) (List.replicate 30 0) emptyDirectory).rest 0)).isSome = true := by
    decide +kernel
  obtain ⟨result, hresult⟩ := Option.isSome_iff_exists.mp hreturned
  replace hresult := eq_of_resultOf hresult
  refine ⟨_, result, hresult, ?_⟩
  refine (signingKey_kept (fun _ => []) (fun _ => ⟨"/etc/branchleft/content-safety", 0, 0⟩)
    (fun _ => false) 0 emptyDirectory _ _ events [] (fun i p hp => (Option.some.inj hp).symm)
    (fun name n hn => by cases hn) rfl hruns .start ?_).2.2 0 result rfl hresult
  decide +kernel

/-- Three runs of which the third draws the temporary name the first drew, after the second took
it away: the first publishes the third's file while one byte of it is written. -/
theorem signingKey_torn :
    ∃ (c : Config KeyOp KeyAnswer KeyError Result (KeyWorld Nat) Nat)
      (events : List (Event KeyOp KeyAnswer Nat)),
      Runs Does stopped emptyDirectory events c ∧ emptyDirectory.world.entries keyName = none ∧
      ∃ n, c.world.entries keyName = some n ∧ (c.world.inodes n).content.length = 1 := by
  have hbegin : Runs Does stopped emptyDirectory [] emptyDirectory := .start
  obtain ⟨events, hruns⟩ := runs_follow (does_host false)
    (List.replicate 14 0 ++ List.replicate 8 1 ++ List.replicate 12 2 ++ [0]) hbegin
  exact ⟨_, events, hruns, rfl, 1, by decide +kernel, by decide +kernel⟩

end SharedInfra.ChannelKey
