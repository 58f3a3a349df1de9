import SharedInfra.MailStack.EnvironmentFile

/-!
# Stopped and repeated runs of the environment file module

What a run of `shim` leaves, wherever it is stopped, and what it reports, depends on the text that
it reads at the path (`placeText`).  A run of `mint` leaves a file that is there as it is; only
between the creation and the write is there something that the next run refuses (`HalfMade`).
-/

namespace SharedInfra.MailStack

open Python Effects Prog Mail Relation

section Reading

variable {credentials : Option Bytes} {w v : Place} {path : Str} {P : Place → Prop}
variable {op : FileOp} {step : Place → FileOp → Prop}

def Place.Utf8 (w : Place) : Prop :=
  ∀ f, w.file = some f → f.regular = true ∧ ∃ text, f.bytes = utf8Encode text

/-- What `read_text` makes of the file. -/
def Place.current (w : Place) : Option Str :=
  w.file.bind fun f => (utf8Decode f.bytes).map universalNewlines

/-- The file has the text and is closed to others. -/
def Place.Holds (w : Place) (text : Str) : Prop :=
  ∃ f, w.file = some f ∧ f.bytes = utf8Encode text ∧ f.mode % 0o1000 = fileMode

theorem current_of_file {f : EnvFile} {text : Str} (hfile : w.file = some f)
    (hbytes : f.bytes = utf8Encode text) : w.current = some (universalNewlines text) := by
  rw [Place.current, hfile, Option.bind_some, hbytes, utf8Decode_encode]
  rfl

theorem decoded_encode (text : Str) : decoded (utf8Encode text) = .ok (universalNewlines text) := by
  rw [decoded, utf8Decode_encode]

theorem along_call {a : Returns op}
    (h : handle credentials w op = (.ok a, v)) (hstep : step w op) :
    (call op).Along (handle credentials) step (fun r v' => r = .ok a ∧ v' = v) w := by
  refine ⟨hstep, ?_⟩
  rw [h]
  exact ⟨rfl, rfl⟩

theorem along_call_kept
    (h : (handle credentials w op).2 = w) (hstep : step w op) :
    (call op).Along (handle credentials) step (fun _ v => v = w) w := by
  refine ⟨hstep, ?_⟩
  rw [h]
  cases (handle credentials w op).1 <;> exact rfl

theorem along_call_bind {α : Type} {a : Returns op}
    {f : Returns op → Run α} {Q : Except EnvFileError α → Place → Prop}
    (h : handle credentials w op = (.ok a, v)) (hstep : step w op)
    (hnext : (f a).Along (handle credentials) step Q v) :
    (call op >>= f).Along (handle credentials) step Q w := by
  refine Along.bind (along_call h hstep) (fun a' v' hpost => ?_) fun e v' hpost => by cases hpost.1
  obtain ⟨ha, rfl⟩ := hpost
  obtain rfl := Except.ok.inj ha
  exact hnext

theorem along_readText (hw : w.Utf8) (hP : P w) :
    (readText path).Along (handle credentials) (fun v _ => P v)
      (fun r v => r = .ok w.current ∧ v = w) w := by
  cases hfile : w.file with
  | none =>
    have hcurrent : w.current = none := by rw [Place.current, hfile]; rfl
    refine along_call_bind (a := false) (by rw [handle, hfile]; rfl) hP ?_
    exact ⟨by rw [hcurrent], rfl⟩
  | some f =>
    obtain ⟨hregular, text, hbytes⟩ := hw f hfile
    refine along_call_bind (a := true) (by rw [handle, hfile]; rfl) hP ?_
    refine along_call_bind (a := true) (by rw [handle, hfile, Option.any_some, hregular]) hP ?_
    have hread : handle credentials w .read = (.ok (universalNewlines text), w) := by
      rw [handle, hfile]
      simp only [hbytes, decoded_encode]
    have hcaught : ((call .read).catchWith fun _ => raise (.unreadable path) : Run Str).Along
        (handle credentials) (fun v _ => P v)
        (fun r v => r = .ok (universalNewlines text) ∧ v = w) w :=
      Along.catchWith (along_call hread hP) (fun _ _ h => h) fun e v h => by cases h.1
    refine Along.bind hcaught ?_ fun e v h => by cases h.1
    rintro a v ⟨ha, rfl⟩
    obtain rfl := Except.ok.inj ha
    exact ⟨by rw [current_of_file hfile hbytes], rfl⟩

theorem along_readCredentials (hP : P w) :
    (readCredentials path).Along (handle credentials) (fun v _ => P v) (fun _ v => v = w) w := by
  cases credentials with
  | none => exact ⟨hP, rfl⟩
  | some bytes =>
    refine ⟨hP, ?_⟩
    exact Along.catchWith (@along_call_kept _ _ .readCredentials _ rfl hP) (fun _ _ h => h)
      fun _ _ h => h

theorem along_shimText {r : ShimRequest} (hP : P w) :
    (shimText r).Along (handle credentials) (fun v _ => P v) (fun _ v => v = w) w := by
  refine Along.bind (Q := fun _ v => v = w) rfl (fun contract v hv => ?_) fun _ _ h => h
  obtain rfl := hv
  refine Along.bind (Q := fun _ v' => v' = v) ?_ (fun token v' hv' => ?_) fun _ _ h => h
  · refine Along.bind (along_readCredentials hP) (fun _ v' hv' => hv') fun _ _ h => h
  · obtain rfl := hv'
    cases token <;> exact rfl

end Reading

section Shim

variable {credentials : Option Bytes} {w v : Place} {path text : Str} {checkMode : Bool}

/-- The file that `shim` writes. -/
def written (text : Str) : EnvFile := ⟨true, utf8Encode text, fileMode⟩

/-- The old file, or the new one whole. -/
def Whole (w : Place) (text : Str) (v : Place) : Prop :=
  v.file = w.file ∨ v.file = some (written text)

/-- `changed`, as `shim` finds it. -/
def Place.differs (w : Place) (text : Str) : Bool :=
  decide (w.current ≠ some text) || !(w.file.any fun f => decide (f.mode % 0o1000 = fileMode))

theorem along_replaceAtomic : (replaceAtomic text).Along (handle credentials)
    (fun v _ => v.file = w.file) (fun r v => r = .ok () ∧ v.file = some (written text)) w :=
  ⟨rfl, rfl, rfl, rfl, rfl, rfl, rfl⟩

variable (sha256 : Bytes → Str)

theorem along_placeText (hw : w.Utf8) :
    (placeText sha256 path text checkMode).Along (handle credentials) (fun v _ => Whole w text v)
      (fun r v => r = .ok ⟨w.differs text, sha256Of sha256 text⟩ ∧
        v.file = if w.differs text && !checkMode then some (written text) else w.file) w := by
  have hstart : Whole w text w := Or.inl rfl
  refine Along.bind (along_readText hw hstart) ?_ fun e v h => by cases h.1
  rintro current v ⟨hcurrent, rfl⟩
  obtain rfl := Except.ok.inj hcurrent
  refine Along.bind (Q := fun r u => u = v ∧
    r = .ok (v.file.any fun f => decide (f.mode % 0o1000 = fileMode))) ?_ ?_ ?_
  · cases hfile : v.file with
    | none =>
      have hnone : v.current = none := by rw [Place.current, hfile]; rfl
      rw [hnone]
      exact ⟨rfl, rfl⟩
    | some f =>
      obtain ⟨-, t, hbytes⟩ := hw f hfile
      rw [current_of_file hfile hbytes]
      refine along_call_bind (a := f.mode) (by rw [handle, hfile]) hstart ?_
      exact ⟨rfl, rfl⟩
  · rintro modeOk u ⟨rfl, hmode⟩
    obtain rfl := Except.ok.inj hmode
    change Along _ _ _ (replaceWhere (u.differs text && !checkMode) text >>= fun _ =>
      (pure ⟨u.differs text, sha256Of sha256 text⟩ : Run ShimReport)) u
    rw [replaceWhere]
    split_ifs with hwrite
    · refine Along.bind (along_replaceAtomic.mono (fun _ _ h => Or.inl h) fun _ _ h => h) ?_
        fun e v h => by cases h.1
      rintro - u' ⟨-, hfile⟩
      exact ⟨rfl, hfile⟩
    · exact ⟨rfl, rfl⟩
  · rintro e u ⟨-, h⟩
    cases h

variable {r : ShimRequest}

theorem along_shim (hw : w.Utf8) (htext : (shimText r).run (handle credentials) w = (.ok text, w)) :
    (shim sha256 r checkMode).Along (handle credentials) (fun v _ => Whole w text v)
      (fun r v => r = .ok ⟨w.differs text, sha256Of sha256 text⟩ ∧
        v.file = if w.differs text && !checkMode then some (written text) else w.file) w := by
  refine Along.bind (along_shimText (Or.inl rfl)).run ?_ ?_
  · rintro text' v ⟨rfl, hrun⟩
    rw [htext] at hrun
    obtain rfl := Except.ok.inj (Prod.mk.inj hrun).1
    exact along_placeText sha256 hw
  · rintro e v ⟨-, hrun⟩
    rw [htext] at hrun
    cases hrun

/-- At mode 0600 the file's text, read, is the one to write only where its bytes are. -/
def ShimFits (w : Place) (text : Str) : Prop :=
  ∀ f t, w.file = some f → f.bytes = utf8Encode t → f.mode % 0o1000 = fileMode →
    (universalNewlines t = text ↔ t = text)

theorem differs_eq_false_iff : w.differs text = false ↔
    w.current = some text ∧ ∃ f, w.file = some f ∧ f.mode % 0o1000 = fileMode := by
  rw [Place.differs, Bool.or_eq_false_iff, decide_eq_false_iff_not, not_not,
    Bool.not_eq_false', Option.any_eq_true]
  simp only [decide_eq_true_eq]

theorem differs_iff_holds (hw : w.Utf8) :
    (w.differs text = false ↔ w.Holds text) ↔ ShimFits w text := by
  rw [differs_eq_false_iff]
  constructor
  · intro h f t hfile hbytes hmode
    have hcurrent := current_of_file hfile hbytes
    constructor
    · intro hread
      obtain ⟨f', hfile', hbytes', -⟩ := h.mp ⟨by rw [hcurrent, hread], f, hfile, hmode⟩
      obtain rfl := Option.some.inj (hfile.symm.trans hfile')
      exact utf8Encode_injective (hbytes.symm.trans hbytes')
    · rintro rfl
      obtain ⟨hread, -⟩ := h.mpr ⟨f, hfile, hbytes, hmode⟩
      exact Option.some.inj (hcurrent.symm.trans hread)
  · intro h
    constructor
    · rintro ⟨hread, f, hfile, hmode⟩
      obtain ⟨-, t, hbytes⟩ := hw f hfile
      rw [current_of_file hfile hbytes] at hread
      have ht := (h f t hfile hbytes hmode).mp (Option.some.inj hread)
      exact ⟨f, hfile, ht ▸ hbytes, hmode⟩
    · rintro ⟨f, hfile, hbytes, hmode⟩
      have hread := (h f text hfile hbytes hmode).mpr rfl
      exact ⟨by rw [current_of_file hfile hbytes, hread], f, hfile, hmode⟩

/-- What `shim` promises of the text it renders, for the file as it is. -/
structure ShimHolds (credentials : Option Bytes) (r : ShimRequest) (text : Str) (w : Place) :
    Prop where
  ends : ∃ report w', (shim sha256 r false).run (handle credentials) w = (.ok report, w') ∧
    w'.Holds text ∧ (report.changed = false ↔ w.Holds text)
  whole : ∀ v ∈ (shim sha256 r false).stops (handle credentials) w, Whole w text v

variable {sha256}

theorem shimHolds_iff_fits (hw : w.Utf8)
    (htext : (shimText r).run (handle credentials) w = (.ok text, w)) :
    ShimHolds sha256 credentials r text w ↔ ShimFits w text := by
  have halong : (shim sha256 r false).Along (handle credentials) _ _ w := along_shim sha256 hw htext
  obtain ⟨hreport, hfile⟩ := halong.ends
  generalize hrun : (shim sha256 r false).run (handle credentials) w = outcome at hreport hfile
  obtain ⟨result, w'⟩ := outcome
  obtain rfl := hreport
  rw [← differs_iff_holds hw]
  constructor
  · rintro ⟨⟨report, v, hrun', -, hchanged⟩, -⟩
    obtain ⟨hreport, -⟩ := Prod.mk.inj (hrun.symm.trans hrun')
    obtain rfl := Except.ok.inj hreport
    exact hchanged
  · refine fun h => ⟨⟨_, _, hrun, ?_, h⟩, fun v hv => ?_⟩
    · cases hdiffers : w.differs text with
      | false =>
        simp only [hdiffers, Bool.false_and, Bool.false_eq_true, if_false] at hfile
        obtain ⟨f, hf, hholds⟩ := h.mp hdiffers
        exact ⟨f, hfile.trans hf, hholds⟩
      | true =>
        simp only [hdiffers, Bool.not_false, Bool.and_self, if_true] at hfile
        exact ⟨written text, hfile, rfl, rfl⟩
    · rcases halong.stop hv with ⟨-, hwhole⟩ | ⟨_, -, hend⟩
      · exact hwhole
      · rw [Whole, hend]
        split_ifs
        · exact Or.inr rfl
        · exact Or.inl rfl

end Shim

section Mint

variable {credentials : Option Bytes} {w v w' : Place} {path key : Str} {secret : Secret}
  {checkMode : Bool} {sha256 : Bytes → Str}

/-- The file between its creation and the write. -/
def HalfMade (w : Place) : Prop := w.file = some ⟨true, [], fileMode⟩

/-- The file is as it was, or it was not there and has been created. -/
def Minting (w : Place) (text : Str) (v : Place) : Prop :=
  v.file = w.file ∨ w.file = none ∧ (HalfMade v ∨ v.file = some (written text))

/-- What `mint` reports of a file it reads. -/
def mintOutcome (sha256 : Bytes → Str) (path key : Str) (secret : Secret) (checkMode : Bool)
    (current : Option Str) : Except EnvFileError MintReport :=
  if !isKey key then .error .badKey
  else match current with
    | some existing =>
      if validForKey existing key then .ok ⟨false, false, true, sha256Of sha256 existing⟩
      else .error (.wrongLines path key)
    | none =>
      if checkMode then .ok ⟨true, false, true, []⟩
      else .ok ⟨true, true, true, sha256Of sha256 (mintText key secret)⟩

theorem file_of_current_none (hw : w.Utf8) : w.current = none ↔ w.file = none := by
  cases hfile : w.file with
  | none => exact iff_of_true (by rw [Place.current, hfile]; rfl) rfl
  | some f =>
    obtain ⟨-, t, hbytes⟩ := hw f hfile
    rw [current_of_file hfile hbytes]
    exact iff_of_false (by simp) (by simp)

theorem along_createExclusive (hnone : w.file = none) :
    (createExclusive path (mintText key secret)).Along (handle credentials)
      (fun v _ => Minting w (mintText key secret) v)
      (fun r v => r = .ok () ∧ v.file = some (written (mintText key secret))) w := by
  obtain ⟨file, temporaries⟩ := w
  obtain rfl : file = none := hnone
  exact ⟨Or.inl rfl, Or.inr ⟨rfl, Or.inl rfl⟩, Or.inr ⟨rfl, Or.inr rfl⟩, rfl, rfl⟩

variable (credentials path key secret checkMode sha256) in
theorem along_mint (hw : w.Utf8) :
    (mint sha256 path key secret checkMode).Along (handle credentials)
      (fun v _ => Minting w (mintText key secret) v)
      (fun r v => r = mintOutcome sha256 path key secret checkMode w.current ∧
        v.file = if isKey key && w.file.isNone && !checkMode then some (written (mintText key secret))
          else w.file) w := by
  unfold mint mintOutcome
  by_cases hkey : isKey key = true
  swap
  · simp only [Bool.not_eq_true] at hkey
    simp only [hkey, Bool.not_false, if_true, Bool.false_and, Bool.false_eq_true, if_false]
    exact ⟨rfl, rfl⟩
  simp only [hkey, Bool.not_true, Bool.false_eq_true, if_false, Bool.true_and]
  refine Along.bind (along_readText hw (Or.inl rfl)) ?_ fun e v h => by cases h.1
  rintro current v ⟨hcurrent, rfl⟩
  obtain rfl := Except.ok.inj hcurrent
  cases hread : v.current with
  | some existing =>
    have hfile : v.file.isNone = false := by
      rw [Option.isNone_eq_false_iff, Option.isSome_iff_ne_none, ne_eq, ← file_of_current_none hw,
        hread]
      exact Option.some_ne_none existing
    simp only [hfile, Bool.false_and, Bool.false_eq_true, if_false]
    split_ifs <;> exact ⟨rfl, rfl⟩
  | none =>
    have hfile := (file_of_current_none hw).mp hread
    simp only [hfile, Option.isNone_none, Bool.true_and]
    cases checkMode with
    | true => exact ⟨rfl, hfile⟩
    | false =>
      simp only [Bool.false_eq_true, if_false, Bool.not_false, if_true]
      refine Along.bind (along_createExclusive hfile) ?_ fun e v h => by cases h.1
      rintro - v' ⟨-, hwritten⟩
      exact ⟨rfl, hwritten⟩

theorem isKey_of_ok {report : MintReport} {current : Option Str}
    (h : mintOutcome sha256 path key secret checkMode current = .ok report) : isKey key = true := by
  by_contra hkey
  simp only [Bool.not_eq_true] at hkey
  simp only [mintOutcome, hkey, Bool.not_false, if_true] at h
  cases h

theorem plain_of_isKey (h : isKey key = true) : ∀ c ∈ key, isSpace c = false ∧ c ≠ '=' := by
  have hchar : ∀ c : Char, (c.isUpper || c.isDigit || c == '_') = true →
      isSpace c = false ∧ c ≠ '=' := by
    intro c hc
    have hrange : 48 ≤ c.toNat ∧ c.toNat ≤ 95 ∧ c.toNat ≠ 61 := by
      rw [Bool.or_eq_true, Bool.or_eq_true, beq_iff_eq] at hc
      rcases hc with (hupper | hdigit) | rfl
      · have := toNat_of_isUpper hupper
        omega
      · have := toNat_of_isDigit hdigit
        omega
      · decide
    refine ⟨isSpace_of_graphic (by omega) (by omega), ?_⟩
    rintro rfl
    exact hrange.2.2 rfl
  cases key with
  | nil => cases h
  | cons c rest =>
    rw [isKey, Bool.and_eq_true, List.all_eq_true] at h
    refine List.forall_mem_cons.mpr ⟨hchar c ?_, fun d hd => hchar d (h.2 d hd)⟩
    rw [h.1]
    rfl

theorem plain_of_secret (secret : Secret) : ∀ c ∈ secret.1, isSpace c = false := by
  have hall : (alphanumeric.all fun c => !isSpace c) = true := by
    delta alphanumeric
    simp only [toList_literal]
    rfl
  exact fun c hc => by simpa using List.all_eq_true.mp hall c (secret.2.2 c hc)

theorem noSpace_mintText (hkey : isKey key = true) :
    ∀ c ∈ key ++ '=' :: secret.1, isSpace c = false := by
  rintro c hc
  rcases List.mem_append.mp hc with hc | hc
  · exact (plain_of_isKey hkey c hc).1
  · rcases List.mem_cons.mp hc with rfl | hc
    · decide
    · exact plain_of_secret secret c hc

theorem validForKey_mintText (hkey : isKey key = true) :
    validForKey (mintText key secret) key = true := by
  have hlines : splitlines (mintText key secret) = [key ++ '=' :: secret.1] := by
    rw [mintText, splitlines_append_newline]
    · rfl
    · exact fun c hc => isLineBreak_of_noSpace (noSpace_mintText hkey c hc)
  have hne : ∀ c ∈ key, (c != '=') = true := fun c hc =>
    bne_iff_ne.mpr (plain_of_isKey hkey c hc).2
  have htake : (key ++ '=' :: secret.1).takeWhile (· != '=') = key := by
    rw [List.takeWhile_append_of_pos hne, List.takeWhile_cons_of_neg (by decide), List.append_nil]
  have hdrop : (key ++ '=' :: secret.1).dropWhile (· != '=') = '=' :: secret.1 := by
    rw [List.dropWhile_append_of_pos hne, List.dropWhile_cons_of_neg (by decide)]
  have hkeystrip : strip key = key := strip_of_noSpace fun c hc => (plain_of_isKey hkey c hc).1
  have hsecret : strip secret.1 ≠ [] := by
    rw [strip_of_noSpace (plain_of_secret secret)]
    intro hnil
    have hlength := secret.2.1
    rw [hnil] at hlength
    cases hlength
  have hmatch : (decide (strip ((key ++ '=' :: secret.1).takeWhile (· != '=')) = key) &&
      (key ++ '=' :: secret.1).contains '=') = true := by
    rw [htake, hkeystrip, decide_eq_true rfl, Bool.true_and, List.contains_iff_mem]
    exact List.mem_append_right _ List.mem_cons_self
  have hfilter : (splitlines (mintText key secret)).filter (fun line =>
      decide (strip (line.takeWhile (· != '=')) = key) && line.contains '=') =
        [key ++ '=' :: secret.1] := by
    rw [hlines]
    exact List.filter_cons_of_pos hmatch
  rw [validForKey, hfilter]
  simp only [hdrop]
  exact decide_eq_true hsecret

theorem universalNewlines_mintText (hkey : isKey key = true) :
    universalNewlines (mintText key secret) = mintText key secret := by
  refine universalNewlines_of_not_mem fun hmem => ?_
  rcases List.mem_append.mp hmem with hmem | hmem
  · exact absurd (noSpace_mintText hkey _ hmem) (by decide)
  · exact absurd hmem (by decide)

theorem validForKey_nil : validForKey [] key = false := rfl

/-- The file that `mint` reads holds no carriage return. -/
def PlainLines (w : Place) : Prop :=
  ∀ f t, w.file = some f → f.bytes = utf8Encode t → '\r' ∉ t

/-- One run of `mint` on the path, to its end or stopped. -/
def MintStep (path : Str) (w v : Place) : Prop :=
  ∃ (sha256 : Bytes → Str) (credentials : Option Bytes) (key : Str) (secret : Secret)
    (checkMode : Bool), v ∈ (mint sha256 path key secret checkMode).stops (handle credentials) w

/-- One run of `shim` on the path, to its end or stopped. -/
def ShimStep (path : Str) (w v : Place) : Prop :=
  ∃ (sha256 : Bytes → Str) (credentials : Option Bytes) (r : ShimRequest) (checkMode : Bool),
    r.path = path ∧ v ∈ (shim sha256 r checkMode).stops (handle credentials) w

/-- What `mint` promises, for the file as it is. -/
structure MintHolds (sha256 : Bytes → Str) (credentials : Option Bytes) (path key : Str)
    (w : Place) : Prop where
  kept : ∀ f secret checkMode, w.file = some f →
    ∀ v ∈ (mint sha256 path key secret checkMode).stops (handle credentials) w, v.file = some f
  created : ∀ secret checkMode report w',
    (mint sha256 path key secret checkMode).run (handle credentials) w = (.ok report, w') →
    report.created = true → w'.file = some (written (mintText key secret)) ∧
      ∀ v, ReflTransGen (MintStep path) w' v → v.file = w'.file
  hashed : PlainLines w → ∀ secret checkMode report w' f,
    (mint sha256 path key secret checkMode).run (handle credentials) w = (.ok report, w') →
    w'.file = some f → report.sha256 = sha256 f.bytes
  recovers : ∀ secret checkMode report w',
    (mint sha256 path key secret checkMode).run (handle credentials) w = (.ok report, w') →
    ∀ v ∈ (mint sha256 path key secret checkMode).stops (handle credentials) w,
      (∀ secret' checkMode', ∃ report' v', (mint sha256 path key secret' checkMode').run
        (handle credentials) v = (.ok report', v')) ↔ ¬ HalfMade v

theorem minting_of_stop (hw : w.Utf8)
    (hv : v ∈ (mint sha256 path key secret checkMode).stops (handle credentials) w) :
    Minting w (mintText key secret) v := by
  rcases (along_mint credentials path key secret checkMode sha256 hw).stop hv with ⟨-, h⟩ | ⟨_, -, hend⟩
  · exact h
  · split_ifs at hend with hwrite
    · rw [Bool.and_eq_true, Bool.and_eq_true, Option.isNone_iff_eq_none] at hwrite
      exact Or.inr ⟨hwrite.1.2, Or.inr hend⟩
    · exact Or.inl hend

theorem utf8_of_file (hw : w.Utf8) (h : v.file = w.file) : v.Utf8 := fun f hf => hw f (h ▸ hf)

theorem utf8_of_written {text : Str} (h : v.file = some (written text)) : v.Utf8 := by
  intro f hf
  obtain rfl := Option.some.inj (h.symm.trans hf)
  exact ⟨rfl, text, rfl⟩

theorem utf8_of_halfMade (h : HalfMade v) : v.Utf8 := by
  intro f hf
  obtain rfl := Option.some.inj (h.symm.trans hf)
  exact ⟨rfl, [], rfl⟩

theorem utf8_of_minting {text : Str} (hw : w.Utf8) (h : Minting w text v) : v.Utf8 := by
  rcases h with hfile | ⟨-, hhalf | hwritten⟩
  · exact utf8_of_file hw hfile
  · exact utf8_of_halfMade hhalf
  · exact utf8_of_written hwritten

theorem utf8_of_mintSteps (hw : w.Utf8) (h : ReflTransGen (MintStep path) w v) : v.Utf8 := by
  induction h with
  | refl => exact hw
  | tail _ hstep ih =>
    obtain ⟨_, _, _, _, _, hstop⟩ := hstep
    exact utf8_of_minting ih (minting_of_stop ih hstop)

theorem file_of_mintSteps {f : EnvFile} (hw : w.Utf8) (hfile : w.file = some f)
    (h : ReflTransGen (MintStep path) w v) : v.file = some f := by
  induction h with
  | refl => exact hfile
  | tail hsteps hstep ih =>
    obtain ⟨_, _, _, _, _, hstop⟩ := hstep
    rcases minting_of_stop (utf8_of_mintSteps hw hsteps) hstop with hkept | ⟨hnone, -⟩
    · exact hkept.trans ih
    · rw [ih] at hnone
      cases hnone

theorem created_of_run (hw : w.Utf8) {report : MintReport}
    (hrun : (mint sha256 path key secret checkMode).run (handle credentials) w = (.ok report, w'))
    (hcreated : report.created = true) : w'.file = some (written (mintText key secret)) := by
  obtain ⟨houtcome, hfile⟩ := (along_mint credentials path key secret checkMode sha256 hw).ends
  rw [hrun] at houtcome hfile
  have hkey := isKey_of_ok houtcome.symm
  simp only [mintOutcome, hkey, Bool.not_true, Bool.false_eq_true, if_false] at houtcome
  cases hread : w.current with
  | some existing =>
    rw [hread] at houtcome
    simp only at houtcome
    split_ifs at houtcome
    obtain rfl := Except.ok.inj houtcome
    cases hcreated
  | none =>
    rw [hread] at houtcome
    simp only at houtcome
    split_ifs at houtcome with hcheck
    · obtain rfl := Except.ok.inj houtcome
      cases hcreated
    · rw [hfile, hkey, (file_of_current_none hw).mp hread]
      simp [hcheck]

theorem hashed_of_run (hw : w.Utf8) (hplain : PlainLines w) {report : MintReport} {f : EnvFile}
    (hrun : (mint sha256 path key secret checkMode).run (handle credentials) w = (.ok report, w'))
    (hfile' : w'.file = some f) : report.sha256 = sha256 f.bytes := by
  obtain ⟨houtcome, hfile⟩ := (along_mint credentials path key secret checkMode sha256 hw).ends
  rw [hrun] at houtcome hfile
  have hkey := isKey_of_ok houtcome.symm
  simp only [mintOutcome, hkey, Bool.not_true, Bool.false_eq_true, if_false] at houtcome
  cases hfound : w.file with
  | some g =>
    obtain ⟨-, t, hbytes⟩ := hw g hfound
    rw [hfound, Option.isNone_some, Bool.and_false, Bool.false_and, if_neg Bool.false_ne_true,
      hfile'] at hfile
    obtain rfl := Option.some.inj hfile
    rw [current_of_file hfound hbytes, universalNewlines_of_not_mem (hplain f t hfound hbytes)]
      at houtcome
    simp only at houtcome
    split_ifs at houtcome
    obtain rfl := Except.ok.inj houtcome
    exact congrArg sha256 hbytes.symm
  | none =>
    rw [(file_of_current_none hw).mpr hfound] at houtcome
    rw [hfound, hkey] at hfile
    simp only at houtcome
    split_ifs at houtcome with hcheck
    · simp only [hcheck, Bool.not_true, Bool.and_false, Bool.false_eq_true, if_false] at hfile
      rw [hfile] at hfile'
      cases hfile'
    · simp only [Option.isNone_none, Bool.and_self, hcheck, Bool.not_false, if_true] at hfile
      obtain rfl := Option.some.inj (hfile.symm.trans hfile')
      obtain rfl := Except.ok.inj houtcome
      rfl

theorem mintOutcome_ok_iff {current : Option Str} :
    (∃ report, mintOutcome sha256 path key secret checkMode current = .ok report) ↔
      isKey key = true ∧ ∀ existing, current = some existing → validForKey existing key = true := by
  unfold mintOutcome
  cases hkey : isKey key with
  | false => exact iff_of_false (fun ⟨_, h⟩ => by cases h) fun h => by cases h.1
  | true =>
    simp only [Bool.not_true, Bool.false_eq_true, if_false, true_and]
    cases current with
    | none =>
      refine iff_of_true ?_ fun existing h => by cases h
      cases checkMode <;> exact ⟨_, rfl⟩
    | some existing =>
      cases hvalid : validForKey existing key with
      | false =>
        refine iff_of_false (by simp [hvalid]) fun h => ?_
        rw [h existing rfl] at hvalid
        cases hvalid
      | true =>
        refine iff_of_true (by simp [hvalid]) fun existing' h => ?_
        rw [← Option.some.inj h, hvalid]

theorem runs_iff (hw : w.Utf8) :
    (∃ report v, (mint sha256 path key secret checkMode).run (handle credentials) w =
      (.ok report, v)) ↔
      isKey key = true ∧ ∀ existing, w.current = some existing →
        validForKey existing key = true := by
  refine Iff.trans ?_ (mintOutcome_ok_iff : (∃ report, mintOutcome sha256 path key secret checkMode
    w.current = .ok report) ↔ _)
  have houtcome := (along_mint credentials path key secret checkMode sha256 hw).ends.1
  constructor
  · rintro ⟨report, v, hrun⟩
    rw [hrun] at houtcome
    exact ⟨report, houtcome.symm⟩
  · rintro ⟨report, hreport⟩
    exact ⟨report, _, Prod.ext (houtcome.trans hreport) rfl⟩

theorem recovers_iff_not_halfMade (hw : w.Utf8) {report : MintReport}
    (hrun : (mint sha256 path key secret checkMode).run (handle credentials) w = (.ok report, w'))
    (hv : v ∈ (mint sha256 path key secret checkMode).stops (handle credentials) w) :
    (∀ secret' checkMode', ∃ report' v', (mint sha256 path key secret' checkMode').run
      (handle credentials) v = (.ok report', v')) ↔ ¬ HalfMade v := by
  obtain ⟨hkey, hvalid⟩ := (runs_iff hw).mp ⟨report, w', hrun⟩
  have hminting := minting_of_stop hw hv
  simp only [runs_iff (utf8_of_minting hw hminting)]
  constructor
  · intro hruns hhalf
    have hcurrent : v.current = some (universalNewlines []) := current_of_file hhalf rfl
    have hnil := (hruns secret checkMode).2 _ hcurrent
    rw [universalNewlines, validForKey_nil] at hnil
    cases hnil
  · refine fun hnot _ _ => ⟨hkey, fun existing hexisting => ?_⟩
    rcases hminting with hfile | ⟨-, hhalf | hwritten⟩
    · exact hvalid existing (by rw [← hexisting, Place.current, Place.current, hfile])
    · exact absurd hhalf hnot
    · rw [current_of_file hwritten rfl, universalNewlines_mintText hkey] at hexisting
      rw [← Option.some.inj hexisting]
      exact validForKey_mintText hkey

variable (sha256 credentials path key) in
theorem mintHolds_of_utf8 (hw : w.Utf8) : MintHolds sha256 credentials path key w where
  kept f secret checkMode hfile v hv := by
    rcases minting_of_stop hw hv with hkept | ⟨hnone, -⟩
    · exact hkept.trans hfile
    · rw [hfile] at hnone
      cases hnone
  created secret checkMode report w' hrun hcreated := by
    have hfile := created_of_run hw hrun hcreated
    exact ⟨hfile, fun v hv => (file_of_mintSteps (utf8_of_written hfile) hfile hv).trans hfile.symm⟩
  hashed hplain secret checkMode report w' f hrun hfile := hashed_of_run hw hplain hrun hfile
  recovers secret checkMode report w' hrun v hv := recovers_iff_not_halfMade hw hrun hv

end Mint

section Histories

variable {w₀ : Place} {path : Str}

variable {w v : Place} {credentials : Option Bytes} {sha256 : Bytes → Str} {r : ShimRequest}
  {checkMode : Bool}

theorem whole_of_stop (hw : w.Utf8)
    (hv : v ∈ (shim sha256 r checkMode).stops (handle credentials) w) : ∃ text, Whole w text v := by
  have hstart : ∃ text, Whole w text w := ⟨[], Or.inl rfl⟩
  have halong : (shim sha256 r checkMode).Along (handle credentials)
      (fun v _ => ∃ text, Whole w text v) (fun _ v => ∃ text, Whole w text v) w := by
    refine Along.bind (along_shimText hstart) ?_ fun _ v hv => hv ▸ hstart
    rintro text v rfl
    refine (along_placeText sha256 hw).mono (fun _ _ h => ⟨text, h⟩) fun _ v' h => ⟨text, ?_⟩
    rw [Whole, h.2]
    split_ifs
    · exact Or.inr rfl
    · exact Or.inl rfl
  rcases halong.stop hv with ⟨-, h⟩ | ⟨-, h⟩
  · exact h
  · exact h

theorem utf8_of_shimSteps (hw : w.Utf8) (h : ReflTransGen (ShimStep path) w v) : v.Utf8 := by
  induction h with
  | refl => exact hw
  | tail _ hstep ih =>
    obtain ⟨_, _, _, _, _, hstop⟩ := hstep
    obtain ⟨text, hfile | hwritten⟩ := whole_of_stop ih hstop
    · exact utf8_of_file ih hfile
    · exact utf8_of_written hwritten

/-- After any runs, stopped or not, of one of the two actions on a path: `shim` does what it promises
exactly where the file's text, read, says as much as its bytes; `mint` does, but for the hash of a
file with carriage returns and the run after a stop between the creation and the write. -/
theorem environmentFiles_hold (sha256 : Bytes → Str) (hprior : w₀.Utf8) :
    (∀ w, ReflTransGen (ShimStep path) w₀ w → ∀ credentials r text, r.path = path →
      (shimText r).run (handle credentials) w = (.ok text, w) →
        (ShimHolds sha256 credentials r text w ↔ ShimFits w text)) ∧
    ∀ w, ReflTransGen (MintStep path) w₀ w → ∀ credentials key,
      MintHolds sha256 credentials path key w := by
  refine ⟨fun w hsteps credentials r text _ htext => ?_, fun w hsteps credentials key => ?_⟩
  · exact shimHolds_iff_fits (utf8_of_shimSteps hprior hsteps) htext
  · exact mintHolds_of_utf8 credentials path key sha256 (utf8_of_mintSteps hprior hsteps)

/-- A path where nothing is. -/
def emptyPath : Place := ⟨none, []⟩

theorem environmentFiles_hold_emptyPath :
    (∀ w, ReflTransGen (ShimStep []) emptyPath w → ∀ credentials r text, r.path = [] →
      (shimText r).run (handle credentials) w = (.ok text, w) →
        (ShimHolds (fun _ => []) credentials r text w ↔ ShimFits w text)) ∧
    ∀ w, ReflTransGen (MintStep []) emptyPath w → ∀ credentials key,
      MintHolds (fun _ => []) credentials [] key w :=
  environmentFiles_hold (fun _ => []) fun f hf => by cases hf

/-- A table with one contract, of one line. -/
def smallRequest : ShimRequest where
  path := []
  credentialsPath := []
  image := shimImage ++ "sha256:".toList ++ List.replicate 64 'a'
  contracts :=
    [("contracts".toList, .object [("drain".toList, .object [("secret_label".toList,
        .string "token".toList), ("env_lines".toList, .array [.string "TOKEN={secret}".toList])])]),
      ("digests".toList, .object [("sha256:".toList ++ List.replicate 64 'a',
        .string "drain".toList)])]

def smallCredentials : Option Bytes := some (utf8Encode "token:s\n".toList)

/-- A closed file with one line, ended by a carriage return and a newline. -/
def returnPlace : Place := ⟨some ⟨true, utf8Encode "TOKEN=s\r\n".toList, fileMode⟩, []⟩

theorem returnPlace_utf8 : returnPlace.Utf8 := by
  intro f hf
  obtain rfl := Option.some.inj hf
  exact ⟨rfl, _, rfl⟩

theorem mem_alphanumeric : 'a' ∈ alphanumeric := by
  delta alphanumeric
  simp only [toList_literal]
  decide

def someSecret : Secret := ⟨List.replicate 48 'a', List.length_replicate, fun _ hc =>
  List.eq_of_mem_replicate hc ▸ mem_alphanumeric⟩

/-- The file that differs in its line end only is left as it is, and a run of `mint` reports the hash
of another file; and a run that is stopped after the creation leaves what the next one refuses. -/
theorem line_ends_and_stops_missed :
    ¬ ShimHolds (fun _ => []) smallCredentials smallRequest "TOKEN=s\n".toList returnPlace ∧
    (∃ report, (mint (fun data => decimal data.length) [] "TOKEN".toList someSecret false).run
      (handle none) returnPlace = (.ok report, returnPlace) ∧
        report.sha256 ≠ decimal (utf8Encode "TOKEN=s\r\n".toList).length) ∧
    ∃ v ∈ (mint (fun _ => []) [] "TOKEN".toList someSecret false).stops (handle none) emptyPath,
      (mint (fun _ => []) [] "TOKEN".toList someSecret false).run (handle none) v =
        (.error (.wrongLines [] "TOKEN".toList), v) := by
  refine ⟨fun h => ?_, ⟨⟨false, false, true, decimal 8⟩, rfl, by decide⟩,
    ⟨some ⟨true, [], fileMode⟩, []⟩, ?_, rfl⟩
  · have htext : (shimText smallRequest).run (handle smallCredentials) returnPlace =
        (.ok "TOKEN=s\n".toList, returnPlace) := rfl
    have hread := ((shimHolds_iff_fits returnPlace_utf8 htext).mp h _ "TOKEN=s\r\n".toList rfl rfl
      rfl).mp (by decide)
    exact absurd hread (by decide)
  · exact List.mem_cons_of_mem _ (List.mem_cons_of_mem _ List.mem_cons_self)

end Histories

end SharedInfra.MailStack
