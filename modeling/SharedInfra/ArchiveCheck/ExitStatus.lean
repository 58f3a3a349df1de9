import SharedInfra.ArchiveCheck.InspectionSpec
import SharedInfra.ArchiveCheck.Verification
import SharedInfra.Effects.Moves

/-!
# What the exit status says

A run of `verify-archive-passphrase.py` is measured against the archives and the answers
of pulumi alone (`Meets`).  An exception ends the process with the status of a wrong
passphrase, so the run means what it says exactly where none is raised (`CalmArchive`).
-/

namespace SharedInfra.ArchiveCheck

open Python Effects

section Stages

variable (run : Run) (index : Nat) (scratch : Scratch)

/-- `pulumi whoami` names the scratch backend. -/
def OnScratchBackend : Prop :=
  ∃ stdout stderr answer, run.pulumi index scratch .whoami = .ended 0 stdout stderr ∧
    decodeOutput stdout = some answer ∧ resolvedBackend answer = scratch.backendUrl

def Returned (command : Command) : Prop :=
  ∃ stdout stderr, run.pulumi index scratch command = .ended 0 stdout stderr

def TellsOfPassphrase (answer : Str) : Prop :=
  mentions answer "incorrect passphrase" = true ∨ mentions answer "failed to decrypt" = true ∨
    mentions answer "message authentication failed" = true

/-- A command failed with a passphrase or an authentication failure. -/
def Complains (command : Command) : Prop :=
  ∃ returnCode stdout stderr answer,
    run.pulumi index scratch command = .ended returnCode stdout stderr ∧ returnCode ≠ 0 ∧
      decodeOutput stderr = some answer ∧ TellsOfPassphrase answer

/-- A child process that was started, and whose captured output is text. -/
def Readable (captureStdout : Bool) (child : Child) : Prop :=
  ∃ returnCode stdout stderr, child = .ended returnCode stdout stderr ∧
    (decodeOutput stderr).isSome ∧ (captureStdout = true → (decodeOutput stdout).isSome)

/-- `stack init` or `stack import` answered with a passphrase or an authentication failure. -/
def Denied : Prop :=
  OnScratchBackend run index scratch ∧ (Complains run index scratch .stackInit ∨
    Returned run index scratch .stackInit ∧ Complains run index scratch .stackImport)

def Opened : Prop :=
  OnScratchBackend run index scratch ∧ Returned run index scratch .stackInit ∧
    Returned run index scratch .stackImport

/-- Every command that is reached is `Readable`. -/
structure CalmStages : Prop where
  whoami : Readable true (run.pulumi index scratch .whoami)
  stackInit : OnScratchBackend run index scratch →
    Readable false (run.pulumi index scratch .stackInit)
  stackImport : OnScratchBackend run index scratch → Returned run index scratch .stackInit →
    Readable false (run.pulumi index scratch .stackImport)

variable {run index scratch} {child : Child} {captureStdout : Bool}

theorem classifyFailure_iff {answer : Str} :
    (classifyFailure answer = .passphrase ∨ classifyFailure answer = .authentication) ↔
      TellsOfPassphrase answer := by
  unfold classifyFailure TellsOfPassphrase
  cases mentions answer "incorrect passphrase" <;> cases mentions answer "failed to decrypt" <;>
    cases mentions answer "message authentication failed" <;>
      cases mentions answer "could not deserialize deployment" <;> decide

theorem runPulumi_readable (h : Readable captureStdout child) :
    ∃ returnCode stdout stderr answer complaint, child = .ended returnCode stdout stderr ∧
      decodeOutput stderr = some complaint ∧
      (captureStdout = true → decodeOutput stdout = some answer) ∧
      runPulumi child captureStdout = .ok (returnCode, answer, complaint) := by
  obtain ⟨returnCode, stdout, stderr, rfl, hstderr, hstdout⟩ := h
  obtain ⟨complaint, hcomplaint⟩ := Option.isSome_iff_exists.mp hstderr
  cases captureStdout with
  | false =>
    refine ⟨returnCode, stdout, stderr, [], complaint, rfl, hcomplaint, nofun, ?_⟩
    simp only [runPulumi, hcomplaint]
    rfl
  | true =>
    obtain ⟨answer, hanswer⟩ := Option.isSome_iff_exists.mp (hstdout rfl)
    refine ⟨returnCode, stdout, stderr, answer, complaint, rfl, hcomplaint, fun _ => hanswer, ?_⟩
    simp only [runPulumi, hcomplaint, hanswer]
    rfl

theorem runPulumi_unreadable (h : ¬ Readable captureStdout child) :
    ∃ what, runPulumi child captureStdout = .error what := by
  cases child with
  | notStarted => exact ⟨_, rfl⟩
  | ended returnCode stdout stderr =>
    cases hstderr : decodeOutput stderr with
    | none => exact ⟨.unicodeDecodeError, by simp only [runPulumi, hstderr]⟩
    | some complaint =>
      cases captureStdout with
      | false =>
        exact absurd ⟨returnCode, stdout, stderr, rfl, by rw [hstderr]; rfl, nofun⟩ h
      | true =>
        cases hstdout : decodeOutput stdout with
        | none =>
          refine ⟨.unicodeDecodeError, ?_⟩
          simp only [runPulumi, hstderr, hstdout]
          rfl
        | some answer =>
          exact absurd ⟨returnCode, stdout, stderr, rfl, by rw [hstderr]; rfl,
            fun _ => by rw [hstdout]; rfl⟩ h

theorem assertScratchBackend_readable
    (h : Readable true (run.pulumi index scratch .whoami)) :
    ∃ refusal, assertScratchBackend (run.pulumi index scratch .whoami) scratch.backendUrl =
      .ok refusal ∧ (refusal = none ↔ OnScratchBackend run index scratch) := by
  obtain ⟨returnCode, stdout, stderr, answer, complaint, hchild, -, hanswer, hrun⟩ :=
    runPulumi_readable h
  have hon : OnScratchBackend run index scratch ↔
      returnCode = 0 ∧ resolvedBackend answer = scratch.backendUrl := by
    constructor
    · rintro ⟨stdout', stderr', answer', hchild', hanswer', hbackend⟩
      cases hchild.symm.trans hchild'
      cases (hanswer rfl).symm.trans hanswer'
      exact ⟨rfl, hbackend⟩
    · rintro ⟨rfl, hbackend⟩
      exact ⟨stdout, stderr, answer, hchild, hanswer rfl, hbackend⟩
  rw [hon]
  simp only [assertScratchBackend, hrun]
  by_cases hcode : returnCode = 0
  · by_cases hbackend : resolvedBackend answer = scratch.backendUrl
    · exact ⟨none, by rw [if_neg (not_not.mpr hcode), if_neg (not_not.mpr hbackend)],
        iff_of_true rfl ⟨hcode, hbackend⟩⟩
    · exact ⟨some _, (if_neg (not_not.mpr hcode)).trans (if_pos hbackend),
        iff_of_false nofun fun h => hbackend h.2⟩
  · exact ⟨some _, if_pos hcode, iff_of_false nofun fun h => hcode h.1⟩

/-- What the stages come to: an answer that `pulumi` gave, or an exception. -/
inductive Staged (run : Run) (index : Nat) (info : Info) (scratch : Scratch) : Prop where
  | answered (outcome : Outcome) (detail : Detail) (hcalm : CalmStages run index scratch)
      (hfail : outcome = .fail ↔ Denied run index scratch)
      (hpass : outcome = .pass ↔ Opened run index scratch)
      (hdetail : ∀ kind, detail ≠ .otherProvider kind)
      (h : runStages run index info scratch = .ok (outcome, detail))
  | raised (what : Raised) (hcalm : ¬ CalmStages run index scratch)
      (h : runStages run index info scratch = .error what)

theorem importOutcome_detail (info : Info) (returnCode : Int) (stderr : Str) (kind : Value) :
    (importOutcome info returnCode stderr).2 ≠ .otherProvider kind := by
  unfold importOutcome
  split
  · exact nofun
  · split <;> exact nofun

theorem initOutcome_detail (stderr : Str) (kind : Value) :
    (initOutcome stderr).2 ≠ .otherProvider kind := by
  unfold initOutcome
  split <;> exact nofun

theorem importOutcome_pass_iff (info : Info) (returnCode : Int) (stderr : Str) :
    (importOutcome info returnCode stderr).1 = .pass ↔ returnCode = 0 := by
  unfold importOutcome
  split
  · exact iff_of_true rfl ‹_›
  · refine iff_of_false ?_ ‹_›
    split <;> exact nofun

theorem importOutcome_fail_iff (info : Info) (returnCode : Int) (stderr : Str) :
    (importOutcome info returnCode stderr).1 = .fail ↔
      returnCode ≠ 0 ∧ TellsOfPassphrase stderr := by
  unfold importOutcome
  rw [← classifyFailure_iff]
  split
  · exact iff_of_false nofun fun h => h.1 ‹_›
  · cases classifyFailure stderr <;> simp [*]

theorem initOutcome_fail_iff (stderr : Str) :
    (initOutcome stderr).1 = .fail ↔ TellsOfPassphrase stderr := by
  unfold initOutcome
  rw [← classifyFailure_iff]
  cases classifyFailure stderr <;> simp

theorem initOutcome_pass (stderr : Str) : (initOutcome stderr).1 ≠ .pass := by
  unfold initOutcome
  split <;> exact nofun

theorem returned_iff {command : Command} {returnCode : Int} {stdout stderr : Bytes}
    (h : run.pulumi index scratch command = .ended returnCode stdout stderr) :
    Returned run index scratch command ↔ returnCode = 0 := by
  constructor
  · rintro ⟨stdout', stderr', h'⟩
    cases h.symm.trans h'
    rfl
  · rintro rfl
    exact ⟨stdout, stderr, h⟩

theorem complains_iff {command : Command} {returnCode : Int} {stdout stderr : Bytes}
    {answer : Str} (h : run.pulumi index scratch command = .ended returnCode stdout stderr)
    (hanswer : decodeOutput stderr = some answer) :
    Complains run index scratch command ↔ returnCode ≠ 0 ∧ TellsOfPassphrase answer := by
  constructor
  · rintro ⟨returnCode', stdout', stderr', answer', h', hcode, hanswer', htells⟩
    cases h.symm.trans h'
    cases hanswer.symm.trans hanswer'
    exact ⟨hcode, htells⟩
  · rintro ⟨hcode, htells⟩
    exact ⟨returnCode, stdout, stderr, answer, h, hcode, hanswer, htells⟩

theorem staged_of_on (info : Info) (hwhoami : Readable true (run.pulumi index scratch .whoami))
    (hon : OnScratchBackend run index scratch)
    (hanswer : assertScratchBackend (run.pulumi index scratch .whoami) scratch.backendUrl =
      .ok none) : Staged run index info scratch := by
  by_cases hinit : Readable false (run.pulumi index scratch .stackInit)
  · obtain ⟨code, stdout, stderr, answer, complaint, hchild, hcomplaint, -, hrun⟩ :=
      runPulumi_readable hinit
    by_cases hcode : code = 0
    · have hreturned : Returned run index scratch .stackInit := (returned_iff hchild).mpr hcode
      have hquiet : ¬ Complains run index scratch .stackInit := fun h =>
        ((complains_iff hchild hcomplaint).mp h).1 hcode
      by_cases himport : Readable false (run.pulumi index scratch .stackImport)
      · obtain ⟨code', stdout', stderr', answer', complaint', hchild', hcomplaint', -, hrun'⟩ :=
          runPulumi_readable himport
        refine .answered (importOutcome info code' complaint').1 _
          ⟨hwhoami, fun _ => hinit, fun _ _ => himport⟩ ?_ ?_ (importOutcome_detail info code' complaint') ?_
        · rw [importOutcome_fail_iff, ← complains_iff hchild' hcomplaint']
          exact ⟨fun h => ⟨hon, .inr ⟨hreturned, h⟩⟩,
            fun h => h.2.elim (fun hinit => absurd hinit hquiet) fun h => h.2⟩
        · rw [importOutcome_pass_iff, ← returned_iff hchild']
          exact ⟨fun h => ⟨hon, hreturned, h⟩, fun h => h.2.2⟩
        · simp only [runStages, hanswer, hrun, hrun', if_neg (not_not.mpr hcode)]
      · obtain ⟨what, hwhat⟩ := runPulumi_unreadable himport
        refine .raised what (fun hcalm => himport (hcalm.stackImport hon hreturned)) ?_
        simp only [runStages, hanswer, hrun, hwhat, if_neg (not_not.mpr hcode)]
    · have hfailed : ¬ Returned run index scratch .stackInit := fun h =>
        hcode ((returned_iff hchild).mp h)
      refine .answered (initOutcome complaint).1 _
        ⟨hwhoami, fun _ => hinit, fun _ h => absurd h hfailed⟩ ?_ ?_
        (initOutcome_detail complaint) ?_
      · rw [initOutcome_fail_iff]
        constructor
        · intro h
          exact ⟨hon, .inl ((complains_iff hchild hcomplaint).mpr ⟨hcode, h⟩)⟩
        · rintro ⟨-, h | h⟩
          · exact ((complains_iff hchild hcomplaint).mp h).2
          · exact absurd h.1 hfailed
      · exact iff_of_false (initOutcome_pass complaint) fun h => hfailed h.2.1
      · simp only [runStages, hanswer, hrun, if_pos hcode]
  · obtain ⟨what, hwhat⟩ := runPulumi_unreadable hinit
    refine .raised what (fun hcalm => hinit (hcalm.stackInit hon)) ?_
    simp only [runStages, hanswer, hwhat]

theorem staged (run : Run) (index : Nat) (info : Info) (scratch : Scratch) :
    Staged run index info scratch := by
  by_cases hwhoami : Readable true (run.pulumi index scratch .whoami)
  · obtain ⟨refusal, hanswer, hon⟩ := assertScratchBackend_readable hwhoami
    cases refusal with
    | none => exact staged_of_on info hwhoami (hon.mp rfl) hanswer
    | some message =>
      have hoff : ¬ OnScratchBackend run index scratch := fun h => by cases hon.mpr h
      refine .answered .inconclusive (.preflight message)
        ⟨hwhoami, fun h => absurd h hoff, fun h => absurd h hoff⟩
        (iff_of_false nofun fun h => hoff h.1) (iff_of_false nofun fun h => hoff h.1)
        (fun _ => nofun) ?_
      simp only [runStages, hanswer]
  · obtain ⟨what, hwhat⟩ := runPulumi_unreadable hwhoami
    refine .raised what (fun hcalm => hwhoami hcalm.whoami) ?_
    simp only [runStages, assertScratchBackend, hwhat]

end Stages

@[simp] theorem plainText_cons_char (c : Char) (s : PyStr) :
    plainText (.char c :: s) = (plainText s).map (c :: ·) := by
  simp only [plainText, List.mapM_cons, Option.pure_def, Option.bind_eq_bind, Option.bind_some]
  rw [Option.map_eq_bind]
  rfl

@[simp] theorem plainText_cons_surrogate (n : Fin 2048) (s : PyStr) :
    plainText (.surrogate n :: s) = none := rfl

theorem plainText_eq_some_iff {s : PyStr} {t : Str} : plainText s = some t ↔ s = text t := by
  induction s generalizing t with
  | nil =>
    cases t with
    | nil => exact iff_of_true rfl rfl
    | cons => exact iff_of_false nofun nofun
  | cons c s ih =>
    cases c with
    | surrogate n =>
      refine iff_of_false nofun fun h => ?_
      cases t with
      | nil => cases h
      | cons => cases h
    | char c =>
      rw [plainText_cons_char, Option.map_eq_some_iff]
      constructor
      · rintro ⟨t, ht, rfl⟩
        rw [ih.mp ht]
        rfl
      · intro h
        cases t with
        | nil => cases h
        | cons c' t =>
          cases h
          exact ⟨t, ih.mpr rfl, rfl⟩

theorem plainText_isSome_iff {s : PyStr} : (plainText s).isSome ↔ ∃ t, s = text t := by
  rw [Option.isSome_iff_exists]
  exact exists_congr fun _ => plainText_eq_some_iff

theorem text_injective {s t : Str} (h : text s = text t) : s = t :=
  List.map_injective_iff.mpr (fun _ _ h => PyChar.char.inj h) h

theorem text_of_forall {s : PyStr} (h : ∀ c ∈ s, ∃ c', c = .char c') : ∃ t, s = text t := by
  induction s with
  | nil => exact ⟨[], rfl⟩
  | cons c s ih =>
    obtain ⟨c', rfl⟩ := h c (.head _)
    obtain ⟨t, rfl⟩ := ih fun c hc => h c (.tail _ hc)
    exact ⟨c' :: t, rfl⟩

theorem isNameHead_char {c : PyChar} (h : isNameHead c = true) : ∃ c', c = .char c' := by
  cases c with
  | char c => exact ⟨c, rfl⟩
  | surrogate => cases h

theorem isNameChar_char {c : PyChar} (h : isNameChar c = true) : ∃ c', c = .char c' := by
  cases c with
  | char c => exact ⟨c, rfl⟩
  | surrogate => cases h

theorem isPulumiName_plain {name : PyStr} (h : isPulumiName name = true) :
    ∃ t, name = text t := by
  have hplain : ∀ name : PyStr, (match name with
      | [] => false
      | c :: rest => isNameHead c && rest.all isNameChar && rest.length ≤ 99) = true →
      ∃ t, name = text t := by
    intro name hname
    cases name with
    | nil => cases hname
    | cons c rest =>
      rw [Bool.and_eq_true, Bool.and_eq_true, List.all_eq_true] at hname
      refine text_of_forall fun c' hc' => ?_
      cases hc' with
      | head => exact isNameHead_char hname.1.1
      | tail _ hc' => exact isNameChar_char (hname.1.2 c' hc')
  unfold isPulumiName at h
  by_cases hlast : name.getLast? = some (.char '\n')
  · simp only [if_pos hlast] at h
    obtain ⟨t, ht⟩ := hplain _ h
    refine ⟨t ++ ['\n'], ?_⟩
    have hsplit := List.dropLast_append_getLast? _ hlast
    rw [ht] at hsplit
    rw [← hsplit, text, text, List.map_append]
    rfl
  · simp only [if_neg hlast] at h
    exact hplain _ h

theorem namesFromUrn_plain (urn : Option Value) :
    ∃ project stack, namesFromUrn urn = (text project, text stack) := by
  have hfallback : ∃ project stack, (text fallbackProject, text fallbackStack) =
      (text project, text stack) := ⟨_, _, rfl⟩
  unfold namesFromUrn
  split
  · split_ifs
    · split
      · rename_i first project _ _
        dsimp only
        split_ifs with hnames
        · rw [Bool.and_eq_true] at hnames
          obtain ⟨stack, hstack⟩ := isPulumiName_plain hnames.1
          obtain ⟨project', hproject⟩ := isPulumiName_plain hnames.2
          exact ⟨project', stack, by rw [hstack, hproject]⟩
        · exact hfallback
      · exact hfallback
    · exact hfallback
  · exact hfallback

section Archives

variable (interpreter : Interpreter) (run : Run) (index : Nat) (archive : Archive)

/-- The scratch project of a wrapped export with a ciphertext and no plaintext key, which holds
its own salt. -/
def Evidence (scratch : Scratch) : Prop :=
  ∃ deployment salt, Wrapped interpreter archive.file deployment (text salt) ∧
    ¬ KeyIn (text "plaintext") (.object deployment) ∧
    KeyIn (text "ciphertext") (.object deployment) ∧
    scratch.settings = "encryptionsalt: ".toList ++ salt ++ ['\n'] ∧
    scratch.backendUrl = "file://".toList ++ run.stateDir index ∧
    namesFromUrn (resourcesOf deployment).2 = (text scratch.project, text scratch.stack)

/-- For an archive that is evidence, pulumi answered with a passphrase or an authentication
failure. -/
def WrongPassphrase : Prop :=
  ∃ scratch, Evidence interpreter run index archive scratch ∧ Denied run index scratch

/-- An archive is evidence, and both stages returned 0 for it. -/
def Opens : Prop :=
  ∃ scratch, Evidence interpreter run index archive scratch ∧ Opened run index scratch

/-- An archive over which nothing is raised. -/
structure Quiet : Prop where
  file : CalmFile interpreter archive.file
  salt : ∀ deployment salt, Wrapped interpreter archive.file deployment salt →
    ¬ KeyIn (text "plaintext") (.object deployment) →
      KeyIn (text "ciphertext") (.object deployment) → ∃ s, salt = text s
  stages : ∀ scratch, Evidence interpreter run index archive scratch → CalmStages run index scratch

/-- An archive whose name, and whose secrets provider where another one is named, are text. -/
structure Printable : Prop where
  name : ∃ s, archive.name = text s
  kind : ∀ deployment providers kind, Export interpreter archive.file deployment providers →
    getMember providers "type" = some (.string kind) → ∃ s, kind = text s

/-- An archive over which nothing is raised, and whose result can be printed. -/
structure CalmArchive : Prop where
  quiet : Quiet interpreter run index archive
  printable : run.asJson = true ∨ Printable interpreter archive

/-- What one turn of the loop comes to. -/
inductive Checked (interpreter : Interpreter) (run : Run) (index : Nat) (archive : Archive) :
    Prop where
  | answered (result : Result) (hquiet : Quiet interpreter run index archive)
      (hfail : result.outcome = .fail ↔ WrongPassphrase interpreter run index archive)
      (hpass : result.outcome = .pass ↔ Opens interpreter run index archive)
      (hunusable : ¬ Usable interpreter archive.file → result.outcome = .archive)
      (hprintable : result.printable = true ↔ Printable interpreter archive)
      (h : checkArchive interpreter run index archive = .ok result)
  | raised (what : Raised) (hquiet : ¬ Quiet interpreter run index archive)
      (h : checkArchive interpreter run index archive = .error what)

variable {interpreter run index archive} {scratch scratch' : Scratch}
  {deployment : List (PyStr × Value)} {salt : PyStr}

theorem Evidence.unique (h : Evidence interpreter run index archive scratch)
    (h' : Evidence interpreter run index archive scratch') : scratch = scratch' := by
  obtain ⟨deployment, salt, hwrapped, -, -, hsettings, hbackend, hnames⟩ := h
  obtain ⟨deployment', salt', hwrapped', -, -, hsettings', hbackend', hnames'⟩ := h'
  obtain ⟨rfl, hsalt⟩ := hwrapped.unique hwrapped'
  obtain ⟨hproject, hstack⟩ := Prod.ext_iff.mp (hnames.symm.trans hnames')
  obtain ⟨backendUrl, project, stack, settings⟩ := scratch
  obtain ⟨backendUrl', project', stack', settings'⟩ := scratch'
  cases text_injective hsalt
  cases text_injective hproject
  cases text_injective hstack
  cases hsettings.trans hsettings'.symm
  cases hbackend.trans hbackend'.symm
  rfl

theorem wrongPassphrase_iff (h : Evidence interpreter run index archive scratch) :
    WrongPassphrase interpreter run index archive ↔ Denied run index scratch := by
  constructor
  · rintro ⟨scratch', h', hdenied⟩
    rw [h.unique h']
    exact hdenied
  · exact fun hdenied => ⟨scratch, h, hdenied⟩

theorem opens_iff (h : Evidence interpreter run index archive scratch) :
    Opens interpreter run index archive ↔ Opened run index scratch := by
  constructor
  · rintro ⟨scratch', h', hopened⟩
    rw [h.unique h']
    exact hopened
  · exact fun hopened => ⟨scratch, h, hopened⟩

theorem quiet_of_no_evidence (run : Run) (index : Nat) (hfile : CalmFile interpreter archive.file)
    (hnone : ∀ deployment salt, Wrapped interpreter archive.file deployment salt →
      ¬ KeyIn (text "plaintext") (.object deployment) →
        ¬ KeyIn (text "ciphertext") (.object deployment)) :
    Quiet interpreter run index archive ∧
      ∀ scratch, ¬ Evidence interpreter run index archive scratch := by
  have hnothing : ∀ scratch, ¬ Evidence interpreter run index archive scratch := by
    rintro scratch ⟨deployment, salt, hwrapped, hplaintext, hciphertext, -⟩
    exact hnone deployment (text salt) hwrapped hplaintext hciphertext
  refine ⟨⟨hfile, ?_, fun scratch h => absurd h (hnothing scratch)⟩, hnothing⟩
  exact fun deployment salt hwrapped hplaintext hciphertext =>
    absurd hciphertext (hnone deployment salt hwrapped hplaintext)

theorem wrapped_kind (h : Wrapped interpreter archive.file deployment salt) :
    ∀ deployment' providers kind, Export interpreter archive.file deployment' providers →
      getMember providers "type" = some (.string kind) → ∃ s, kind = text s := by
  obtain ⟨providers, state, hexport, hkind, -⟩ := h
  intro deployment' providers' kind hexport' hkind'
  obtain ⟨-, rfl⟩ := hexport.unique hexport'
  cases hkind.symm.trans hkind'
  exact ⟨_, rfl⟩

theorem printable_iff {result : Result} : result.printable = true ↔ (∃ s, result.name = text s) ∧
      ∀ kind, result.detail = .otherProvider (.string kind) → ∃ s, kind = text s := by
  unfold Result.printable
  rw [Bool.and_eq_true, plainText_isSome_iff]
  refine and_congr_right fun _ => ?_
  split
  · rename_i kind hkind
    rw [plainText_isSome_iff]
    exact ⟨fun h _ hsame => by cases hkind.symm.trans hsame; exact h, fun h => h kind hkind⟩
  · rename_i hother
    exact iff_of_true rfl fun kind hsame => absurd hsame (hother kind)

theorem printable_iff_of_wrapped (h : Wrapped interpreter archive.file deployment salt)
    {outcome : Outcome} {detail : Detail} (hdetail : ∀ kind, detail ≠ .otherProvider kind) :
    Result.printable ⟨archive.name, outcome, detail⟩ = true ↔ Printable interpreter archive := by
  rw [printable_iff]
  exact ⟨fun hplain => ⟨hplain.1, wrapped_kind h⟩,
    fun hplain => ⟨hplain.name, fun _ hkind => absurd hkind (hdetail _)⟩⟩

theorem printable_iff_of_refused {outcome : Outcome} {detail : Detail}
    (hnames : NamesProvider interpreter archive.file detail) :
    Result.printable ⟨archive.name, outcome, detail⟩ = true ↔ Printable interpreter archive := by
  rw [printable_iff]
  constructor
  · rintro ⟨hname, hplain⟩
    refine ⟨hname, fun deployment providers kind hexport hmember => ?_⟩
    by_cases hpassphrase : kind = text "passphrase"
    · exact ⟨_, hpassphrase⟩
    · exact hplain kind ((hnames kind).mpr
        ⟨hpassphrase, deployment, providers, hexport, hmember⟩)
  · rintro ⟨hname, hplain⟩
    refine ⟨hname, fun kind hdetail => ?_⟩
    obtain ⟨-, deployment, providers, hexport, hmember⟩ := (hnames kind).mp hdetail
    exact hplain deployment providers kind hexport hmember

theorem scratchOf_evidence (run : Run) (index : Nat)
    (hwrapped : Wrapped interpreter archive.file deployment salt)
    (hplaintext : ¬ KeyIn (text "plaintext") (.object deployment))
    (hciphertext : KeyIn (text "ciphertext") (.object deployment)) (info : Info)
    (hsalt : info.salt = salt)
    (hnames : namesFromUrn (resourcesOf deployment).2 = (info.project, info.stack)) :
    (∃ scratch, scratchOf run index info = some scratch ∧
      Evidence interpreter run index archive scratch) ∨
    scratchOf run index info = none ∧ ∀ s, salt ≠ text s := by
  obtain ⟨project, stack, hplain⟩ := namesFromUrn_plain (resourcesOf deployment).2
  obtain ⟨hproject, hstack⟩ := Prod.ext_iff.mp (hnames.symm.trans hplain)
  unfold scratchOf
  rw [plainText_eq_some_iff.mpr hproject, plainText_eq_some_iff.mpr hstack, hsalt]
  cases hs : plainText salt with
  | none =>
    refine .inr ⟨rfl, fun s hsame => ?_⟩
    cases hs.symm.trans (plainText_eq_some_iff.mpr hsame)
  | some s =>
    cases plainText_eq_some_iff.mp hs
    exact .inl ⟨_, rfl, deployment, s, hwrapped, hplaintext, hciphertext, rfl, rfl, hplain⟩

theorem checked_of_usable (hcalm : CalmFile interpreter archive.file)
    (hwrapped : Wrapped interpreter archive.file deployment salt)
    (hplaintext : ¬ KeyIn (text "plaintext") (.object deployment)) (info : Info)
    (hsalt : info.salt = salt)
    (hcount : info.ciphertext = countKey (text "ciphertext") (.object deployment))
    (hnames : namesFromUrn (resourcesOf deployment).2 = (info.project, info.stack))
    (h : inspectArchive interpreter archive.file = .ok info) :
    Checked interpreter run index archive := by
  have husable : Usable interpreter archive.file := ⟨deployment, salt, hwrapped, hplaintext⟩
  by_cases hempty : info.ciphertext = 0
  · obtain ⟨hquiet, hnone⟩ := quiet_of_no_evidence run index hcalm (by
      intro deployment' salt' hwrapped' _
      obtain ⟨rfl, -⟩ := hwrapped.unique hwrapped'
      exact (countKey_eq_zero_iff _).mp (hcount.symm.trans hempty))
    refine .answered ⟨archive.name, .inconclusive, .noCiphertext⟩ hquiet
      (iff_of_false nofun fun ⟨scratch, hevidence, _⟩ => hnone scratch hevidence)
      (iff_of_false nofun fun ⟨scratch, hevidence, _⟩ => hnone scratch hevidence)
      (fun hnot => absurd husable hnot)
      (printable_iff_of_wrapped hwrapped fun _ => nofun) ?_
    simp only [checkArchive, h, verifyArchive, if_pos hempty]
  · have hciphertext : KeyIn (text "ciphertext") (.object deployment) := by
      by_contra hnot
      exact hempty (hcount.trans ((countKey_eq_zero_iff _).mpr hnot))
    obtain ⟨scratch, hscratch, hevidence⟩ | ⟨hscratch, hsurrogate⟩ :=
      scratchOf_evidence run index hwrapped hplaintext hciphertext info hsalt hnames
    · cases staged run index info scratch with
      | answered outcome detail hstages hfail hpass hdetail hrun =>
        refine .answered ⟨archive.name, outcome, detail⟩ ⟨hcalm, ?_, ?_⟩
          (hfail.trans (wrongPassphrase_iff hevidence).symm)
          (hpass.trans (opens_iff hevidence).symm) (fun hnot => absurd husable hnot)
          (printable_iff_of_wrapped hwrapped hdetail) ?_
        · intro deployment' salt' hwrapped' _ _
          obtain ⟨deployment'', salt'', hwrapped'', -⟩ := hevidence
          obtain ⟨-, rfl⟩ := hwrapped'.unique hwrapped''
          exact ⟨salt'', rfl⟩
        · intro scratch' hevidence'
          rw [← hevidence.unique hevidence']
          exact hstages
        · simp only [checkArchive, h, verifyArchive, if_neg hempty, hscratch, hrun]
      | raised what hstages hrun =>
        refine .raised what (fun hquiet => hstages (hquiet.stages scratch hevidence)) ?_
        simp only [checkArchive, h, verifyArchive, if_neg hempty, hscratch, hrun]
    · refine .raised .unicodeEncodeError (fun hquiet => ?_) ?_
      · obtain ⟨s, hs⟩ := hquiet.salt deployment salt hwrapped hplaintext hciphertext
        exact hsurrogate s hs
      · simp only [checkArchive, h, verifyArchive, if_neg hempty, hscratch]

theorem checked (interpreter : Interpreter) (run : Run) (index : Nat) (archive : Archive) :
    Checked interpreter run index archive := by
  cases inspected interpreter archive.file with
  | usable hcalm hwrapped hplaintext h =>
    exact checked_of_usable hcalm hwrapped hplaintext _ rfl rfl rfl h
  | refused hcalm hunusable hnames h =>
    obtain ⟨hquiet, hnone⟩ := quiet_of_no_evidence run index hcalm
      (fun deployment salt hwrapped hplaintext =>
        absurd ⟨deployment, salt, hwrapped, hplaintext⟩ hunusable)
    refine .answered ⟨archive.name, .archive, _⟩ hquiet
      (iff_of_false nofun fun ⟨scratch, hevidence, _⟩ => hnone scratch hevidence)
      (iff_of_false nofun fun ⟨scratch, hevidence, _⟩ => hnone scratch hevidence)
      (fun _ => rfl) (printable_iff_of_refused hnames) ?_
    simp only [checkArchive, h]
  | @raised what hcalm h =>
    refine .raised what (fun hquiet => hcalm hquiet.file) ?_
    simp only [checkArchive, h]

theorem checkArchive_spec {result : Result}
    (hresult : checkArchive interpreter run index archive = .ok result) :
    (result.outcome = .fail ↔ WrongPassphrase interpreter run index archive) ∧
      (result.outcome = .pass ↔ Opens interpreter run index archive) ∧
      (¬ Usable interpreter archive.file → result.outcome = .archive) ∧
      (result.printable = true ↔ Printable interpreter archive) := by
  cases checked interpreter run index archive with
  | answered result' _ hfail hpass hunusable hprintable h =>
    cases hresult.symm.trans h
    exact ⟨hfail, hpass, hunusable, hprintable⟩
  | raised what _ h => cases hresult.symm.trans h

end Archives

section Runs

/-- How bad an outcome is; the worst is first. -/
def Outcome.rank : Outcome → Nat
  | .fail => 0
  | .archive => 1
  | .inconclusive => 2
  | .pass => 3

def Worst (outcomes : List Outcome) (outcome : Outcome) : Prop :=
  outcome ∈ outcomes ∧ ∀ other ∈ outcomes, outcome.rank ≤ other.rank

variable (interpreter : Interpreter) (run : Run)

/-- The check runs: there is a pulumi binary and a passphrase. -/
def Started : Prop := run.found = true ∧ passphraseSupplied run.passphrase = true

/-- The exit status means what it says. -/
structure Meets : Prop where
  noException : ∃ code, main interpreter run = .ok code
  fail : exitStatus interpreter run = 1 ↔ Started run ∧ ∃ archive ∈ run.archives.zipIdx,
    WrongPassphrase interpreter run archive.2 archive.1
  pass : exitStatus interpreter run = 0 ↔ Started run ∧ ∀ archive ∈ run.archives.zipIdx,
    Opens interpreter run archive.2 archive.1
  unusable : Started run → ∀ archive ∈ run.archives.zipIdx,
    ¬ Usable interpreter archive.1.file → ∃ result,
      checkArchive interpreter run archive.2 archive.1 = .ok result ∧ result.outcome = .archive
  worst : Started run → ∃ results outcome, List.Forall₂
    (fun archive result => checkArchive interpreter run archive.2 archive.1 = .ok result)
      run.archives.zipIdx results ∧ Worst (results.map Result.outcome) outcome ∧
    exitStatus interpreter run = outcome.exitCode

variable {interpreter run}

theorem main_not_started (interpreter : Interpreter) (h : ¬ Started run) : main interpreter run = .ok 2 := by
  unfold main
  by_cases hfound : run.found = true
  · have hnone : passphraseSupplied run.passphrase ≠ true := fun hsome => h ⟨hfound, hsome⟩
    rw [hfound, Bool.eq_false_iff.mpr hnone]
    rfl
  · rw [Bool.eq_false_iff.mpr hfound]
    rfl

theorem main_started (h : Started run) : main interpreter run =
    match run.archives.zipIdx.mapM fun archive =>
      checkArchive interpreter run archive.2 archive.1 with
    | .error what => .error what
    | .ok results =>
      if run.asJson || results.all Result.printable then
        .ok (verdictExitCode (results.map Result.outcome))
      else .error .unicodeEncodeError := by
  unfold main
  rw [h.1, h.2]
  rfl

theorem verdictExitCode_worst {outcomes : List Outcome} (h : outcomes ≠ []) :
    ∃ outcome, Worst outcomes outcome ∧ verdictExitCode outcomes = outcome.exitCode := by
  have hmem : ∃ outcome, outcome ∈ outcomes := List.exists_mem_of_ne_nil _ h
  simp only [verdictExitCode, severity, List.find?_cons, List.find?_nil]
  by_cases hfail : Outcome.fail ∈ outcomes
  · exact ⟨.fail, ⟨hfail, fun _ _ => Nat.zero_le _⟩, by simp [hfail]⟩
  · by_cases harchive : Outcome.archive ∈ outcomes
    · refine ⟨.archive, ⟨harchive, fun other hother => ?_⟩, by simp [hfail, harchive]⟩
      cases other with
      | fail => exact absurd hother hfail
      | _ => decide
    · by_cases hinconclusive : Outcome.inconclusive ∈ outcomes
      · refine ⟨.inconclusive, ⟨hinconclusive, fun other hother => ?_⟩,
          by simp [hfail, harchive, hinconclusive]⟩
        cases other with
        | fail => exact absurd hother hfail
        | archive => exact absurd hother harchive
        | _ => decide
      · have hpass : ∀ other ∈ outcomes, other = .pass := by
          intro other hother
          cases other with
          | fail => exact absurd hother hfail
          | archive => exact absurd hother harchive
          | inconclusive => exact absurd hother hinconclusive
          | pass => rfl
        obtain ⟨outcome, hsome⟩ := hmem
        have hmempass : Outcome.pass ∈ outcomes := hpass outcome hsome ▸ hsome
        refine ⟨.pass, ⟨hmempass, fun other hother => ?_⟩,
          by simp [hfail, harchive, hinconclusive, hmempass]⟩
        rw [hpass other hother]

theorem worst_fail_iff {outcomes : List Outcome} {outcome : Outcome}
    (h : Worst outcomes outcome) : outcome.exitCode = 1 ↔ .fail ∈ outcomes := by
  constructor
  · intro hcode
    cases outcome with
    | fail => exact h.1
    | _ => cases hcode
  · intro hfail
    have hrank := h.2 _ hfail
    cases outcome with
    | fail => rfl
    | _ => cases hrank

theorem worst_pass_iff {outcomes : List Outcome} {outcome : Outcome}
    (h : Worst outcomes outcome) : outcome.exitCode = 0 ↔ ∀ other ∈ outcomes, other = .pass := by
  constructor
  · intro hcode other hother
    have hrank := h.2 other hother
    cases outcome with
    | pass =>
      cases other with
      | pass => rfl
      | _ => simp [Outcome.rank] at hrank
    | _ => cases hcode
  · intro hpass
    rw [hpass outcome h.1]
    rfl

theorem meets_of_calm (hstarted : Started run) (hcalm : ∀ archive ∈ run.archives.zipIdx,
    CalmArchive interpreter run archive.2 archive.1) : Meets interpreter run := by
  have hanswered : ∀ archive ∈ run.archives.zipIdx, ∃ result,
      checkArchive interpreter run archive.2 archive.1 = .ok result := by
    intro archive harchive
    cases checked interpreter run archive.2 archive.1 with
    | answered result _ _ _ _ _ h => exact ⟨result, h⟩
    | raised what hquiet => exact absurd (hcalm archive harchive).quiet hquiet
  obtain ⟨results, hresults⟩ := mapM_succeeds_iff.mpr hanswered
  have hall := mapM_eq_ok_iff.mp hresults
  have hprinted : (run.asJson || results.all Result.printable) = true := by
    rw [Bool.or_eq_true]
    refine or_iff_not_imp_left.mpr fun hplain => List.all_eq_true.mpr fun result hmem => ?_
    obtain ⟨archive, harchive, h⟩ := exists_of_mem_right hall hmem
    exact (checkArchive_spec h).2.2.2.mpr
      ((hcalm archive harchive).printable.resolve_left hplain)
  have hnonempty : results.map Result.outcome ≠ [] := by
    intro hempty
    rw [List.map_eq_nil_iff.mp hempty, List.forall₂_nil_right_iff] at hall
    exact run.nonempty (List.zipIdx_eq_nil_iff.mp hall)
  obtain ⟨outcome, hworst, hcode⟩ := verdictExitCode_worst hnonempty
  have hmain : main interpreter run = .ok outcome.exitCode := by
    rw [main_started hstarted, hresults]
    exact (if_pos hprinted).trans (congrArg Except.ok hcode)
  have hexit : exitStatus interpreter run = outcome.exitCode := by
    unfold exitStatus
    rw [hmain]
  refine ⟨⟨_, hmain⟩, ?_, ?_, ?_, fun _ => ⟨results, outcome, hall, hworst, hexit⟩⟩
  · rw [hexit, worst_fail_iff hworst, List.mem_map]
    constructor
    · rintro ⟨result, hmem, hfail⟩
      obtain ⟨archive, harchive, h⟩ := exists_of_mem_right hall hmem
      exact ⟨hstarted, archive, harchive, (checkArchive_spec h).1.mp hfail⟩
    · rintro ⟨-, archive, harchive, hwrong⟩
      obtain ⟨result, hmem, h⟩ := exists_of_mem_left hall harchive
      exact ⟨result, hmem, (checkArchive_spec h).1.mpr hwrong⟩
  · rw [hexit, worst_pass_iff hworst, List.forall_mem_map]
    constructor
    · intro hpass
      refine ⟨hstarted, fun archive harchive => ?_⟩
      obtain ⟨result, hmem, h⟩ := exists_of_mem_left hall harchive
      exact (checkArchive_spec h).2.1.mp (hpass result hmem)
    · rintro ⟨-, hopens⟩ result hmem
      obtain ⟨archive, harchive, h⟩ := exists_of_mem_right hall hmem
      exact (checkArchive_spec h).2.1.mpr (hopens archive harchive)
  · intro _ archive harchive hunusable
    obtain ⟨result, h⟩ := hanswered archive harchive
    exact ⟨result, h, (checkArchive_spec h).2.2.1 hunusable⟩

theorem calm_of_succeeds (hstarted : Started run) {code : Nat}
    (h : main interpreter run = .ok code) : ∀ archive ∈ run.archives.zipIdx,
      CalmArchive interpreter run archive.2 archive.1 := by
  rw [main_started hstarted] at h
  split at h
  · cases h
  · rename_i results hresults
    have hall := mapM_eq_ok_iff.mp hresults
    intro archive harchive
    obtain ⟨result, hmem, hchecked⟩ := exists_of_mem_left hall harchive
    cases checked interpreter run archive.2 archive.1 with
    | raised what _ hraised => cases hchecked.symm.trans hraised
    | answered result' hquiet _ _ _ hprintable hresult =>
      cases hchecked.symm.trans hresult
      refine ⟨hquiet, or_iff_not_imp_left.mpr fun hplain => ?_⟩
      split_ifs at h with hprinted
      rw [Bool.or_eq_true] at hprinted
      exact hprintable.mp (List.all_eq_true.mp (hprinted.resolve_left hplain) result hmem)

/-- The exit status means what it says exactly where every archive of a run that is started is
calm. -/
theorem exitStatus_meets_iff (interpreter : Interpreter) (run : Run) : Meets interpreter run ↔
    (Started run → ∀ archive ∈ run.archives.zipIdx,
      CalmArchive interpreter run archive.2 archive.1) := by
  constructor
  · rintro ⟨⟨code, hmain⟩, -⟩ hstarted
    exact calm_of_succeeds hstarted hmain
  · intro hcalm
    by_cases hstarted : Started run
    · exact meets_of_calm hstarted (hcalm hstarted)
    · have hmain := main_not_started interpreter hstarted
      have hexit : exitStatus interpreter run = 2 := by
        unfold exitStatus
        rw [hmain]
      refine ⟨⟨2, hmain⟩, ?_, ?_, fun h => absurd h hstarted, fun h => absurd h hstarted⟩
      · exact iff_of_false (by rw [hexit]; decide) fun h => hstarted h.1
      · exact iff_of_false (by rw [hexit]; decide) fun h => hstarted h.1

end Runs

/-- An interpreter that reads no document. -/
def anyInterpreter : Interpreter := ⟨fun _ => .decodeError, 900, 900⟩

/-- One archive of the byte 0xff, with a passphrase and a pulumi that is never asked. -/
def undecodableRun : Run where
  archives := [⟨text "archive.json", some [255]⟩]
  nonempty := nofun
  passphrase := some [104, 117, 110, 116, 101, 114]
  found := true
  asJson := false
  stateDir _ := "/tmp/pulumi-archive-verify/state"
  pulumi _ _ _ := .notStarted

/-- An archive that is not UTF-8 ends the run with the status of a wrong passphrase, and pulumi
has answered nothing. -/
theorem undecodable_archive_fails : exitStatus anyInterpreter undecodableRun = 1 ∧
    ¬ Meets anyInterpreter undecodableRun := by
  have hmain : main anyInterpreter undecodableRun = .error .unicodeDecodeError := by decide
  refine ⟨by unfold exitStatus; rw [hmain], fun hmeets => ?_⟩
  obtain ⟨code, hcode⟩ := hmeets.noException
  cases hmain.symm.trans hcode

end SharedInfra.ArchiveCheck
