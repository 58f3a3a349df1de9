import SharedInfra.Python.LastLine
import SharedInfra.SecretsAudit.Inventory

/-!
# The report of the audit and its exit status

`render`, `exit_code` and `main` of `audit-pulumi-secrets.py`.  The summary line of the report is
about the stacks and the declared sites, the status also about references and sites that are not
declared (`audit_agrees`).
-/

namespace SharedInfra.SecretsAudit

open Python
open Sequences (Pattern)

section Rendering

variable (format : Format)

/-- `f"{text:<{width}}"`. -/
def padded (text : Str) (width : Nat) : Str := text ++ List.replicate (width - text.length) ' '

def longest (texts : List Str) : Nat := (texts.map List.length).foldl max 0

def stackLine (width statusWidth : Nat) (f : Finding) : Str :=
  rstrip (padded f.stack width ++ ("  ".toList ++ (padded f.judgement.status.word statusWidth ++
    ("  ".toList ++ f.judgement.detail))))

def siteDetail (detail : Val) : Except Raised Str :=
  if truthy detail then (asText detail).map fun text => "  ".toList ++ text else .ok []

def siteLine (site : SiteFinding) : Except Raised Str := do
  let detail ← siteDetail site.detail
  return "provider-selection site ".toList ++ (padded site.status.word 18 ++ ("  ".toList ++
    (site.site ++ detail)))

def undeclaredSiteLine (path : Str) : Str := "undeclared provider-selection site: ".toList ++ path

/-- A part of the report below an empty line. -/
def below (lines : List Str) : List Str := if lines = [] then [] else [] :: lines

def referenceLines (references : References) : List Str :=
  references.undeclared.map (fun path => "undeclared backend reference: ".toList ++ path) ++
    (references.stale.map (fun path =>
      "inventory names a file with no backend reference: ".toList ++ format.str path) ++
    if references.undeclared = [] ∧ references.stale = [] then
      ["backend references: every site in this repo is enumerated".toList] else [])

def unmet (findings : List Finding) : List Finding :=
  findings.filter fun f => !satisfiesTerminalState f

def openSites (sites : List SiteFinding) : List SiteFinding :=
  sites.filter fun s => decide (s.status ≠ .retired)

def completeLine : Str := "sweep complete: no stack depends on the GCP KMS key".toList

def incompleteLine (short live : Nat) : Str :=
  "sweep incomplete: ".toList ++ (decimal short ++ (" stack(s) short of their terminal state, ".toList
    ++ (decimal live ++ " provider-selection site(s) not verified retired".toList)))

def unmetLine (f : Finding) : Str :=
  match f.judgement.status with
  | .unresolved =>
    "  ".toList ++ (f.stack ++ (": pass --root to reach ".toList ++ format.str f.repo))
  | .needsAttestation =>
    "  ".toList ++ (f.stack ++ (": record an attestation in the inventory " ++
      "once it reaches its terminal state").toList)
  | status =>
    "  ".toList ++ (f.stack ++ (": ".toList ++ (status.word ++ (", wants ".toList ++
      format.str f.terminalState))))

def summaryLines (findings : List Finding) (sites : List SiteFinding) : List Str :=
  if unmet findings = [] ∧ openSites sites = [] then [completeLine]
  else incompleteLine (unmet findings).length (openSites sites).length ::
    (unmet findings).map (unmetLine format)

def attestedLines (findings : List Finding) : List Str :=
  match findings.filter fun f => f.judgement.attested with
  | [] => []
  | attested =>
    [] :: ("operator-attested, not machine-verified -- re-confirm each of these " ++
      "immediately before destroying the key version:").toList ::
      attested.map fun f => "  ".toList ++ (f.stack ++ (": ".toList ++ f.judgement.detail))

/-- The lines of the report. -/
def render (findings : List Finding) (references : Option References) (sites : List SiteFinding)
    (undeclared : List Str) : Except Raised (List Str) := do
  let width := longest (findings.map Finding.stack)
  let statusWidth := longest (findings.map fun f => f.judgement.status.word)
  let siteLines ← sites.mapM siteLine
  return findings.map (stackLine width statusWidth) ++ (below siteLines ++
    (below (undeclared.map undeclaredSiteLine) ++
    (references.elim [] (fun r => [] :: referenceLines format r) ++
    ([] :: summaryLines format findings sites ++ attestedLines findings))))

end Rendering

section Running

def acceptable : List Status :=
  [.migrated, .attestedMigrated, .attestedRemoved, .pending, .unresolved, .needsAttestation]

def exitCode (findings : List Finding) (references : Option References) (requireMigrated : Bool)
    (sites : List SiteFinding) (undeclared : List Str) : Nat :=
  if findings.any fun f => decide (f.judgement.status ∉ acceptable) then 1
  else if sites.any fun s => decide (s.status = .drift) then 1
  else if requireMigrated && findings.any (fun f => !satisfiesTerminalState f) then 1
  else if requireMigrated && sites.any (fun s => decide (s.status ≠ .retired)) then 1
  else if references.any fun r => decide (r.undeclared ≠ []) || decide (r.stale.length ≠ 0) then 1
  else if undeclared ≠ [] then 1
  else 0

structure Args where
  root : Bool
  requireMigrated : Bool
  skipReferenceScan : Bool
  asJson : Bool

/-- What the scans and the readings found. -/
structure Audit where
  findings : List Finding
  sites : List SiteFinding
  references : Option References
  undeclared : List Str

/-- What a run prints. -/
inductive Output where
  | cannotReadInventory
  | listsNoStacks
  | cannotReadFiles (paths : List Str)
  | json (audit : Audit)
  | report (audit : Audit) (lines : List Str)

variable (format : Format) (args : Args) (world : World)

/-- The two scans; nothing is scanned where they are skipped. -/
def scans (inventory : Val) : Except Raised (Option References × List Str) :=
  if args.skipReferenceScan then .ok (none, [])
  else do
    let references ← auditBackendReferences world inventory
    let undeclared ← auditProviderSelectionScan world inventory args.root
    return (some references, undeclared)

/-- The end of a run: what is printed, and its status. -/
def finish (audit : Audit) : Except Raised (Nat × Output) := do
  let status := exitCode audit.findings audit.references args.requireMigrated audit.sites
    audit.undeclared
  if args.asJson then return (status, .json audit)
  let lines ← render format audit.findings audit.references audit.sites audit.undeclared
  return (status, .report audit lines)

def auditInventory (inventory : Val) (entries : List Val) : Except Raised (Nat × Output) := do
  let findings ← entries.mapM (auditStack format world args.root)
  let sites ← auditProviderSelectionSites format world inventory args.root
  match scans args world inventory with
  | .error (.unreadableFiles paths) => return (2, .cannotReadFiles paths)
  | .error e => .error e
  | .ok (references, undeclared) => finish format args ⟨findings, sites, references, undeclared⟩

/-- `main`: the exit status and the output. -/
def main : Except Raised (Nat × Output) :=
  match world.inventory with
  | none => .ok (2, .cannotReadInventory)
  | some inventory => do
    match ← get "stacks".toList inventory with
    | .array (entry :: entries) => auditInventory format args world inventory (entry :: entries)
    | _ => return (2, .listsNoStacks)

end Running

section Summary

variable {format : Format} {findings : List Finding} {sites : List SiteFinding}
  {references : Option References} {undeclared lines : List Str}

theorem stackLine_ne (width statusWidth : Nat) (f : Finding) :
    stackLine width statusWidth f ≠ completeLine := by
  intro h
  have hword : ∃ init last, f.judgement.status.word = init ++ [last] ∧ isSpace last = false := by
    cases f.judgement.status
    all_goals exact ⟨_, _, (List.dropLast_append_getLast (by decide)).symm, by decide⟩
  obtain ⟨init, last, hword, hlast⟩ := hword
  have hline : stackLine width statusWidth f =
      padded f.stack width ++ "  ".toList ++ init ++ last ::
        rstrip (List.replicate (statusWidth - f.judgement.status.word.length) ' ' ++
          ("  ".toList ++ f.judgement.detail)) := by
    rw [stackLine]
    nth_rewrite 2 [padded]
    rw [hword, ← rstrip_past hlast]
    simp only [List.append_assoc, List.cons_append, List.nil_append]
  have hblanks : "  ".toList <:+: completeLine := by
    rw [← h, hline, List.append_assoc]
    exact List.infix_append _ _ _
  exact absurd hblanks (by decide)

theorem front_ne {front rest : Str} (h : ¬ front <+: completeLine) : front ++ rest ≠ completeLine :=
  fun heq => h (heq ▸ List.prefix_append front rest)

theorem siteLine_ne {site : SiteFinding} {line : Str} (h : siteLine site = .ok line) :
    line ≠ completeLine := by
  rw [siteLine] at h
  obtain ⟨detail, -, h⟩ := Effects.bind_eq_ok_iff.mp h
  obtain rfl := Except.ok.inj h
  exact front_ne (by decide)

theorem not_mem_below {lines : List Str} (h : completeLine ∉ lines) :
    completeLine ∉ below lines := by
  rw [below]
  split_ifs
  · exact List.not_mem_nil
  · rintro (_ | ⟨_, hmem⟩)
    exact h hmem

theorem undeclaredSiteLine_ne (path : Str) : undeclaredSiteLine path ≠ completeLine :=
  front_ne (by decide)

theorem not_mem_referenceLines (r : References) : completeLine ∉ referenceLines format r := by
  intro h
  rw [referenceLines] at h
  obtain h | h := List.mem_append.mp h
  · obtain ⟨path, -, h⟩ := List.mem_map.mp h
    exact front_ne (by decide) h
  · obtain h | h := List.mem_append.mp h
    · obtain ⟨path, -, h⟩ := List.mem_map.mp h
      exact front_ne (by decide) h
    · split_ifs at h
      · exact absurd (List.mem_singleton.mp h) (by decide)
      · cases h

theorem unmetLine_ne (f : Finding) : unmetLine format f ≠ completeLine := by
  rw [unmetLine]
  cases f.judgement.status
  all_goals exact front_ne (by decide)

theorem not_mem_attestedLines : completeLine ∉ attestedLines findings := by
  rw [attestedLines]
  cases findings.filter fun f => f.judgement.attested with
  | nil => exact List.not_mem_nil
  | cons f attested =>
    intro h
    obtain h | h := List.mem_cons.mp h
    · exact absurd h (by decide)
    · obtain h | h := List.mem_cons.mp h
      · rw [String.toList_append] at h
        exact front_ne (by decide) h.symm
      · obtain ⟨g, -, h⟩ := List.mem_map.mp h
        exact front_ne (by decide) h

theorem mem_summaryLines :
    completeLine ∈ summaryLines format findings sites ↔
      unmet findings = [] ∧ openSites sites = [] := by
  rw [summaryLines]
  split_ifs with h
  · exact iff_of_true (List.mem_singleton_self _) h
  · refine iff_of_false (fun hmem => ?_) h
    obtain hmem | hmem := List.mem_cons.mp hmem
    · exact front_ne (by decide) hmem.symm
    · obtain ⟨f, -, hmem⟩ := List.mem_map.mp hmem
      exact unmetLine_ne f hmem

theorem complete_iff (h : render format findings references sites undeclared = .ok lines) :
    completeLine ∈ lines ↔ unmet findings = [] ∧ openSites sites = [] := by
  obtain ⟨siteLines, hsites, h⟩ := Effects.bind_eq_ok_iff.mp h
  obtain rfl := Except.ok.inj h
  have hstacks : completeLine ∉ findings.map (stackLine (longest (findings.map Finding.stack))
      (longest (findings.map fun f => f.judgement.status.word))) := by
    intro hmem
    obtain ⟨f, -, hmem⟩ := List.mem_map.mp hmem
    exact stackLine_ne _ _ f hmem
  have hsiteLines : completeLine ∉ siteLines := by
    intro hmem
    obtain ⟨site, -, hline⟩ := Effects.exists_of_mem_right (Effects.mapM_eq_ok_iff.mp hsites) hmem
    exact siteLine_ne hline rfl
  have hundeclared : completeLine ∉ undeclared.map undeclaredSiteLine := by
    intro hmem
    obtain ⟨path, -, hmem⟩ := List.mem_map.mp hmem
    exact undeclaredSiteLine_ne path hmem
  have hreferences : completeLine ∉ references.elim [] fun r => [] :: referenceLines format r := by
    cases references with
    | none => exact List.not_mem_nil
    | some r =>
      intro hmem
      obtain hmem | hmem := List.mem_cons.mp hmem
      · exact absurd hmem (by decide)
      · exact not_mem_referenceLines r hmem
  have hsummary : completeLine ∈ summaryLines format findings sites ↔
      unmet findings = [] ∧ openSites sites = [] := mem_summaryLines
  rw [← hsummary]
  simp only [List.mem_append, List.mem_cons, hstacks, not_mem_below hsiteLines,
    not_mem_below hundeclared, hreferences, not_mem_attestedLines, false_or, or_false]
  exact or_iff_right (by decide)

end Summary

section Status

variable {format : Format} {args : Args} {world : World} {findings : List Finding}
  {sites : List SiteFinding} {references : Option References} {undeclared lines : List Str}
  {requireMigrated : Bool} {audit : Audit} {status : Nat} {output : Output} {inventory : Val}

theorem acceptable_of_satisfied {f : Finding} (h : satisfiesTerminalState f = true) :
    f.judgement.status ∈ acceptable := by
  have hall : ∀ s ∈ satisfiedBy f.terminalState, s ∈ acceptable := by
    rw [satisfiedBy]
    split_ifs <;> decide
  exact hall _ (of_decide_eq_true h)

theorem exitCode_cases : exitCode findings references requireMigrated sites undeclared = 0 ∨
    exitCode findings references requireMigrated sites undeclared = 1 := by
  rw [exitCode]
  split_ifs
  all_goals first | exact Or.inr rfl | exact Or.inl rfl

/-- No reference of the tree is undeclared, and none of the inventory stale. -/
def Enumerated (references : Option References) : Prop :=
  ∀ r ∈ references, r.undeclared = [] ∧ r.stale = []

theorem any_references_iff : (references.any fun r =>
    decide (r.undeclared ≠ []) || decide (r.stale.length ≠ 0)) = false ↔ Enumerated references := by
  cases references with
  | none => exact iff_of_true rfl fun r hr => (by cases hr)
  | some r =>
    rw [Enumerated, Option.any_some, Bool.or_eq_false_iff, decide_eq_false_iff_not,
      decide_eq_false_iff_not, not_not, not_not, List.length_eq_zero_iff]
    constructor
    · rintro h other hother
      obtain rfl := Option.some.inj hother
      exact h
    · exact fun h => h r rfl

theorem unmet_eq_nil_iff : unmet findings = [] ↔ ∀ f ∈ findings, satisfiesTerminalState f = true := by
  rw [unmet, List.filter_eq_nil_iff]
  simp

theorem openSites_eq_nil_iff : openSites sites = [] ↔ ∀ s ∈ sites, s.status = .retired := by
  rw [openSites, List.filter_eq_nil_iff]
  simp

theorem exitCode_eq_zero_iff : exitCode findings references true sites undeclared = 0 ↔
    (unmet findings = [] ∧ openSites sites = []) ∧ Enumerated references ∧ undeclared = [] := by
  rw [unmet_eq_nil_iff, openSites_eq_nil_iff, exitCode, ← any_references_iff]
  have hstatus : (∀ f ∈ findings, satisfiesTerminalState f = true) →
      (findings.any fun f => decide (f.judgement.status ∉ acceptable)) = false := by
    intro h
    rw [List.any_eq_false]
    intro f hf
    rw [decide_eq_true_eq, not_not]
    exact acceptable_of_satisfied (h f hf)
  have hdrift : (∀ s ∈ sites, s.status = .retired) →
      (sites.any fun s => decide (s.status = .drift)) = false := by
    intro h
    rw [List.any_eq_false]
    intro s hs
    rw [h s hs]
    decide
  have hmet : (findings.any fun f => !satisfiesTerminalState f) = false ↔
      ∀ f ∈ findings, satisfiesTerminalState f = true := by
    rw [List.any_eq_false]
    simp
  have hretired : (sites.any fun s => decide (s.status ≠ .retired)) = false ↔
      ∀ s ∈ sites, s.status = .retired := by
    rw [List.any_eq_false]
    simp
  constructor
  · intro h
    split_ifs at h with h1 h2 h3 h4 h5 h6
    rw [Bool.true_and, Bool.not_eq_true] at h3 h4
    exact ⟨⟨hmet.mp h3, hretired.mp h4⟩, Bool.not_eq_true _ ▸ h5, not_not.mp h6⟩
  · rintro ⟨⟨hfindings, hsites⟩, hreferences, rfl⟩
    rw [hstatus hfindings, hdrift hsites, hmet.mpr hfindings, hretired.mpr hsites, hreferences]
    rfl

theorem exitCode_undeclared (h : ¬ Enumerated references ∨ undeclared ≠ []) :
    exitCode findings references requireMigrated sites undeclared = 1 := by
  rw [exitCode]
  split_ifs with h1 h2 h3 h4 h5 h6
  · rfl
  · rfl
  · rfl
  · rfl
  · rfl
  · rfl
  · obtain h | h := h
    · exact absurd (any_references_iff.mp (Bool.not_eq_true _ ▸ h5)) h
    · exact absurd h h6

theorem exitCode_mono (h : exitCode findings references requireMigrated sites undeclared ≠ 0) :
    exitCode findings references true sites undeclared ≠ 0 := by
  intro hzero
  refine h ?_
  cases requireMigrated with
  | true => exact hzero
  | false =>
    rw [exitCode] at hzero ⊢
    split_ifs at hzero with h1 h2 h3 h4 h5 h6
    rw [if_neg h1, if_neg h2, Bool.false_and, Bool.false_and, if_neg Bool.false_ne_true,
      if_neg Bool.false_ne_true, if_neg h5, if_neg h6]

end Status

section Purpose

variable (format : Format) (args : Args) (world : World)

def Output.audit : Output → Option Audit
  | .json audit => some audit
  | .report audit _ => some audit
  | _ => none

def Hit (pattern : Pattern Char) (suffixes : List Str) (files : List ScanFile) (path : Str) : Prop :=
  ∃ file ∈ scanned suffixes files, ∃ text, file.text = some text ∧ pattern.search text = true ∧
    file.path = path

/-- A backend reference, or a provider selection of this or another repository, that is found and
not declared. -/
def Undeclared (inventory : Val) : Prop :=
  (∃ declared path, declaredReferences inventory = .ok declared ∧
    Hit backendReference scannableSuffixes (world.tree none) path ∧ .string path ∉ declared) ∨
  ∃ declared path, declaredSites inventory = .ok declared ∧
    (Hit providerSelection providerSelectionSuffixes (world.tree none) path ∧
        (.string thisRepo, .string path) ∉ declared ∨
      ∃ repos repo, siblings world args.root = .ok repos ∧ repo ∈ repos ∧
        Hit providerSelection providerSelectionSuffixes (world.tree (some repo)) path ∧
          (.string repo, .string path) ∉ declared)

def Readable : Node → Prop
  | .missing => True
  | .unreadable _ => False
  | .file text _ => text.isSome = true

/-- An entry of `stacks` of the shape the inventory has, with a file that can be read. -/
structure ShapedStack (fields : Dict) : Prop where
  project : ∃ v, Dict.get? fields "project".toList = some v
  stack : ∃ v, Dict.get? fields "stack".toList = some v
  terminalState : (Dict.get fields "terminal_state".toList).hashable = true
  attestation : truthy (Dict.get fields "attestation".toList) = true →
    ∃ d, Dict.get fields "attestation".toList = .object d
  configPath : truthy (Dict.get fields "config_path".toList) = true →
    ∃ path, Dict.get fields "config_path".toList = .string path
  repo : Dict.get fields "repo".toList = .null ∨ ∃ repo, Dict.get fields "repo".toList = .string repo
  readable : ∀ place path, resolveConfigPath args.root (.object fields) = .ok (.at place path) →
    Readable (world.file place path)

/-- An entry of `provider_selection_sites` of the shape the inventory has. -/
structure ShapedSite (fields : Dict) : Prop where
  path : ∃ path, Dict.get? fields "path".toList = some (.string path)
  repo : Dict.get fields "repo".toList = .null ∨ ∃ repo, Dict.get fields "repo".toList = .string repo
  marker : ∃ marker, (Dict.get? fields "must_not_contain".toList).getD
    (.string "gcpkms://".toList) = .string marker
  note : ∃ note, (Dict.get? fields "note".toList).getD (.string []) = .string note
  readable : ∀ repo path strerror, world.file (some repo) path ≠ .unreadable strerror

/-- An inventory that is read, of the shape its own has, and directories that can be listed. -/
structure Shaped : Prop where
  inventory : ∀ inventory ∈ world.inventory, ∃ fields, inventory = .object fields ∧
    (∀ entries, Dict.get fields "stacks".toList = .array entries →
      ∀ entry ∈ entries, ∃ d, entry = .object d ∧ ShapedStack args world d) ∧
    (∃ sites, (Dict.get? fields "provider_selection_sites".toList).getD (.array []) = .array sites ∧
      ∀ site ∈ sites, ∃ d, site = .object d ∧ ShapedSite world d) ∧
    ∃ sites, (Dict.get? fields "backend_reference_sites".toList).getD (.array []) = .array sites ∧
      ∀ site ∈ sites, ∃ d path, site = .object d ∧ Dict.get? d "path".toList = some (.string path)
  root : args.root = true → world.repos ≠ none

/-- How the report and the exit status of a run agree. -/
structure Agrees : Prop where
  ends : ∀ status output, main format args world = .ok (status, output) →
    status = 0 ∨ status = 1 ∨ status = 2
  complete : args.requireMigrated = true → ∀ status audit lines,
    main format args world = .ok (status, .report audit lines) →
      (status = 0 ↔ completeLine ∈ lines ∧ Enumerated audit.references ∧ audit.undeclared = [])
  undeclared : args.skipReferenceScan = false → ∀ inventory status output,
    world.inventory = some inventory → main format args world = .ok (status, output) →
      Undeclared args world inventory → status = 1 ∨ status = 2 ∧ output.audit = none
  monotone : ∀ status output, main format args world = .ok (status, output) → ∃ status',
    main format { args with requireMigrated := true } world = .ok (status', output) ∧
      (status ≠ 0 → status' ≠ 0)
  returns : Shaped args world → ∃ result, main format args world = .ok result

end Purpose

section Ends

variable {format : Format} {args : Args} {world : World} {audit : Audit} {status : Nat}
  {output : Output} {inventory : Val} {entries : List Val}

theorem finish_ok (h : finish format args audit = .ok (status, output)) :
    status = exitCode audit.findings audit.references args.requireMigrated audit.sites
      audit.undeclared ∧ output.audit = some audit ∧
      ∀ audit' lines, output = .report audit' lines → audit' = audit ∧
        render format audit.findings audit.references audit.sites audit.undeclared = .ok lines := by
  rw [finish] at h
  split_ifs at h
  · obtain ⟨rfl, rfl⟩ := Prod.mk.inj (Except.ok.inj h)
    exact ⟨rfl, rfl, fun audit' lines heq => (by cases heq)⟩
  · obtain ⟨lines, hlines, h⟩ := Effects.bind_eq_ok_iff.mp h
    obtain ⟨rfl, rfl⟩ := Prod.mk.inj (Except.ok.inj h)
    refine ⟨rfl, rfl, fun audit' lines' heq => ?_⟩
    obtain ⟨rfl, rfl⟩ := Output.report.inj heq
    exact ⟨rfl, hlines⟩

theorem auditInventory_ok (h : auditInventory format args world inventory entries =
    .ok (status, output)) :
    status = 2 ∧ output.audit = none ∨ ∃ audit, scans args world inventory =
      .ok (audit.references, audit.undeclared) ∧ finish format args audit = .ok (status, output) := by
  obtain ⟨findings, hfindings, h⟩ := Effects.bind_eq_ok_iff.mp h
  obtain ⟨sites, hsites, h⟩ := Effects.bind_eq_ok_iff.mp h
  cases hscans : scans args world inventory with
  | ok found =>
    rw [hscans] at h
    exact Or.inr ⟨⟨findings, sites, found.1, found.2⟩, rfl, h⟩
  | error e =>
    rw [hscans] at h
    cases e with
    | unreadableFiles paths =>
      obtain ⟨rfl, rfl⟩ := Prod.mk.inj (Except.ok.inj h)
      exact Or.inl ⟨rfl, rfl⟩
    | _ => cases h

theorem main_ok (h : main format args world = .ok (status, output)) :
    status = 2 ∧ output.audit = none ∨ ∃ inventory audit, world.inventory = some inventory ∧
      scans args world inventory = .ok (audit.references, audit.undeclared) ∧
        finish format args audit = .ok (status, output) := by
  rw [main] at h
  cases hinventory : world.inventory with
  | none =>
    rw [hinventory] at h
    obtain ⟨rfl, rfl⟩ := Prod.mk.inj (Except.ok.inj h)
    exact Or.inl ⟨rfl, rfl⟩
  | some inventory =>
    rw [hinventory] at h
    obtain ⟨value, hvalue, h⟩ := Effects.bind_eq_ok_iff.mp h
    have hnone : (pure (2, .listsNoStacks) : Except Raised (Nat × Output)) =
        .ok (status, output) → status = 2 ∧ output.audit = none := by
      intro hr
      obtain ⟨rfl, rfl⟩ := Prod.mk.inj (Except.ok.inj hr)
      exact ⟨rfl, rfl⟩
    cases value with
    | array items =>
      cases items with
      | nil => exact Or.inl (hnone h)
      | cons entry entries =>
        obtain h | ⟨audit, hscans, h⟩ := auditInventory_ok h
        · exact Or.inl h
        · exact Or.inr ⟨inventory, audit, rfl, hscans, h⟩
    | _ => exact Or.inl (hnone h)

theorem finish_mono (h : finish format args audit = .ok (status, output)) :
    ∃ status', finish format { args with requireMigrated := true } audit = .ok (status', output) ∧
      (status ≠ 0 → status' ≠ 0) := by
  have hstatus := (finish_ok h).1
  refine ⟨exitCode audit.findings audit.references true audit.sites audit.undeclared, ?_, ?_⟩
  · rw [finish] at h ⊢
    by_cases hjson : args.asJson = true
    · rw [if_pos hjson] at h
      obtain ⟨-, rfl⟩ := Prod.mk.inj (Except.ok.inj h)
      exact if_pos hjson
    · rw [if_neg hjson] at h
      obtain ⟨lines, hlines, h⟩ := Effects.bind_eq_ok_iff.mp h
      obtain ⟨-, rfl⟩ := Prod.mk.inj (Except.ok.inj h)
      exact (if_neg hjson).trans (Effects.bind_eq_ok_iff.mpr ⟨lines, hlines, rfl⟩)
  · rw [hstatus]
    exact exitCode_mono

theorem auditInventory_mono (h : auditInventory format args world inventory entries =
    .ok (status, output)) :
    ∃ status', auditInventory format { args with requireMigrated := true } world inventory entries =
      .ok (status', output) ∧ (status ≠ 0 → status' ≠ 0) := by
  obtain ⟨findings, hfindings, h⟩ := Effects.bind_eq_ok_iff.mp h
  obtain ⟨sites, hsites, h⟩ := Effects.bind_eq_ok_iff.mp h
  have hsame : scans { args with requireMigrated := true } world inventory =
      scans args world inventory := rfl
  cases hscans : scans args world inventory with
  | ok found =>
    rw [hscans] at h
    obtain ⟨status', hend, hmono⟩ := finish_mono h
    refine ⟨status', Effects.bind_eq_ok_iff.mpr ⟨findings, hfindings, ?_⟩, hmono⟩
    refine Effects.bind_eq_ok_iff.mpr ⟨sites, hsites, ?_⟩
    rw [hsame, hscans]
    exact hend
  | error e =>
    rw [hscans] at h
    cases e with
    | unreadableFiles paths =>
      refine ⟨status, Effects.bind_eq_ok_iff.mpr ⟨findings, hfindings, ?_⟩, id⟩
      refine Effects.bind_eq_ok_iff.mpr ⟨sites, hsites, ?_⟩
      rw [hsame, hscans]
      exact h
    | _ => cases h

theorem main_mono (h : main format args world = .ok (status, output)) :
    ∃ status', main format { args with requireMigrated := true } world = .ok (status', output) ∧
      (status ≠ 0 → status' ≠ 0) := by
  rw [main] at h ⊢
  cases hinventory : world.inventory with
  | none =>
    rw [hinventory] at h
    exact ⟨status, h, id⟩
  | some inventory =>
    rw [hinventory] at h
    obtain ⟨value, hvalue, h⟩ := Effects.bind_eq_ok_iff.mp h
    cases value with
    | array items =>
      cases items with
      | nil => exact ⟨status, Effects.bind_eq_ok_iff.mpr ⟨_, hvalue, h⟩, id⟩
      | cons entry entries =>
        obtain ⟨status', hend, hmono⟩ := auditInventory_mono h
        exact ⟨status', Effects.bind_eq_ok_iff.mpr ⟨_, hvalue, hend⟩, hmono⟩
    | _ => exact ⟨status, Effects.bind_eq_ok_iff.mpr ⟨_, hvalue, h⟩, id⟩

theorem mem_of_hit {pattern : Pattern Char} {suffixes hits : List Str} {files : List ScanFile}
    {path : Str} (h : scanPattern files pattern suffixes = .ok hits)
    (hhit : Hit pattern suffixes files path) : path ∈ hits := by
  rw [scanPattern] at h
  split_ifs at h
  rw [← Except.ok.inj h, List.mem_dedup]
  obtain ⟨file, hfile, text, htext, hsearch, rfl⟩ := hhit
  refine List.mem_map.mpr ⟨file, List.mem_filter.mpr ⟨hfile, ?_⟩, rfl⟩
  rw [htext]
  exact hsearch

theorem mem_undeclaredHits {declared : List (Val × Val)} {repo hit : Str} {hits : List Str}
    (hhit : hit ∈ hits) (h : (.string repo, .string hit) ∉ declared) :
    hit ∈ undeclaredHits declared repo hits := by
  refine List.mem_filter.mpr ⟨hhit, ?_⟩
  rw [Bool.not_eq_true', List.any_eq_false]
  intro site hsite hsame
  rw [Bool.and_eq_true, Val.isString_iff, Val.isString_iff] at hsame
  obtain ⟨hrepo, hpath⟩ := hsame
  exact h (by rw [← hrepo, ← hpath]; exact hsite)

theorem auditBackendReferences_undeclared {references : References} {declared : List Val}
    {path : Str} (h : auditBackendReferences world inventory = .ok references)
    (hdeclared : declaredReferences inventory = .ok declared)
    (hhit : Hit backendReference scannableSuffixes (world.tree none) path)
    (hnot : .string path ∉ declared) : references.undeclared ≠ [] := by
  obtain ⟨declared', hdeclared', h⟩ := Effects.bind_eq_ok_iff.mp h
  obtain ⟨found, hfound, h⟩ := Effects.bind_eq_ok_iff.mp h
  obtain ⟨stale, -, h⟩ := Effects.bind_eq_ok_iff.mp h
  rw [hdeclared] at hdeclared'
  obtain rfl := Except.ok.inj hdeclared'
  obtain rfl := Except.ok.inj h
  have hmem : path ∈ sorted (found.filter fun path => !declared.any (·.isString path)) := by
    refine List.mem_mergeSort.mpr (List.mem_filter.mpr ⟨mem_of_hit hfound hhit, ?_⟩)
    rw [Bool.not_eq_true', List.any_eq_false]
    intro v hv hsame
    exact hnot (Val.isString_iff.mp hsame ▸ hv)
  exact List.ne_nil_of_mem hmem

theorem auditProviderSelectionScan_undeclared {undeclared : List Str} {declared : List (Val × Val)}
    {path : Str} (h : auditProviderSelectionScan world inventory args.root = .ok undeclared)
    (hdeclared : declaredSites inventory = .ok declared)
    (hhit : Hit providerSelection providerSelectionSuffixes (world.tree none) path ∧
        (.string thisRepo, .string path) ∉ declared ∨
      ∃ repos repo, siblings world args.root = .ok repos ∧ repo ∈ repos ∧
        Hit providerSelection providerSelectionSuffixes (world.tree (some repo)) path ∧
          (.string repo, .string path) ∉ declared) : undeclared ≠ [] := by
  obtain ⟨declared', hdeclared', h⟩ := Effects.bind_eq_ok_iff.mp h
  obtain ⟨own, hown, h⟩ := Effects.bind_eq_ok_iff.mp h
  obtain ⟨repos', hrepos', h⟩ := Effects.bind_eq_ok_iff.mp h
  obtain ⟨others, hothers, h⟩ := Effects.bind_eq_ok_iff.mp h
  rw [hdeclared] at hdeclared'
  obtain rfl := Except.ok.inj hdeclared'
  obtain rfl := Except.ok.inj h
  have hfound : ∀ hit, hit ∈ undeclaredHits declared thisRepo own ++ others.flatten →
      sorted (undeclaredHits declared thisRepo own ++ others.flatten).dedup ≠ [] := fun hit hmem =>
    List.ne_nil_of_mem (List.mem_mergeSort.mpr (List.mem_dedup.mpr hmem))
  obtain ⟨hhit, hnot⟩ | ⟨repos, repo, hrepos, hrepo, hhit, hnot⟩ := hhit
  · exact hfound path (List.mem_append_left _ (mem_undeclaredHits (mem_of_hit hown hhit) hnot))
  · rw [hrepos] at hrepos'
    obtain rfl := Except.ok.inj hrepos'
    obtain ⟨shown, hshown, hscan⟩ :=
      Effects.exists_of_mem_left (Effects.mapM_eq_ok_iff.mp hothers) hrepo
    obtain ⟨hits, hhits, hscan⟩ := Effects.bind_eq_ok_iff.mp hscan
    obtain rfl := Except.ok.inj hscan
    refine hfound (repo ++ '/' :: path) (List.mem_append_right _ (List.mem_flatten.mpr
      ⟨_, hshown, List.mem_map.mpr ⟨path, ?_, rfl⟩⟩))
    exact mem_undeclaredHits (mem_of_hit hhits hhit) hnot

end Ends

end SharedInfra.SecretsAudit
