import SharedInfra.Alerting.SecretRender
import SharedInfra.Formats.YamlTemplate

/-!
# What a rendered secret is read as

What it says that the values that were given are read back (`SecretsRead`), the
replacements over the pieces of a text, and what is checked, once, of the two
templates: that they are read, and that no text in them holds a placeholder.
-/

namespace SharedInfra.Alerting

open Python Yaml

section Property

variable (env : Env)

/-- What is put in for a scalar of the template. -/
def filled (s : Str) : Str := ((stages env).lookup s).getD s

/-- No placeholder is found in a text, which the replacements so far have changed. -/
def Untouched (content : Str) : List (Str × Str) → Prop
  | [] => True
  | stage :: later =>
    ¬ stage.1 <:+: content ∧ Untouched (replace content stage.1 stage.2) later

/-- No value that was put in is taken for a placeholder. -/
def NoneTaken : List (Str × Str) → Prop
  | [] => True
  | stage :: later => Untouched stage.2 later ∧ NoneTaken later

def authKeys : List Str := ["auth-users".toList, "auth-access".toList, "auth-tokens".toList]

/-- The settings without the blocks of some top-level keys. -/
def withoutBlocks (keys : List Str) : Bool → List Setting → List Setting
  | _, [] => []
  | dropping, setting :: settings =>
    if setting.indent = 0 ∧ setting.item = false then
      if setting.key.any (· ∈ keys) then withoutBlocks keys true settings
      else setting :: withoutBlocks keys false settings
    else if dropping then withoutBlocks keys true settings
    else setting :: withoutBlocks keys false settings

structure SecretsRead (rendered : Str) : Prop where
  read : ∃ settings, readYaml alertmanagerTemplate = some settings ∧
    readYaml rendered = some (settings.map (Setting.fill (filled env)))
  taken : NoneTaken (stages env)
  locked : ntfyProblems env ≠ [] → ∃ written settings,
    ntfyConfig ntfyTemplate env = .ok written ∧ readYaml ntfyTemplate = some settings ∧
      readYaml written = some (withoutBlocks authKeys false settings) ∧
      ∀ setting ∈ withoutBlocks authKeys false settings, ∀ key ∈ setting.key, key ∉ authKeys

/-- Values that stand for themselves between quotes, without a placeholder that is replaced
later. -/
structure PlainValues : Prop where
  plain : ∀ entry ∈ placeholders,
    PlainText (valueOf env entry.2) ∧ (valueOf env entry.2).all isPrintable = true
  apart : (placeholders ++ ntfyPlaceholders).Pairwise fun entry later =>
    entry ∈ placeholders → ¬ later.1 <:+: valueOf env entry.2

end Property

section Replacing

variable {stages : List (Str × Str)} {content s last : Str} {pieces : List (Str × Str)}

theorem replaceAll_of_absent (h : ∀ stage ∈ stages, ¬ stage.1 <:+: s) :
    replaceAll stages s = s := by
  induction stages with
  | nil => rfl
  | cons stage later ih =>
    rw [replaceAll, List.foldl_cons, replace_of_absent (h stage List.mem_cons_self)]
    exact ih fun other hother => h other (List.mem_cons_of_mem _ hother)

theorem untouched_iff : Untouched content stages ↔ ∀ stage ∈ stages, ¬ stage.1 <:+: content := by
  induction stages generalizing content with
  | nil => simp [Untouched]
  | cons stage later ih =>
    rw [Untouched, ih, List.forall_mem_cons]
    refine and_congr_right fun hnot => ?_
    rw [replace_of_absent hnot]

theorem noneTaken_iff : NoneTaken stages ↔ stages.Pairwise fun a b => ¬ b.1 <:+: a.2 := by
  induction stages with
  | nil => simp [NoneTaken]
  | cons stage later ih => rw [NoneTaken, untouched_iff, ih, List.pairwise_cons]

theorem replaceAll_eq_lookup (hpairs : stages.Pairwise fun a b => ¬ b.1 <:+: a.2)
    (hne : ∀ stage ∈ stages, stage.1 ≠ [])
    (h : ∀ stage ∈ stages, stage.1 = s ∨ ¬ stage.1 <:+: s) :
    replaceAll stages s = (stages.lookup s).getD s := by
  induction stages with
  | nil => rfl
  | cons stage later ih =>
    obtain ⟨old, new⟩ := stage
    obtain ⟨hlater, hpairs⟩ := List.pairwise_cons.mp hpairs
    rw [replaceAll, List.foldl_cons]
    by_cases hs : s = old
    · subst hs
      rw [replace_self (hne _ List.mem_cons_self), List.lookup_cons_self, Option.getD_some]
      exact replaceAll_of_absent hlater
    · have hnot : ¬ old <:+: s :=
        (h _ List.mem_cons_self).resolve_left fun heq => hs heq.symm
      have hbeq : (s == old) = false := beq_false_of_ne hs
      rw [replace_of_absent hnot, List.lookup_cons, hbeq]
      exact ih hpairs (fun other hother => hne other (List.mem_cons_of_mem _ hother))
        fun other hother => h other (List.mem_cons_of_mem _ hother)

theorem replaceAll_pieceText (hstages : ∀ stage ∈ stages, stage.1 ≠ [] ∧ '\'' ∉ stage.1) :
    replaceAll stages (pieceText pieces last) =
      pieceText (pieces.map fun piece => (replaceAll stages piece.1, replaceAll stages piece.2))
        (replaceAll stages last) := by
  induction stages generalizing pieces last with
  | nil => simp [replaceAll]
  | cons stage later ih =>
    obtain ⟨hne, hquote⟩ := hstages stage List.mem_cons_self
    have hone : replace (pieceText pieces last) stage.1 stage.2 =
        pieceText (pieces.map fun piece =>
          (replace piece.1 stage.1 stage.2, replace piece.2 stage.1 stage.2))
          (replace last stage.1 stage.2) := by
      clear ih
      induction pieces with
      | nil => rfl
      | cons piece pieces ih =>
        rw [pieceText, replace_cut hne hquote, replace_cut hne hquote, ih]
        rfl
    rw [replaceAll, List.foldl_cons, hone]
    refine (ih fun other hother => hstages other (List.mem_cons_of_mem _ hother)).trans ?_
    rw [List.map_map]
    rfl

end Replacing

/-- No text between scalars holds a placeholder, and a scalar is one or holds none. -/
def apartFrom (olds : List Str) (found : List (Str × Str) × Str) : Bool :=
  (found.1.all fun piece => olds.all fun old =>
      !occursIn old piece.1 && (old == piece.2 || !occursIn old piece.2)) &&
    olds.all fun old => !occursIn old found.2

/-- The scalars stand for themselves, and some placeholders are not among them. -/
def plainScalars (unused : List Str) (found : List (Str × Str) × Str) : Bool :=
  found.1.all fun piece => !unused.contains piece.2 &&
    piece.2.all fun c => c != '\'' && !isBreak c && isPrintable c

def templateChecks (olds unused : List Str) (text : Str) : Bool :=
  let found := splitQuotes text
  isTemplate text && apartFrom olds found && plainScalars unused found &&
    (olds.take 5).all fun old => found.1.any fun piece => piece.2 == old

/-- What is checked of the template of the pager, once. -/
def lockChecks (olds : List Str) (text : Str) : Bool :=
  match readYaml text with
  | none => false
  | some settings =>
    decide (readYaml (lockNtfyConfig text) = some (withoutBlocks authKeys false settings)) &&
      (withoutBlocks authKeys false settings).all
        (fun setting => setting.key.all (· ∉ authKeys)) &&
      olds.all fun old => !occursIn old (lockNtfyConfig text)

def olds : List Str := (placeholders ++ ntfyPlaceholders).map Prod.fst

def unused : List Str := ntfyPlaceholders.tail.map Prod.fst

theorem templateChecks_alertmanager : templateChecks olds unused alertmanagerTemplate = true := by
  have hreceiver : pageReceiverName = "ntfy-page".toList := rfl
  simp only [alertmanagerTemplate, renderAlertmanagerTemplate, headLines, fixedRouteLines,
    receiverLines, hreceiver, olds, unused, placeholders, ntfyPlaceholders, List.cons_append,
    List.nil_append, List.map_cons, List.map_nil, List.tail_cons, toList_literal]
  simp only [templateChecks, Bool.and_eq_true]
  refine ⟨⟨⟨?_, ?_⟩, ?_⟩, ?_⟩ <;> decide +kernel

theorem lockChecks_ntfy : lockChecks olds ntfyTemplate = true := by
  simp only [ntfyTemplate, ntfyLines, olds, placeholders, ntfyPlaceholders, List.cons_append,
    List.nil_append, List.map_cons, List.map_nil, toList_literal]
  decide +kernel

theorem olds_checks : (olds.all fun old => old != [] && !old.contains '\'') = true := by
  simp only [olds, placeholders, ntfyPlaceholders, List.cons_append, List.nil_append,
    List.map_cons, List.map_nil, toList_literal]
  decide

end SharedInfra.Alerting
