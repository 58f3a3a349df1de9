import SharedInfra.Alerting.SecretTemplates
import SharedInfra.Sequences.FirstMatch

/-!
# The secrets that are read back

The rendered configuration, read as YAML, holds the values that were given
exactly when every value stands for itself between single quotes and holds no
placeholder that is replaced after it (`secretsRead_iff`).  The pager's own
credentials always do, since they are used only if they are well formed.
-/

namespace SharedInfra.Alerting

open Python Yaml

section Values

variable {env : Env} {s : Str}

theorem not_infix_of_mem {old : Str} {c : Char} (hold : c ∈ old) (hs : c ∉ s) : ¬ old <:+: s :=
  fun h => hs (h.subset hold)

/-- The characters of a token and of the value of a pager that is disabled. -/
def isPagerChar (c : Char) : Bool :=
  c.isLower || c.isDigit || c == '_' || c == '-'

theorem plain_of_pagerChar {c : Char} (h : isPagerChar c = true) :
    (c ≠ '\'' ∧ isBreak c = false) ∧ isPrintable c = true ∧ c ≠ 'Y' := by
  have hrange : 45 ≤ c.toNat ∧ c.toNat ≤ 57 ∨ 95 ≤ c.toNat ∧ c.toNat ≤ 122 := by
    simp only [isPagerChar, Bool.or_eq_true, beq_iff_eq] at h
    rcases h with ((h | h) | rfl) | rfl
    · have := toNat_of_isLower h
      omega
    · have := toNat_of_isDigit h
      omega
    · exact Or.inr (by decide)
    · exact Or.inl (by decide)
  have hne : ∀ d : Char, (57 < d.toNat ∧ d.toNat < 95 ∨ d.toNat < 45) → c ≠ d := by
    rintro d hd rfl
    omega
  refine ⟨⟨hne _ (by decide), ?_⟩, ?_, hne _ (by decide)⟩
  · rw [isBreak, beq_false_of_ne (hne _ (by decide)), beq_false_of_ne (hne _ (by decide))]
    rfl
  · have hlow : (32 ≤ c.toNat ∧ c.toNat ≤ 126) := by omega
    simp [isPrintable, hlow]

theorem pagerChars_of_isToken (h : isToken s = true) : ∀ c ∈ s, isPagerChar c = true := by
  simp only [isToken, Bool.and_eq_true, List.all_eq_true] at h
  obtain ⟨⟨hstart, -⟩, hrest⟩ := h
  obtain ⟨rest, rfl⟩ := startsWith_iff.mp hstart
  intro c hc
  rcases List.mem_append.mp hc with hc | hc
  · rw [toList_literal] at hc
    simp only [List.mem_cons, List.not_mem_nil, or_false] at hc
    rcases hc with rfl | rfl | rfl <;> rfl
  · have hchar := hrest c hc
    simp only [isPagerChar, hchar, Bool.true_or]

theorem underscore_of_isHash (h : isHash s = true) : '_' ∉ s := by
  unfold isHash at h
  split at h
  · next kind tens units digest =>
      simp only [Bool.and_eq_true, List.all_eq_true] at h
      obtain ⟨⟨⟨⟨hkind, htens⟩, hunits⟩, -⟩, hdigest⟩ := h
      simp only [List.mem_cons, not_or]
      refine ⟨by decide, by decide, ?_, by decide, ?_, ?_, by decide, ?_⟩
      · rintro rfl
        cases hkind
      · rintro rfl
        revert htens
        decide
      · rintro rfl
        revert hunits
        decide
      · intro hmem
        exact absurd (hdigest _ hmem) (by decide)
  · cases h

/-- What is put in for a placeholder of the pager. -/
def ntfyValue (env : Env) (entry : Str × Str) : Str :=
  if ntfyProblems env = [] then valueOf env entry.2 else ntfyDisabledValue

theorem credentials_of_no_problems (h : ntfyProblems env = []) :
    (∀ var ∈ ntfyTokenVars, isToken (valueOf env var) = true) ∧
      ∀ var ∈ ntfyHashVars, isHash (valueOf env var) = true := by
  rw [ntfyProblems] at h
  by_cases hunset : ((ntfyPlaceholders.map Prod.snd).filter (isUnset env)).map
      (· ++ " is not set".toList) ≠ []
  · rw [if_pos hunset] at h
    exact absurd h hunset
  · rw [if_neg hunset] at h
    simp only [List.append_eq_nil_iff, List.map_eq_nil_iff, List.filter_eq_nil_iff] at h
    obtain ⟨⟨⟨htokens, hhashes⟩, -⟩, -⟩ := h
    exact ⟨fun var hvar => by simpa using htokens var hvar,
      fun var hvar => by simpa using hhashes var hvar⟩

theorem ntfy_names : (ntfyPlaceholders.all fun entry =>
    entry.1.contains 'Y' && entry.1.contains '_' && !placeholders.contains entry &&
      (ntfyTokenVars.contains entry.2 || ntfyHashVars.contains entry.2)) = true := by
  simp only [ntfyPlaceholders, placeholders, ntfyTokenVars, ntfyHashVars, toList_literal]
  decide

theorem ntfy_absent {entry later : Str × Str} (hentry : entry ∈ ntfyPlaceholders)
    (hlater : later ∈ ntfyPlaceholders) : ¬ later.1 <:+: ntfyValue env entry := by
  have hnames : ∀ entry ∈ ntfyPlaceholders, ('Y' ∈ entry.1 ∧ '_' ∈ entry.1) ∧
      (entry.2 ∈ ntfyTokenVars ∨ entry.2 ∈ ntfyHashVars) := by
    intro entry hentry
    have hcheck := List.all_eq_true.mp ntfy_names entry hentry
    simp only [Bool.and_eq_true, Bool.or_eq_true, List.contains_iff_mem] at hcheck
    exact ⟨hcheck.1.1, hcheck.2⟩
  obtain ⟨hy, hunder⟩ := (hnames later hlater).1
  rw [ntfyValue]
  split_ifs with hproblems
  · obtain ⟨htokens, hhashes⟩ := credentials_of_no_problems hproblems
    rcases (hnames entry hentry).2 with hvar | hvar
    · refine not_infix_of_mem hy fun hmem => ?_
      exact (plain_of_pagerChar (pagerChars_of_isToken (htokens _ hvar) _ hmem)).2.2 rfl
    · exact not_infix_of_mem hunder (underscore_of_isHash (hhashes _ hvar))
  · refine not_infix_of_mem hunder ?_
    have hvalue : ntfyDisabledValue = "ntfy-not-configured".toList := rfl
    rw [hvalue, toList_literal]
    decide

theorem ntfyPlaceholders_not_mem {entry : Str × Str} (h : entry ∈ ntfyPlaceholders) :
    entry ∉ placeholders := by
  have hcheck := List.all_eq_true.mp ntfy_names entry h
  simp only [Bool.and_eq_true, Bool.not_eq_true', List.contains_eq_mem, decide_eq_false_iff_not]
    at hcheck
  exact hcheck.1.2

theorem pairwise_stages_iff : (stages env).Pairwise (fun a b => ¬ b.1 <:+: a.2) ↔
    (placeholders ++ ntfyPlaceholders).Pairwise fun entry later =>
      entry ∈ placeholders → ¬ later.1 <:+: valueOf env entry.2 := by
  have hstages : stages env = placeholders.map (fun entry => (entry.1, valueOf env entry.2)) ++
      ntfyPlaceholders.map fun entry => (entry.1, ntfyValue env entry) := rfl
  have hfirst : (placeholders.map fun entry => (entry.1, valueOf env entry.2)).Pairwise
      (fun a b => ¬ b.1 <:+: a.2) ↔ placeholders.Pairwise fun entry later =>
        entry ∈ placeholders → ¬ later.1 <:+: valueOf env entry.2 := by
    rw [List.pairwise_map]
    constructor
    · intro h
      refine h.imp ?_
      exact fun hnot _ => hnot
    · exact fun h => h.imp_of_mem fun hentry _ hnot => hnot hentry
  have hntfy : (ntfyPlaceholders.map fun entry => (entry.1, ntfyValue env entry)).Pairwise
      fun a b => ¬ b.1 <:+: a.2 := by
    refine List.pairwise_map.mpr (List.pairwise_of_forall_mem_list fun a ha b hb => ?_)
    exact @ntfy_absent env a b ha hb
  have hother : ntfyPlaceholders.Pairwise fun entry later =>
      entry ∈ placeholders → ¬ later.1 <:+: valueOf env entry.2 :=
    List.pairwise_of_forall_mem_list fun a ha b _ hmem =>
      absurd hmem (ntfyPlaceholders_not_mem ha)
  rw [hstages, List.pairwise_append, List.pairwise_append, hfirst, and_iff_right hntfy,
    and_iff_right hother]
  refine and_congr_right fun _ => ?_
  constructor
  · intro h a ha b hb _
    exact h (a.1, valueOf env a.2) (List.mem_map_of_mem ha) (b.1, ntfyValue env b)
      (List.mem_map_of_mem hb)
  · intro h a ha b hb
    obtain ⟨entry, hentry, rfl⟩ := List.mem_map.mp ha
    obtain ⟨later, hlater, rfl⟩ := List.mem_map.mp hb
    exact h entry hentry later hlater hentry

end Values

section Reading

variable {env : Env} {rendered : Str}

theorem olds_plain : ∀ stage ∈ stages env, stage.1 ≠ [] ∧ '\'' ∉ stage.1 := by
  have holds : (stages env).map Prod.fst = olds := by
    simp only [stages, olds, List.map_append, List.map_map]
    rfl
  intro stage hstage
  have hcheck := List.all_eq_true.mp olds_checks stage.1 (holds ▸ List.mem_map_of_mem hstage)
  simpa using hcheck

theorem mem_olds {stage : Str × Str} (h : stage ∈ stages env) : stage.1 ∈ olds := by
  have holds : (stages env).map Prod.fst = olds := by
    simp only [stages, olds, List.map_append, List.map_map]
    rfl
  exact holds ▸ List.mem_map_of_mem h

theorem exists_alertmanager : ∃ template : Template,
    template.pieces = (splitQuotes alertmanagerTemplate).1 ∧
      template.last = (splitQuotes alertmanagerTemplate).2 ∧
      pieceText template.pieces template.last = alertmanagerTemplate := by
  have hcheck := templateChecks_alertmanager
  simp only [templateChecks, Bool.and_eq_true] at hcheck
  obtain ⟨template, hpieces, hlast⟩ := exists_template hcheck.1.1.1
  refine ⟨template, hpieces, hlast, ?_⟩
  rw [hpieces, hlast]
  exact pieceText_of_isTemplate hcheck.1.1.1

theorem apart_alertmanager :
    (∀ piece ∈ (splitQuotes alertmanagerTemplate).1, ∀ old ∈ olds,
      ¬ old <:+: piece.1 ∧ (old = piece.2 ∨ ¬ old <:+: piece.2)) ∧
    ∀ old ∈ olds, ¬ old <:+: (splitQuotes alertmanagerTemplate).2 := by
  have hcheck := templateChecks_alertmanager
  simp only [templateChecks, apartFrom, Bool.and_eq_true, List.all_eq_true, Bool.or_eq_true,
    Bool.not_eq_true', ← Bool.not_eq_true, occursIn_iff, beq_iff_eq] at hcheck
  exact hcheck.1.1.2

theorem plain_alertmanager : ∀ piece ∈ (splitQuotes alertmanagerTemplate).1,
    piece.2 ∉ unused ∧ PlainText piece.2 ∧ piece.2.all isPrintable = true := by
  have hcheck := templateChecks_alertmanager
  simp only [templateChecks, plainScalars, Bool.and_eq_true, List.all_eq_true,
    List.contains_eq_mem, bne_iff_ne, Bool.not_eq_true', decide_eq_false_iff_not] at hcheck
  intro piece hpiece
  obtain ⟨hunused, hchars⟩ := hcheck.1.2 piece hpiece
  exact ⟨hunused, fun c hc => (hchars c hc).1, List.all_eq_true.mpr fun c hc => (hchars c hc).2⟩

theorem slots_alertmanager : ∀ old ∈ olds.take 5,
    ∃ piece ∈ (splitQuotes alertmanagerTemplate).1, piece.2 = old := by
  have hcheck := templateChecks_alertmanager
  simp only [templateChecks, Bool.and_eq_true, List.all_eq_true, List.any_eq_true, beq_iff_eq]
    at hcheck
  exact hcheck.2

theorem rendered_eq {template : Template}
    (hpieces : template.pieces = (splitQuotes alertmanagerTemplate).1)
    (hlast : template.last = (splitQuotes alertmanagerTemplate).2)
    (htext : pieceText template.pieces template.last = alertmanagerTemplate)
    (hpairs : (stages env).Pairwise fun a b => ¬ b.1 <:+: a.2) :
    replaceAll (stages env) alertmanagerTemplate = template.text (filled env) := by
  rw [← htext, replaceAll_pieceText olds_plain, Template.text]
  congr 1
  · refine List.map_congr_left fun piece hpiece => Prod.ext ?_ ?_
    · refine replaceAll_of_absent fun stage hstage => ?_
      exact (apart_alertmanager.1 piece (hpieces ▸ hpiece) _ (mem_olds hstage)).1
    · refine replaceAll_eq_lookup hpairs (fun stage hstage => (olds_plain stage hstage).1) ?_
      exact fun stage hstage =>
        (apart_alertmanager.1 piece (hpieces ▸ hpiece) _ (mem_olds hstage)).2
  · refine replaceAll_of_absent fun stage hstage => ?_
    rw [hlast]
    exact apart_alertmanager.2 _ (mem_olds hstage)

theorem plain_pagerValue : ∀ entry ∈ ntfyPlaceholders.head?,
    PlainText (ntfyValue env entry) ∧ (ntfyValue env entry).all isPrintable = true := by
  have hchars : ∀ s : Str, (∀ c ∈ s, isPagerChar c = true) →
      PlainText s ∧ s.all isPrintable = true := fun s h =>
    ⟨fun c hc => (plain_of_pagerChar (h c hc)).1,
      List.all_eq_true.mpr fun c hc => (plain_of_pagerChar (h c hc)).2.1⟩
  intro entry hentry
  obtain rfl := Option.some.inj hentry
  rw [ntfyValue]
  split_ifs with hproblems
  · refine hchars _ (pagerChars_of_isToken ?_)
    exact (credentials_of_no_problems hproblems).1 _ List.mem_cons_self
  · have hvalue : ntfyDisabledValue = "ntfy-not-configured".toList := rfl
    rw [hvalue, toList_literal]
    refine hchars _ (List.all_eq_true.mp ?_)
    rfl

theorem plain_filled (h : PlainValues env) {piece : Str × Str}
    (hpiece : piece ∈ (splitQuotes alertmanagerTemplate).1) :
    PlainText (filled env piece.2) ∧ (filled env piece.2).all isPrintable = true := by
  obtain ⟨hunused, hplain⟩ := plain_alertmanager piece hpiece
  rw [filled]
  cases hlookup : (stages env).lookup piece.2 with
  | none => exact hplain
  | some value =>
    obtain ⟨before, after, hstages, -⟩ := List.lookup_eq_some_iff.mp hlookup
    have hmem : (piece.2, value) ∈ stages env := by
      rw [hstages]
      simp
    rcases List.mem_append.mp hmem with hmem | hmem
    · obtain ⟨entry, hentry, heq⟩ := List.mem_map.mp hmem
      obtain ⟨-, rfl⟩ := Prod.mk.inj heq
      exact h.plain entry hentry
    · obtain ⟨entry, hentry, heq⟩ := List.mem_map.mp hmem
      obtain ⟨hold, rfl⟩ := Prod.mk.inj heq
      rcases List.mem_cons.mp hentry with hfirst | htail
      · exact plain_pagerValue entry (by rw [hfirst]; rfl)
      · exact absurd (hold ▸ List.mem_map_of_mem htail) hunused

theorem locked_of_problems (hset : (placeholders.map Prod.snd).filter (isUnset env) = [])
    (h : ntfyProblems env ≠ []) : ∃ written settings,
      ntfyConfig ntfyTemplate env = .ok written ∧ readYaml ntfyTemplate = some settings ∧
        readYaml written = some (withoutBlocks authKeys false settings) ∧
        ∀ setting ∈ withoutBlocks authKeys false settings, ∀ key ∈ setting.key, key ∉ authKeys := by
  have hcheck := lockChecks_ntfy
  rw [lockChecks] at hcheck
  split at hcheck
  · cases hcheck
  · next settings hsettings =>
      simp only [Bool.and_eq_true, decide_eq_true_eq, List.all_eq_true, Bool.not_eq_true',
        ← Bool.not_eq_true, occursIn_iff] at hcheck
      obtain ⟨⟨hread, hkeys⟩, hnone⟩ := hcheck
      refine ⟨lockNtfyConfig ntfyTemplate, settings, ?_, hsettings, hread, ?_⟩
      · rw [ntfyConfig, if_neg h, render]
        simp only [hset, ne_eq, not_true_eq_false, if_false]
        rw [replaceAll_of_absent fun stage hstage => hnone _ (mem_olds hstage)]
      · intro setting hsetting key hkey
        have hall := hkeys setting hsetting
        rw [hkey] at hall
        simpa using hall

theorem nodup_stages : ((stages env).map Prod.fst).Nodup := by
  have holds : (stages env).map Prod.fst = olds := by
    simp only [stages, olds, List.map_append, List.map_map]
    rfl
  rw [holds, olds]
  simp only [placeholders, ntfyPlaceholders, List.cons_append, List.nil_append, List.map_cons,
    List.map_nil, toList_literal]
  decide

theorem set_of_render (h : render alertmanagerTemplate env = .ok rendered) :
    (placeholders.map Prod.snd).filter (isUnset env) = [] ∧
      rendered = replaceAll (stages env) alertmanagerTemplate := by
  have hset : (placeholders.map Prod.snd).filter (isUnset env) = [] := by
    by_contra hmissing
    rw [render, if_pos hmissing] at h
    cases h
  refine ⟨hset, ?_⟩
  rw [render, if_neg (not_not_intro hset)] at h
  exact (Except.ok.inj h).symm

theorem readYaml_alertmanager {template : Template}
    (hpieces : template.pieces = (splitQuotes alertmanagerTemplate).1)
    (htext : pieceText template.pieces template.last = alertmanagerTemplate) :
    readYaml alertmanagerTemplate = some template.settings := by
  have hself := (template.read_fill_iff id).mpr fun piece hpiece =>
    (plain_alertmanager piece (hpieces ▸ hpiece)).2
  have hid : template.text id = alertmanagerTemplate := by
    rw [← htext, Template.text]
    simp
  have hfill : Setting.fill id = id := by
    funext setting
    rcases setting with ⟨indent, item, key, _ | s | s | items⟩ <;> simp [Setting.fill, Value.fill]
  rw [hid, hfill, List.map_id] at hself
  exact hself

theorem plainValues_of_secretsRead (h : render alertmanagerTemplate env = .ok rendered)
    (hread : SecretsRead env rendered) : PlainValues env := by
  obtain ⟨-, hrendered⟩ := set_of_render h
  obtain ⟨template, hpieces, hlast, htext⟩ := exists_alertmanager
  obtain ⟨⟨settings, hsettings, hread⟩, htaken, -⟩ := hread
  obtain rfl := Option.some.inj ((readYaml_alertmanager hpieces htext).symm.trans hsettings)
  have hpairs := noneTaken_iff.mp htaken
  rw [hrendered, rendered_eq hpieces hlast htext hpairs, template.read_fill_iff] at hread
  refine ⟨fun entry hentry => ?_, pairwise_stages_iff.mp hpairs⟩
  have holds : entry.1 ∈ olds.take 5 := List.mem_map_of_mem hentry
  obtain ⟨piece, hpiece, hold⟩ := slots_alertmanager _ holds
  have hplain := hread piece (hpieces ▸ hpiece)
  have hmem : (entry.1, valueOf env entry.2) ∈ stages env :=
    List.mem_append_left _ (List.mem_map_of_mem hentry)
  rw [hold, filled, Sequences.lookup_of_mem nodup_stages hmem] at hplain
  exact hplain

/-- The secrets are read back exactly when the values are plain. -/
theorem secretsRead_iff (h : render alertmanagerTemplate env = .ok rendered) :
    SecretsRead env rendered ↔ PlainValues env := by
  refine ⟨plainValues_of_secretsRead h, fun hvalues => ?_⟩
  obtain ⟨hset, hrendered⟩ := set_of_render h
  obtain ⟨template, hpieces, hlast, htext⟩ := exists_alertmanager
  have hpairs := pairwise_stages_iff.mpr hvalues.apart
  refine ⟨⟨template.settings, readYaml_alertmanager hpieces htext, ?_⟩, noneTaken_iff.mpr hpairs,
    locked_of_problems hset⟩
  rw [hrendered, rendered_eq hpieces hlast htext hpairs, template.read_fill_iff]
  exact fun piece hpiece => plain_filled hvalues (hpieces ▸ hpiece)

/-- Values of one letter each. -/
def plainEnv : Env := fun var => some (var.take 1)

theorem secretsRead_plainEnv :
    SecretsRead plainEnv (replaceAll (stages plainEnv) alertmanagerTemplate) ↔
      PlainValues plainEnv := by
  refine secretsRead_iff ?_
  have hset : (placeholders.map Prod.snd).filter (isUnset plainEnv) = [] := by
    simp only [placeholders, List.map_cons, List.map_nil, toList_literal]
    decide
  rw [render, if_neg (not_not_intro hset)]

def quotedEnv : Env := fun var =>
  if var = "SMTP_PASSWORD".toList then some ['a', '\'', 'b'] else some (var.take 1)

/-- The password ends at its quote. -/
theorem quoted_password : ∃ rendered,
    render alertmanagerTemplate quotedEnv = .ok rendered ∧ ¬ SecretsRead quotedEnv rendered := by
  have hset : (placeholders.map Prod.snd).filter (isUnset quotedEnv) = [] := by
    simp only [placeholders, List.map_cons, List.map_nil, toList_literal]
    decide
  have hrender : render alertmanagerTemplate quotedEnv =
      .ok (replaceAll (stages quotedEnv) alertmanagerTemplate) := by
    rw [render, if_neg (not_not_intro hset)]
  refine ⟨_, hrender, fun hread => ?_⟩
  have hplain := (plainValues_of_secretsRead hrender hread).plain
    ("__SMTP_PASSWORD__".toList, "SMTP_PASSWORD".toList)
    (List.mem_cons_of_mem _ List.mem_cons_self)
  have hvalue : valueOf quotedEnv "SMTP_PASSWORD".toList = ['a', '\'', 'b'] := by
    rw [valueOf, quotedEnv, if_pos rfl]
    rfl
  rw [hvalue] at hplain
  exact (hplain.1 '\'' (by decide)).1 rfl

end Reading

end SharedInfra.Alerting
