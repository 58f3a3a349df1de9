import SharedInfra.SecretsAudit.Report

/-!
# Runs of the audit on an inventory of its shape

Nothing is raised on an inventory of the shape the repository's own has, so such a run ends with a
status (`main_returns`); for every inventory the report and the status agree as `audit_agrees` says.
-/

namespace SharedInfra.SecretsAudit

open Python
open Sequences (Pattern)

section Stacks

variable {format : Format} {args : Args} {world : World} {fields : Dict} {name : Str}

/-- Nothing is raised. -/
def Returns {α : Type} (x : Except Raised α) : Prop := ∃ a, x = .ok a

theorem Returns.bind {α β : Type} {x : Except Raised α} {f : α → Except Raised β} {a : α}
    (hx : x = .ok a) (h : Returns (f a)) : Returns (x >>= f) := by
  obtain ⟨b, hb⟩ := h
  exact ⟨b, Effects.bind_eq_ok_iff.mpr ⟨a, hx, hb⟩⟩

theorem item_object {v : Val} (h : Dict.get? fields name = some v) :
    item name (.object fields) = .ok v := by
  rw [item, h]
  rfl

theorem readStatement_returns (attested : Attested) (d : Dict) :
    Returns (readStatement format attested (.object d)) := by
  refine Returns.bind rfl (Returns.bind rfl ?_)
  split_ifs
  all_goals exact ⟨_, rfl⟩

theorem readAttestation_returns (h : ShapedStack args world fields) :
    Returns (readAttestation format (.object fields)) := by
  refine Returns.bind rfl ?_
  by_cases htruthy : truthy (Dict.get fields "attestation".toList) = true
  · obtain ⟨d, hd⟩ := h.attestation htruthy
    rw [htruthy, hd]
    refine Returns.bind rfl ?_
    split_ifs
    · exact readStatement_returns .removed d
    · exact readStatement_returns .migrated d
    · exact ⟨_, rfl⟩
  · rw [Bool.eq_false_iff.mpr htruthy]
    exact ⟨_, rfl⟩

theorem resolveConfigPath_returns (h : ShapedStack args world fields) :
    Returns (resolveConfigPath args.root (.object fields)) := by
  refine Returns.bind rfl ?_
  by_cases htruthy : truthy (Dict.get fields "config_path".toList) = true
  · obtain ⟨path, hpath⟩ := h.configPath htruthy
    rw [htruthy, hpath]
    refine Returns.bind rfl ?_
    obtain hrepo | ⟨repo, hrepo⟩ := h.repo
    · rw [hrepo]
      split_ifs with hthis hunreachable
      · exact ⟨_, rfl⟩
      · exact ⟨_, rfl⟩
      · exact absurd (by simp) hunreachable
    · rw [hrepo]
      split_ifs
      all_goals exact ⟨_, rfl⟩
  · rw [Bool.eq_false_iff.mpr htruthy]
    exact ⟨_, rfl⟩

theorem judgePlace_returns (h : ShapedStack args world fields) {place : Place}
    (hplace : resolveConfigPath args.root (.object fields) = .ok place) (attestation : Attestation)
    (repo : Val) : Returns (judgePlace format world attestation repo place) := by
  cases place with
  | none => cases attestation <;> exact ⟨_, rfl⟩
  | unreachable => exact ⟨_, rfl⟩
  | «at» place path =>
    have hreadable := h.readable place path hplace
    unfold judgePlace
    dsimp only
    cases hnode : world.file place path with
    | missing =>
      cases attestation with
      | made attested detail => cases attested <;> exact ⟨_, rfl⟩
      | _ => exact ⟨_, rfl⟩
    | unreadable strerror =>
      rw [hnode] at hreadable
      exact hreadable.elim
    | file text lossy =>
      rw [hnode] at hreadable
      obtain ⟨text, rfl⟩ := Option.isSome_iff_exists.mp hreadable
      cases attestation <;> exact ⟨_, rfl⟩

theorem auditStack_returns (h : ShapedStack args world fields) :
    Returns (auditStack format world args.root (.object fields)) := by
  obtain ⟨project, hproject⟩ := h.project
  obtain ⟨stack, hstack⟩ := h.stack
  refine Returns.bind (item_object hproject) (Returns.bind (item_object hstack) ?_)
  refine Returns.bind rfl (Returns.bind rfl ?_)
  have hjudged : Returns (judgeEntry format world args.root (.object fields)
      (Dict.get fields "terminal_state".toList) (Dict.get fields "repo".toList)) := by
    refine Returns.bind (if_pos h.terminalState) ?_
    split_ifs
    · exact ⟨_, rfl⟩
    · obtain ⟨attestation, hattestation⟩ := readAttestation_returns h
      obtain ⟨place, hplace⟩ := resolveConfigPath_returns h
      refine Returns.bind hattestation ?_
      cases attestation with
      | drift detail => exact ⟨_, rfl⟩
      | _ => exact Returns.bind hplace (judgePlace_returns h hplace _ _)
  obtain ⟨judgement, hjudgement⟩ := hjudged
  exact Returns.bind hjudgement ⟨_, rfl⟩

def GivesText (x : Except Raised SiteFinding) : Prop :=
  ∃ site detail, x = .ok site ∧ site.detail = .string detail

theorem GivesText.bind {α : Type} {x : Except Raised α} {f : α → Except Raised SiteFinding} {a : α}
    (hx : x = .ok a) (h : GivesText (f a)) : GivesText (x >>= f) := by
  obtain ⟨site, detail, hsite, hdetail⟩ := h
  exact ⟨site, detail, Effects.bind_eq_ok_iff.mpr ⟨a, hx, hsite⟩, hdetail⟩

theorem auditSite_givesText (h : ShapedSite world fields) :
    GivesText (auditSite format world args.root (.object fields)) := by
  obtain ⟨path, hpath⟩ := h.path
  obtain ⟨marker, hmarker⟩ := h.marker
  obtain ⟨note, hnote⟩ := h.note
  have hnode : ∃ node, siteNode world args.root (Dict.get fields "repo".toList) (.string path) =
      .ok node ∧ ∀ strerror, node ≠ .unreadable strerror := by
    rw [siteNode]
    split_ifs with hroot
    · obtain ⟨-, htruthy⟩ := Bool.and_eq_true _ _ ▸ hroot
      obtain hrepo | ⟨repo, hrepo⟩ := h.repo
      · rw [hrepo] at htruthy
        cases htruthy
      · rw [hrepo]
        exact ⟨_, rfl, fun strerror => h.readable repo path strerror⟩
    · exact ⟨.missing, rfl, fun strerror heq => (by cases heq)⟩
  obtain ⟨node, hnode, hreadable⟩ := hnode
  have hmarked : getOr "must_not_contain".toList (.string "gcpkms://".toList) (.object fields) =
      .ok (.string marker) := congrArg Except.ok hmarker
  have hnoted : getOr "note".toList (.string []) (.object fields) = .ok (.string note) :=
    congrArg Except.ok hnote
  refine GivesText.bind rfl (GivesText.bind (item_object hpath) ?_)
  refine GivesText.bind hmarked (GivesText.bind hnoted (GivesText.bind rfl ?_))
  cases Dict.get fields "retired".toList with
  | bool claimed =>
    refine GivesText.bind hnode ?_
    cases node with
    | missing => cases claimed <;> exact ⟨_, _, rfl, rfl⟩
    | unreadable strerror => exact absurd rfl (hreadable strerror)
    | file text lossy =>
      refine GivesText.bind rfl (GivesText.bind rfl ?_)
      unfold judgeSite
      split_ifs
      all_goals exact ⟨_, _, rfl, rfl⟩
  | _ => exact ⟨_, _, rfl, rfl⟩

end Stacks

section Scans

variable {α β : Type} {format : Format} {args : Args} {world : World} {fields : Dict}

/-- Nothing is raised but that files could not be read. -/
def Scans (x : Except Raised α) : Prop :=
  Returns x ∨ ∃ paths, x = .error (.unreadableFiles paths)

theorem Scans.bind {x : Except Raised α} {f : α → Except Raised β} (hx : Scans x)
    (h : ∀ a, x = .ok a → Scans (f a)) : Scans (x >>= f) := by
  obtain ⟨a, ha⟩ | ⟨paths, hpaths⟩ := hx
  · have hf := h a ha
    rw [ha]
    exact hf
  · exact Or.inr ⟨paths, by rw [hpaths]; rfl⟩

theorem scans_mapM {f : α → Except Raised β} {xs : List α} (h : ∀ x ∈ xs, Scans (f x)) :
    Scans (xs.mapM f) := by
  induction xs with
  | nil => exact Or.inl ⟨[], rfl⟩
  | cons x xs ih =>
    obtain ⟨hx, hxs⟩ := List.forall_mem_cons.mp h
    rw [List.mapM_cons]
    refine Scans.bind hx fun y _ => Scans.bind (ih hxs) fun ys _ => Or.inl ⟨y :: ys, rfl⟩

theorem scanPattern_scans (files : List ScanFile) (pattern : Pattern Char) (suffixes : List Str) :
    Scans (scanPattern files pattern suffixes) := by
  unfold scanPattern
  dsimp only
  split_ifs
  · exact Or.inl ⟨_, rfl⟩
  · exact Or.inr ⟨_, rfl⟩

theorem listed_object {name : Str} {sites : List Val}
    (h : (Dict.get? fields name).getD (.array []) = .array sites) :
    listed name (.object fields) = .ok sites :=
  Effects.bind_eq_ok_iff.mpr ⟨.array sites, congrArg Except.ok h, rfl⟩

theorem setOf_subset (values : List Val) : ∀ v ∈ setOf values, v ∈ values := by
  have hfold : ∀ set : List Val, ∀ v ∈ values.foldl
      (fun set v => if set.any v.same then set else set ++ [v]) set, v ∈ set ∨ v ∈ values := by
    induction values with
    | nil => exact fun set v hv => Or.inl hv
    | cons first values ih =>
      intro set v hv
      obtain hv | hv := ih _ v hv
      · dsimp only at hv
        split_ifs at hv
        · exact Or.inl hv
        · obtain hv | hv := List.mem_append.mp hv
          · exact Or.inl hv
          · rw [List.mem_singleton.mp hv]
            exact Or.inr List.mem_cons_self
      · exact Or.inr (List.mem_cons_of_mem _ hv)
  exact fun v hv => (hfold [] v hv).resolve_left List.not_mem_nil

theorem sortedVals_returns {values : List Val} (h : ∀ v ∈ values, ∃ text, v = .string text) :
    Returns (sortedVals values) := by
  have htext : (values.all fun v => (text? v).isSome) = true := by
    refine List.all_eq_true.mpr fun v hv => ?_
    obtain ⟨text, rfl⟩ := h v hv
    rfl
  unfold sortedVals
  split_ifs
  all_goals exact ⟨_, rfl⟩

theorem declaredReferences_texts {sites : List Val}
    (hsites : (Dict.get? fields "backend_reference_sites".toList).getD (.array []) = .array sites)
    (h : ∀ site ∈ sites, ∃ d path, site = .object d ∧
      Dict.get? d "path".toList = some (.string path)) :
    ∃ declared, declaredReferences (.object fields) = .ok declared ∧
      ∀ v ∈ declared, ∃ text, v = .string text := by
  have hread : ∀ site ∈ sites, ∃ text, (do hashed (← item "path".toList site)) =
      (.ok (.string text) : Except Raised Val) := by
    intro site hsite
    obtain ⟨d, path, rfl, hpath⟩ := h site hsite
    refine ⟨path, ?_⟩
    rw [item_object hpath]
    rfl
  obtain ⟨declared, hdeclared⟩ := Effects.mapM_succeeds_iff.mpr fun site hsite =>
    (hread site hsite).imp' Val.string fun text htext => htext
  refine ⟨declared, Effects.bind_eq_ok_iff.mpr ⟨sites, listed_object hsites, hdeclared⟩, ?_⟩
  intro v hv
  obtain ⟨site, hsite, hv⟩ :=
    Effects.exists_of_mem_right (Effects.mapM_eq_ok_iff.mp hdeclared) hv
  obtain ⟨text, htext⟩ := hread site hsite
  exact ⟨text, Except.ok.inj (hv.symm.trans htext)⟩

theorem declaredSites_returns {sites : List Val}
    (hsites : (Dict.get? fields "provider_selection_sites".toList).getD (.array []) = .array sites)
    (h : ∀ site ∈ sites, ∃ d, site = .object d ∧ ShapedSite world d) :
    Returns (declaredSites (.object fields)) := by
  refine Returns.bind (listed_object hsites) (Effects.mapM_succeeds_iff.mpr fun site hsite => ?_)
  obtain ⟨d, rfl, hshape⟩ := h site hsite
  obtain ⟨path, hpath⟩ := hshape.path
  refine Returns.bind rfl (Returns.bind (item_object hpath) ?_)
  obtain hrepo | ⟨repo, hrepo⟩ := hshape.repo
  · rw [hrepo]
    exact ⟨_, rfl⟩
  · rw [hrepo]
    split_ifs
    all_goals exact ⟨_, rfl⟩

theorem siblings_returns (h : args.root = true → world.repos ≠ none) :
    Returns (siblings world args.root) := by
  rw [siblings]
  split_ifs with hroot
  · cases hrepos : world.repos with
    | none => exact absurd hrepos (h hroot)
    | some entries => exact ⟨_, rfl⟩
  · exact ⟨_, rfl⟩

end Scans

section Runs

variable {format : Format} {args : Args} {world : World} {fields : Dict} {audit : Audit}

theorem finish_returns (h : ∀ site ∈ audit.sites, ∃ detail, site.detail = .string detail) :
    Returns (finish format args audit) := by
  unfold finish
  split_ifs
  · exact ⟨_, rfl⟩
  · have hlines : ∀ site ∈ audit.sites, ∃ line, siteLine site = .ok line := by
      intro site hsite
      obtain ⟨detail, hdetail⟩ := h site hsite
      have hshown : Returns (siteDetail site.detail) := by
        rw [siteDetail, hdetail]
        split_ifs
        all_goals exact ⟨_, rfl⟩
      obtain ⟨shown, hshown⟩ := hshown
      exact Returns.bind hshown ⟨_, rfl⟩
    obtain ⟨lines, hlines⟩ := Effects.mapM_succeeds_iff.mpr hlines
    have hrender : Returns (render format audit.findings audit.references audit.sites
        audit.undeclared) := Returns.bind hlines ⟨_, rfl⟩
    obtain ⟨report, hreport⟩ := hrender
    exact Returns.bind hreport ⟨_, rfl⟩

theorem scans_scans (hroot : args.root = true → world.repos ≠ none) {declared : List Val}
    (hreferences : declaredReferences (.object fields) = .ok declared)
    (htexts : ∀ v ∈ declared, ∃ text, v = .string text)
    (hsites : Returns (declaredSites (.object fields))) :
    Scans (scans args world (.object fields)) := by
  unfold scans
  split_ifs
  · exact Or.inl ⟨_, rfl⟩
  · refine Scans.bind (Scans.bind (Or.inl ⟨declared, hreferences⟩) fun v hv => ?_) fun _ _ => ?_
    · rw [hreferences] at hv
      obtain rfl := Except.ok.inj hv
      refine Scans.bind (scanPattern_scans _ _ _) fun found _ => ?_
      refine Scans.bind (Or.inl (sortedVals_returns fun v hv => ?_)) fun _ _ => Or.inl ⟨_, rfl⟩
      exact htexts v (List.mem_of_mem_filter (setOf_subset _ v hv))
    · refine Scans.bind (Scans.bind (Or.inl hsites) fun _ _ => ?_) fun _ _ => Or.inl ⟨_, rfl⟩
      refine Scans.bind (scanPattern_scans _ _ _) fun own _ => ?_
      refine Scans.bind (Or.inl (siblings_returns hroot)) fun repos _ => ?_
      refine Scans.bind (scans_mapM fun repo _ => ?_) fun _ _ => Or.inl ⟨_, rfl⟩
      exact Scans.bind (scanPattern_scans _ _ _) fun hits _ => Or.inl ⟨_, rfl⟩

theorem auditSites_texts {sites : List Val}
    (hsites : (Dict.get? fields "provider_selection_sites".toList).getD (.array []) = .array sites)
    (h : ∀ site ∈ sites, ∃ d, site = .object d ∧ ShapedSite world d) :
    ∃ found, auditProviderSelectionSites format world (.object fields) args.root = .ok found ∧
      ∀ site ∈ found, ∃ detail, site.detail = .string detail := by
  have hread : ∀ site ∈ sites, GivesText (auditSite format world args.root site) := by
    intro site hsite
    obtain ⟨d, rfl, hshape⟩ := h site hsite
    exact auditSite_givesText hshape
  have hreturns : ∀ site ∈ sites, ∃ found, auditSite format world args.root site = .ok found := by
    intro site hsite
    obtain ⟨found, detail, hfound, -⟩ := hread site hsite
    exact ⟨found, hfound⟩
  obtain ⟨found, hfound⟩ := Effects.mapM_succeeds_iff.mpr hreturns
  refine ⟨found, Effects.bind_eq_ok_iff.mpr ⟨sites, listed_object hsites, hfound⟩, ?_⟩
  intro result hresult
  obtain ⟨site, hsite, hok⟩ :=
    Effects.exists_of_mem_right (Effects.mapM_eq_ok_iff.mp hfound) hresult
  obtain ⟨found', detail, hfound', hdetail⟩ := hread site hsite
  rw [hfound'] at hok
  exact ⟨detail, Except.ok.inj hok ▸ hdetail⟩

theorem main_returns (h : Shaped args world) : Returns (main format args world) := by
  rw [main]
  cases hinventory : world.inventory with
  | none => exact ⟨_, rfl⟩
  | some inventory =>
    obtain ⟨fields, rfl, hstacks, ⟨sites, hsites, hsite⟩, references, hreferences, hreference⟩ :=
      h.inventory inventory hinventory
    refine Returns.bind rfl ?_
    cases hentries : Dict.get fields "stacks".toList with
    | array entries =>
      cases entries with
      | nil => exact ⟨_, rfl⟩
      | cons entry entries =>
        have hfindings : ∀ e ∈ entry :: entries,
            ∃ f, auditStack format world args.root e = .ok f := by
          intro e he
          obtain ⟨d, rfl, hshape⟩ := hstacks _ hentries e he
          exact auditStack_returns hshape
        obtain ⟨findings, hfindings⟩ := Effects.mapM_succeeds_iff.mpr hfindings
        obtain ⟨found, hfound, htexts⟩ := auditSites_texts hsites hsite
        obtain ⟨declared, hdeclared, hdeclaredTexts⟩ :=
          declaredReferences_texts hreferences hreference
        refine Returns.bind hfindings (Returns.bind hfound ?_)
        obtain ⟨⟨found', undeclared⟩, hscans⟩ | ⟨paths, hscans⟩ := scans_scans h.root hdeclared
          hdeclaredTexts (declaredSites_returns hsites hsite)
        · rw [hscans]
          exact finish_returns htexts
        · rw [hscans]
          exact ⟨_, rfl⟩
    | _ => exact ⟨_, rfl⟩

/-- The report and the status agree on the stacks and the declared sites; what is not declared
fails a run as well, and the summary line of the report is not about it. -/
theorem audit_agrees (format : Format) (args : Args) (world : World) :
    Agrees format args world where
  ends := fun status output h => by
    obtain ⟨rfl, -⟩ | ⟨inventory, audit, -, -, hfinish⟩ := main_ok h
    · exact Or.inr (Or.inr rfl)
    · rw [(finish_ok hfinish).1]
      exact exitCode_cases.imp_right Or.inl
  complete := fun hmigrated status audit lines h => by
    obtain ⟨-, hnone⟩ | ⟨inventory, audit', -, -, hfinish⟩ := main_ok h
    · cases hnone
    · obtain ⟨rfl, -, hreport⟩ := finish_ok hfinish
      obtain ⟨rfl, hrender⟩ := hreport audit lines rfl
      rw [hmigrated, exitCode_eq_zero_iff, complete_iff hrender]
  undeclared := fun hscan inventory status output hinventory h hundeclared => by
    obtain ⟨rfl, hnone⟩ | ⟨inventory', audit, hinventory', hscans, hfinish⟩ := main_ok h
    · exact Or.inr ⟨rfl, hnone⟩
    · rw [hinventory] at hinventory'
      obtain rfl := Option.some.inj hinventory'
      rw [scans, hscan, if_neg Bool.false_ne_true] at hscans
      obtain ⟨references, hreferences, hscans⟩ := Effects.bind_eq_ok_iff.mp hscans
      obtain ⟨undeclared, hsites, hscans⟩ := Effects.bind_eq_ok_iff.mp hscans
      obtain ⟨hsome, hlist⟩ := Prod.mk.inj (Except.ok.inj hscans)
      refine Or.inl ((finish_ok hfinish).1.trans (exitCode_undeclared ?_))
      rw [← hsome, ← hlist]
      obtain ⟨declared, path, hdeclared, hhit, hnot⟩ | ⟨declared, path, hdeclared, hhit⟩ :=
        hundeclared
      · refine Or.inl fun henumerated => ?_
        exact auditBackendReferences_undeclared hreferences hdeclared hhit hnot
          (henumerated references rfl).1
      · exact Or.inr (auditProviderSelectionScan_undeclared hsites hdeclared hhit)
  monotone := fun status output h => main_mono h
  returns := main_returns

/-- A tree with a reference that no site declares, and a stack that is done. -/
def referencedWorld : World where
  inventory := some (.object [("stacks".toList, .array [.object [
    ("project".toList, .string "edge".toList), ("stack".toList, .string "prod".toList),
    ("terminal_state".toList, .string "never-kms".toList)]])])
  file := fun _ _ => .missing
  fullPath := fun _ path => path
  tree := fun _ => [⟨[], "ci.yml".toList, some "s3://branchleft-pulumi-state".toList⟩]
  repos := none

/-- A run that prints the report of a complete sweep and ends with a status. -/
def endsComplete (status : Nat) : Except Raised (Nat × Output) → Bool
  | .ok (n, .report _ lines) => n == status && lines.any (· == completeLine)
  | _ => false

theorem of_endsComplete {status : Nat} {result : Except Raised (Nat × Output)}
    (h : endsComplete status result = true) :
    ∃ audit lines, result = .ok (status, .report audit lines) ∧ completeLine ∈ lines := by
  cases result with
  | error e => cases h
  | ok r =>
    obtain ⟨n, output⟩ := r
    cases output with
    | report audit lines =>
      obtain ⟨hstatus, hlines⟩ := Bool.and_eq_true _ _ ▸ h
      obtain ⟨line, hline, heq⟩ := List.any_eq_true.mp hlines
      rw [beq_iff_eq] at hstatus heq
      exact ⟨audit, lines, by rw [hstatus], heq ▸ hline⟩
    | _ => cases h

/-- The sweep is complete, and the run fails. -/
theorem complete_with_undeclared :
    ∃ audit lines, main ⟨fun v => (text? v).getD [], fun v => (text? v).getD []⟩
      ⟨false, true, false, false⟩ referencedWorld = .ok (1, .report audit lines) ∧
        completeLine ∈ lines :=
  of_endsComplete (by decide +kernel)

end Runs

end SharedInfra.SecretsAudit
