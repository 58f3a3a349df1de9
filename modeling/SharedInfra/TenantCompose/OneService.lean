import SharedInfra.TenantCompose.PublishedPorts

/-!
# The smallest documents

A document of one service with one port, for each profile.  Every rule but that of the port accepts
it, where the variables of the entry can be supplied (`oneService_accepted`).
-/

namespace SharedInfra.TenantCompose

open Python Sequences

section Secrets

variable {name key : Str} {names : List Str}

/-- A secrets file with a value for each name. -/
def secretsFor (names : List Str) : Str :=
  joinWith ['\n'] (names.map fun name => name ++ ['=', 'x'])

theorem key_char {c : Char} (h : (c.isUpper || c.isDigit || c == '_') = true) :
    (c != '=') = true ∧ isControl c = false ∧ c ≠ '\n' := by
  have hcode : 48 ≤ c.toNat ∧ c.toNat ≤ 95 ∧ c.toNat ≠ 61 := by
    rw [Bool.or_eq_true, Bool.or_eq_true] at h
    obtain (h | h) | h := h
    · have hupper : 65 ≤ c.toNat ∧ c.toNat ≤ 90 := by
        simpa [Char.isUpper, UInt32.le_iff_toNat_le] using h
      omega
    · have hdigit := toNat_of_isDigit h
      omega
    · obtain rfl := beq_iff_eq.mp h
      decide
  refine ⟨?_, ?_, ?_⟩
  · rw [bne_iff_ne]
    rintro rfl
    exact hcode.2.2 rfl
  · rw [isControl, Bool.or_eq_false_iff]
    exact ⟨decide_eq_false (by omega), beq_false_of_ne (by omega)⟩
  · rintro rfl
    exact absurd hcode.1 (by decide)

theorem ghost_chars (h : isGhostKey key = true) :
    key.head? = some 'G' ∧ ∀ c ∈ key, (c.isUpper || c.isDigit || c == '_') = true := by
  rw [isGhostKey, Bool.and_eq_true, Bool.and_eq_true] at h
  obtain ⟨⟨hstart, -⟩, hrest⟩ := h
  obtain ⟨rest, rfl⟩ := List.isPrefixOf_iff_prefix.mp hstart
  have hghost : ghostPrefix = ['G', 'H', 'O', 'S', 'T', '_'] := by
    simp only [ghostPrefix, toList_literal]
  rw [hghost] at hrest ⊢
  have hletters : ∀ c ∈ ['G', 'H', 'O', 'S', 'T', '_'],
      (c.isUpper || c.isDigit || c == '_') = true := List.all_eq_true.mp rfl
  refine ⟨rfl, fun c hc => ?_⟩
  obtain hc | hc := List.mem_append.mp hc
  · exact hletters c hc
  · exact List.all_eq_true.mp hrest c hc

theorem readSecret_ghost (number : Nat) {pairs : List (Str × Str)} (h : isGhostKey key = true)
    (hnew : pairs.lookup key = none) (refusals : List Str) :
    readSecret number (key ++ ['=', 'x']) (pairs, refusals) =
      (pairs ++ [(key, ['x'])], refusals) := by
  obtain ⟨hhead, hchars⟩ := ghost_chars h
  have hcontrol : (key ++ ['=', 'x']).any isControl = false := by
    rw [List.any_append, Bool.or_eq_false_iff]
    refine ⟨List.any_eq_false.mpr fun c hc => ?_, by decide⟩
    rw [(key_char (hchars c hc)).2.1]
    exact Bool.false_ne_true
  have hnil : key ++ ['=', 'x'] ≠ [] := List.append_ne_nil_of_right_ne_nil _ (List.cons_ne_nil _ _)
  have hcomment : (key ++ ['=', 'x']).head? ≠ some '#' := by
    rw [List.head?_append, hhead]
    decide
  have hpair : secretPair (key ++ ['=', 'x']) = some (key, ['x']) := by
    have hall : ∀ c ∈ key, (c != '=') = true := fun c hc => (key_char (hchars c hc)).1
    have htake : (key ++ ['=', 'x']).takeWhile (· != '=') = key := by
      rw [List.takeWhile_append_of_pos hall]
      exact List.append_nil key
    have hname : isSecretName key = true := by
      rw [isSecretName, hhead]
      exact List.all_eq_true.mpr hchars
    rw [secretPair, List.dropWhile_append_of_pos hall, htake]
    exact if_pos hname
  simp only [readSecret, hcontrol, hnil, hcomment, or_self, if_false, hpair, h, hnew, Bool.not_true,
    Option.isSome_none, Bool.false_eq_true]

theorem readSecrets_ghosts (number : Nat) {pairs : List (Str × Str)}
    (hnodup : (pairs.map Prod.fst ++ names).Nodup) (hghost : ∀ name ∈ names, isGhostKey name = true) :
    readSecrets number (names.map fun name => name ++ ['=', 'x']) (pairs, []) =
      (pairs ++ names.map fun name => (name, ['x']), []) := by
  induction names generalizing number pairs with
  | nil => simp [readSecrets]
  | cons name names ih =>
    have hnew : pairs.lookup name = none := by
      rw [List.lookup_eq_none_iff]
      intro pair hpair
      have hdisjoint := (List.nodup_append.mp hnodup).2.2 pair.1
        (List.mem_map_of_mem hpair) name List.mem_cons_self
      exact bne_iff_ne.mpr (Ne.symm hdisjoint)
    rw [List.map_cons, readSecrets, readSecret_ghost number (hghost name List.mem_cons_self) hnew,
      ih (number + 1) ?_ fun n hn => hghost n (List.mem_cons_of_mem _ hn)]
    · rw [List.append_assoc]
      rfl
    · rw [List.map_append, List.append_assoc]
      exact hnodup

theorem parseSecrets_secretsFor (hnodup : names.Nodup)
    (hghost : ∀ name ∈ names, isGhostKey name = true) :
    parseSecrets (secretsFor names) = (names.map fun name => (name, ['x']), []) := by
  cases names with
  | nil => rfl
  | cons name rest =>
    have hlines : splitOnChar '\n' (secretsFor (name :: rest)) =
        (name :: rest).map fun name => name ++ ['=', 'x'] := by
      refine splitOnChar_joinWith (List.cons_ne_nil _ _) fun line hline => ?_
      obtain ⟨key, hkey, rfl⟩ := List.mem_map.mp hline
      intro hbreak
      obtain hbreak | hbreak := List.mem_append.mp hbreak
      · exact (key_char ((ghost_chars (hghost key hkey)).2 _ hbreak)).2.2 rfl
      · revert hbreak
        decide
    rw [parseSecrets, hlines]
    exact readSecrets_ghosts 1 hnodup hghost

end Secrets

section Documents

def serviceFields (image : Str) (entry : Doc) : List (Scalar × Doc) :=
  [(.text "image".toList, .scalar (.text image)), (.text "ports".toList, .list [entry])]

def documentFields (slug image : Str) (entry : Doc) : List (Scalar × Doc) :=
  [(.text "name".toList, .scalar (.text slug)),
    (.text "services".toList, .mapping [(.text slug, .mapping (serviceFields image entry))])]

def oneService (slug image : Str) (entry : Doc) : Doc := .mapping (documentFields slug image entry)

variable (slug image : Str) (entry : Doc)

theorem documentFields_get :
    Doc.get (documentFields slug image entry) "name".toList = .scalar (.text slug) ∧
    Doc.get (documentFields slug image entry) "services".toList =
      .mapping [(.text slug, .mapping (serviceFields image entry))] ∧
    Doc.get (documentFields slug image entry) "networks".toList = Doc.none_ ∧
    Doc.get (documentFields slug image entry) "volumes".toList = Doc.none_ := by
  simp only [documentFields, toList_literal]
  exact ⟨rfl, rfl, rfl, rfl⟩

theorem serviceFields_get :
    Doc.get (serviceFields image entry) "image".toList = .scalar (.text image) ∧
    Doc.get? (serviceFields image entry) "ports".toList = some (.list [entry]) ∧
    Doc.get? (serviceFields image entry) "volumes".toList = none ∧
    Doc.get (serviceFields image entry) "privileged".toList = Doc.none_ ∧
    (forbiddenServiceKeys.filter fun key =>
      (Doc.get? (serviceFields image entry) key).isSome) = [] := by
  simp only [serviceFields, forbiddenServiceKeys, toList_literal]
  exact ⟨rfl, rfl, rfl, rfl, rfl⟩

theorem documentFields_keys (str_ : Scalar → Str) :
    ((documentFields slug image entry).filterMap fun field =>
      if field.1 ∈ topLevelKeys.map Scalar.text then none
      else some ("compose has the top-level key ".toList ++ keyText str_ field.1)) = [] := by
  have hname : Scalar.text "name".toList ∈ topLevelKeys.map Scalar.text :=
    List.mem_map_of_mem List.mem_cons_self
  have hservices : Scalar.text "services".toList ∈ topLevelKeys.map Scalar.text :=
    List.mem_map_of_mem (List.mem_cons_of_mem _ List.mem_cons_self)
  simp only [documentFields, List.filterMap_cons, if_pos hname, if_pos hservices, List.filterMap_nil]

theorem portOf_oneService : PortOf (oneService slug image entry) entry := by
  obtain ⟨-, hservices, -, -⟩ := documentFields_get slug image entry
  obtain ⟨-, hports, -, -, -⟩ := serviceFields_get image entry
  refine ⟨_, _, _, _, _, rfl, hservices, List.mem_singleton_self _, ?_, List.mem_singleton_self _⟩
  rw [Doc.get, hports]
  rfl

variable {slug image entry} {name : Str}

theorem isText_self (text : Str) : (Doc.scalar (.text text)).isText text = true :=
  decide_eq_true rfl

theorem serviceRefusals_oneService {profile : Profile}
    (himage : imageRefusals slug profile (.scalar (.text image)) = [])
    (hport : portRefusals slug profile entry = []) :
    serviceRefusals slug (.mapping (serviceFields image entry)) profile = [] := by
  obtain ⟨hget, hports, hvolumes, hprivileged, hforbidden⟩ := serviceFields_get image entry
  rw [serviceRefusals, hforbidden, hprivileged, hget, hports, hvolumes, himage]
  simp only [Option.getD_none, Option.getD_some, List.map_nil, List.nil_append,
    List.flatMap_cons, List.flatMap_nil, hport]
  rfl

theorem spoolRefusals_oneService
    (hnames : ∀ name ∈ referenceNames (oneService slug image entry),
      name = "SHIM_DRAIN_TOKEN".toList) :
    spoolRefusals (oneService slug image entry)
      [(.text slug, .mapping (serviceFields image entry))] = [] := by
  obtain ⟨-, hports, -, -, -⟩ := serviceFields_get image entry
  have hentries : portEntries [(.text slug, .mapping (serviceFields image entry))] = [entry] := by
    have hget : Doc.get (serviceFields image entry) "ports".toList = .list [entry] := by
      rw [Doc.get, hports]
      rfl
    simp only [portEntries, List.flatMap_cons, List.flatMap_nil, hget, List.append_nil]
  have hunknown : (referenceNames (oneService slug image entry)).filter
      (· ≠ "SHIM_DRAIN_TOKEN".toList) = [] :=
    List.filter_eq_nil_iff.mpr fun name hname =>
      Bool.not_eq_true _ ▸ decide_eq_false (not_not.mpr (hnames name hname))
  rw [spoolRefusals, hentries, hunknown, sorted, List.mergeSort_nil]
  rfl

theorem composeRefusals_oneService {str_ : Scalar → Str} {params : Params}
    (hslug : params.slug = slug)
    (himage : imageRefusals slug params.profile (.scalar (.text image)) = [])
    (hport : portRefusals slug params.profile entry = [])
    (hspool : params.profile = .spool → ∀ name ∈ referenceNames (oneService slug image entry),
      name = "SHIM_DRAIN_TOKEN".toList) :
    composeRefusals str_ params (oneService slug image entry) = [] := by
  obtain ⟨hname, hservices, hnetworks, hvolumes⟩ := documentFields_get slug image entry
  have hservice : serviceRefusals (keyText str_ (.text slug)) (.mapping (serviceFields image entry))
      params.profile = [] := serviceRefusals_oneService himage hport
  rw [oneService, composeRefusals]
  simp only [hname, hservices, hnetworks, hvolumes, documentFields_keys, hslug, isText_self,
    if_true, List.flatMap_cons, List.flatMap_nil, hservice, List.append_nil]
  rw [networkRefusals.eq_def, volumeRefusals.eq_def]
  simp only [Doc.none_, List.nil_append]
  split_ifs with hprofile
  · exact spoolRefusals_oneService (hspool hprofile)
  · rfl

end Documents

section Accepted

def pinnedImage : Str :=
  ['b', 'l', 'o', 'g'] ++ '@' :: (['s', 'h', 'a', '2', '5', '6', ':'] ++ List.replicate 64 '0')

/-- The file that pins it. -/
def pinnedEnv : Str := ['I', 'M', 'A', 'G', 'E', '='] ++ pinnedImage

/-- What the judge is given with the document. -/
def oneServiceParams (profile : Profile) (entry : Doc) : Params where
  slug := match profile with
    | .tenant => ['b', 'l', 'o', 'g']
    | .spool => spoolSlug
  composeText := []
  profile := profile
  uid := some 30000
  secretsEnvText := match profile with
    | .tenant => secretsFor ((referenceNames entry).filter isGhostKey)
    | .spool => []
  imageEnvText := pinnedEnv
  claimsText := none
  requireIsolation := false
  iptablesInputText := none
  iptablesDockerUserText := none

def profileDocument (profile : Profile) (entry : Doc) : Doc :=
  match profile with
  | .tenant => oneService ['b', 'l', 'o', 'g'] imageVariable entry
  | .spool => oneService spoolSlug pinnedImage entry

/-- A variable that the files of a profile can supply. -/
def Suppliable (profile : Profile) (name : Str) : Prop :=
  match profile with
  | .tenant => name = "IMAGE".toList ∨ isGhostKey name = true
  | .spool => name = "SHIM_DRAIN_TOKEN".toList

variable {slug image name : Str} {entry : Doc} {profile : Profile}

theorem mem_referenceNames_iff {document : Doc} : name ∈ referenceNames document ↔
    ∃ text ∈ document.strings, name ∈ findReferences false text := by
  rw [referenceNames, List.mem_dedup, List.mem_flatMap]

theorem mem_referenceNames_oneService (hslug : findReferences false slug = []) :
    name ∈ referenceNames (oneService slug image entry) ↔
      name ∈ findReferences false image ∨ name ∈ referenceNames entry := by
  have hwords : ∀ word ∈ ["name".toList, "services".toList, "image".toList, "ports".toList],
      findReferences false word = [] := by
    simp only [toList_literal]
    decide
  have hnot : ∀ word ∈ ["name".toList, "services".toList, "image".toList, "ports".toList],
      name ∉ findReferences false word := fun word hword => by
    rw [hwords word hword]
    exact List.not_mem_nil
  simp only [List.forall_mem_cons] at hnot
  simp only [mem_referenceNames_iff, oneService, documentFields, serviceFields, Doc.strings,
    Doc.stringsFields, Doc.stringsItems, Scalar.strings, List.append_nil, List.mem_append,
    List.mem_singleton, or_and_right, exists_or, exists_eq_left, hslug, List.not_mem_nil, hnot,
    false_or, or_false]

theorem isDigestReference_pinned : isDigestReference pinnedImage = true := by
  have hname : ∀ c ∈ ['b', 'l', 'o', 'g'], isRepositoryChar c = true := List.all_eq_true.mp rfl
  have hat : ¬isRepositoryChar '@' = true := by decide
  have hdigest : isDigest (List.replicate 64 '0') = true := by
    rw [isDigest, List.length_replicate, List.all_replicate]
    rfl
  rw [isDigestReference, pinnedImage, List.takeWhile_append_of_pos hname,
    List.dropWhile_append_of_pos hname, List.takeWhile_cons_of_neg hat,
    List.dropWhile_cons_of_neg hat]
  simp only [toList_literal]
  exact hdigest

theorem imageRefusals_profile (name : Str) :
    imageRefusals name .tenant (.scalar (.text imageVariable)) = [] ∧
    imageRefusals name .spool (.scalar (.text pinnedImage)) = [] := by
  constructor
  · rw [imageRefusals, isText_self, if_pos rfl]
  · rw [imageRefusals, isDigestReference_pinned, if_pos rfl]

theorem imageEnv_pinned : (imageEnvRefusals pinnedEnv).2 = [] := by
  have hbreak : '\n' ∉ pinnedEnv := by
    simp only [pinnedEnv, pinnedImage, List.mem_append, List.mem_cons, List.mem_replicate]
    decide
  have hlines : (splitOnChar '\n' pinnedEnv).filter (· ≠ []) = [pinnedEnv] := by
    rw [splitOnChar_of_not_mem hbreak]
    rfl
  have hline : (startsWith pinnedEnv "IMAGE=".toList && isDigestReference (pinnedEnv.drop 6)) =
      true := by
    simp only [toList_literal]
    exact isDigestReference_pinned
  rw [imageEnvRefusals, hlines]
  simp only [hline, if_true]

theorem slugRefusals_blog {params : Params} (hprofile : params.profile = .tenant)
    (hslug : params.slug = ['b', 'l', 'o', 'g']) (huid : params.uid = some 30000) :
    slugRefusals params = [] := by
  have hblog : (!isSlug ['b', 'l', 'o', 'g'] || decide (26 < ['b', 'l', 'o', 'g'].length)) = false := by
    decide
  have hne : ['b', 'l', 'o', 'g'] ≠ spoolSlug := by
    delta spoolSlug
    simp only [toList_literal]
    decide
  rw [slugRefusals, hslug, hprofile, huid, hblog]
  simp only [Bool.false_eq_true, if_false, hne, List.nil_append]
  exact if_pos (by decide)

theorem slugRefusals_spool {params : Params} (hprofile : params.profile = .spool)
    (hslug : params.slug = spoolSlug) : slugRefusals params = [] := by
  have hspool : (!isSlug spoolSlug || decide (26 < spoolSlug.length)) = false := by
    delta spoolSlug
    simp only [toList_literal]
    decide
  rw [slugRefusals, hslug, hprofile, hspool]
  simp only [Bool.false_eq_true, if_false, ne_eq, not_true_eq_false, List.append_nil]

theorem mem_referenceNames_profile : name ∈ referenceNames (profileDocument profile entry) ↔
    profile = .tenant ∧ name = "IMAGE".toList ∨ name ∈ referenceNames entry := by
  cases profile with
  | tenant =>
    have hslug : findReferences false ['b', 'l', 'o', 'g'] = [] := by decide
    have himage : findReferences false imageVariable = ["IMAGE".toList] := by
      delta imageVariable
      simp only [toList_literal]
      decide
    rw [profileDocument, mem_referenceNames_oneService hslug, himage, List.mem_singleton]
    simp only [true_and]
  | spool =>
    have hslug : findReferences false spoolSlug = [] := by
      delta spoolSlug
      simp only [toList_literal]
      decide
    have himage : findReferences false pinnedImage = [] := by decide
    rw [profileDocument, mem_referenceNames_oneService hslug, himage]
    simp only [List.not_mem_nil, false_or, reduceCtorEq, false_and]

theorem ghostPrefix_of_ghostKey (h : isGhostKey name = true) : startsWith name ghostPrefix = true := by
  rw [isGhostKey, Bool.and_eq_true, Bool.and_eq_true] at h
  exact h.1.1

theorem image_not_ghost : startsWith "IMAGE".toList ghostPrefix = false := by
  delta ghostPrefix
  simp only [toList_literal]
  decide

theorem filter_sorted_eq_nil {names : List Str} {p q : Str → Bool}
    (h : ∀ name ∈ names, q name = true → p name = false) :
    (sorted (names.filter q)).filter p = [] := by
  refine List.filter_eq_nil_iff.mpr fun name hname => ?_
  obtain ⟨hmem, hq⟩ := List.mem_filter.mp (List.mem_mergeSort.mp hname)
  exact Bool.eq_false_iff.mp (h name hmem hq)

theorem tenantRefusals_oneService
    (hnames : ∀ name ∈ referenceNames entry, Suppliable .tenant name) :
    tenantRefusals (oneServiceParams .tenant entry) (profileDocument .tenant entry) = [] := by
  have hghost : ∀ name ∈ referenceNames (profileDocument .tenant entry),
      name ≠ "IMAGE".toList → name ∈ (referenceNames entry).filter isGhostKey := by
    intro name hname hne
    obtain ⟨-, rfl⟩ | hname := mem_referenceNames_profile.mp hname
    · exact absurd rfl hne
    · obtain rfl | hkey := hnames name hname
      · exact absurd rfl hne
      · exact List.mem_filter.mpr ⟨hname, hkey⟩
  have hunknown : (referenceNames (profileDocument .tenant entry)).filter (fun name =>
      decide (name ≠ "IMAGE".toList) && !startsWith name ghostPrefix) = [] := by
    refine List.filter_eq_nil_iff.mpr fun name hname => ?_
    rw [Bool.and_eq_true, decide_eq_true_iff, Bool.not_eq_true', not_and, Bool.not_eq_false]
    exact fun hne => ghostPrefix_of_ghostKey (List.mem_filter.mp (hghost name hname hne)).2
  have hparse : parseSecrets (oneServiceParams .tenant entry).secretsEnvText =
      (((referenceNames entry).filter isGhostKey).map fun name => (name, ['x']), []) :=
    parseSecrets_secretsFor ((List.nodup_dedup _).filter _)
      fun name hname => (List.mem_filter.mp hname).2
  have hlookup : ∀ name ∈ referenceNames (profileDocument .tenant entry),
      startsWith name ghostPrefix = true →
      (((referenceNames entry).filter isGhostKey).map fun name => (name, ['x'])).lookup name =
        some ['x'] := by
    intro name hname hstart
    have hne : name ≠ "IMAGE".toList := by
      rintro rfl
      rw [image_not_ghost] at hstart
      cases hstart
    refine lookup_of_mem ?_ (List.mem_map_of_mem (f := fun name => (name, ['x']))
      (hghost name hname hne))
    rw [List.map_map]
    exact List.Nodup.map (fun _ _ h => h) ((List.nodup_dedup _).filter _)
  have hmissing := filter_sorted_eq_nil (p := fun name =>
    ((((referenceNames entry).filter isGhostKey).map fun name => (name, ['x'])).lookup name).isNone)
    fun name hname hstart => by rw [hlookup name hname hstart]; rfl
  have hempty := filter_sorted_eq_nil (p := fun name => decide
    ((((referenceNames entry).filter isGhostKey).map fun name => (name, ['x'])).lookup name =
      some [])) fun name hname hstart => by rw [hlookup name hname hstart]; rfl
  simp only [tenantRefusals, secretRefusals, hunknown, hparse]
  rw [hmissing, hempty, sorted, List.mergeSort_nil]
  rfl

theorem profileVerdict_oneService (hnames : ∀ name ∈ referenceNames entry, Suppliable profile name) :
    ∃ imageEnv, profileVerdict (oneServiceParams profile entry) (profileDocument profile entry) =
      .ok (imageEnv, []) := by
  cases profile with
  | tenant =>
    refine ⟨(imageEnvRefusals pinnedEnv).1, ?_⟩
    have hprofile : (oneServiceParams .tenant entry).profile = .tenant := rfl
    have htext : (oneServiceParams .tenant entry).imageEnvText = pinnedEnv := rfl
    simp only [profileVerdict, hprofile, htext, tenantRefusals_oneService hnames, imageEnv_pinned,
      List.append_nil]
  | spool =>
    obtain ⟨-, hservices, -, -⟩ := documentFields_get spoolSlug pinnedImage entry
    obtain ⟨himage, -, -, -, -⟩ := serviceFields_get pinnedImage entry
    have himages : serviceImages [(.text spoolSlug, .mapping (serviceFields pinnedImage entry))] =
        .ok [.text pinnedImage] := by
      simp only [serviceImages, himage]
      rfl
    have hprofile : (oneServiceParams .spool entry).profile = .spool := rfl
    have hsecrets : (oneServiceParams .spool entry).secretsEnvText = [] := rfl
    have hisolation : (oneServiceParams .spool entry).requireIsolation = false := rfl
    simp only [profileVerdict, hprofile, hsecrets, hisolation, profileDocument, oneService,
      derivedImageEnv, hservices, himages, Except.map, ne_eq, not_true_eq_false, if_false,
      Bool.false_eq_true, List.append_nil]
    exact ⟨_, rfl⟩

theorem slugRefusals_oneService (profile : Profile) (entry : Doc) :
    slugRefusals (oneServiceParams profile entry) = [] := by
  cases profile with
  | tenant => exact slugRefusals_blog rfl rfl rfl
  | spool => exact slugRefusals_spool rfl rfl

theorem composeRefusals_profile {str_ : Scalar → Str}
    (hport : portRefusals (oneServiceParams profile entry).slug profile entry = [])
    (hnames : ∀ name ∈ referenceNames entry, Suppliable profile name) :
    composeRefusals str_ (oneServiceParams profile entry) (profileDocument profile entry) = [] := by
  cases profile with
  | tenant =>
    exact composeRefusals_oneService rfl (imageRefusals_profile _).1 hport fun h => by cases h
  | spool =>
    refine composeRefusals_oneService rfl (imageRefusals_profile _).2 hport fun _ name hname => ?_
    have hspool : name ∈ referenceNames (profileDocument .spool entry) := hname
    obtain ⟨h, -⟩ | hentry := mem_referenceNames_profile.mp hspool
    · cases h
    · exact hnames name hentry

theorem oneService_accepted (sha256 : Bytes → Str) (str_ : Scalar → Str)
    (hport : portRefusals (oneServiceParams profile entry).slug profile entry = [])
    (hnames : ∀ name ∈ referenceNames entry, Suppliable profile name) :
    ∃ v, judge sha256 (some fun _ => some (profileDocument profile entry)) str_
      (oneServiceParams profile entry) = .ok v ∧ v.refusals = [] := by
  obtain ⟨imageEnv, hprofile⟩ := profileVerdict_oneService hnames
  have hclaim : claimState (oneServiceParams profile entry) = .ok ("unchecked".toList, []) := rfl
  refine ⟨verdictOf sha256 str_ (oneServiceParams profile entry)
    (some (profileDocument profile entry)) (imageEnv, []) ("unchecked".toList, []), ?_, ?_⟩
  · simp only [judge, bind, Except.bind, Option.getD_some, hprofile, hclaim]
    rfl
  · simp only [verdictOf, documentRefusals, slugRefusals_oneService,
      composeRefusals_profile hport hnames, List.append_nil, List.map_nil]

end Accepted

end SharedInfra.TenantCompose
