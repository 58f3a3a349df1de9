import SharedInfra.TenantCompose.Judge

/-!
# What a verdict shows of the secrets

A line of the secrets file counts for the verdict with its shape only (`LineShape`): its key, and
whether the value is empty.  So two files of one shape get one verdict, but for the stamp, and the
stamp tells the texts apart where the hash does (`verdict_shows_shape`).
-/

namespace SharedInfra.TenantCompose

open Python

section Shapes

/-- What a line of a secrets file is without its value. -/
inductive LineShape where
  | control
  | blank
  | comment
  | malformed
  | entry (key : Str) (empty : Bool)
deriving DecidableEq

def lineShape (line : Str) : LineShape :=
  if line.any isControl then .control
  else if line = [] then .blank
  else if line.head? = some '#' then .comment
  else match secretPair line with
    | none => .malformed
    | some (key, value) => .entry key value.isEmpty

/-- Two texts that differ in the values only. -/
def SameShape (s t : Str) : Prop :=
  (splitOnChar '\n' s).map lineShape = (splitOnChar '\n' t).map lineShape

def pairShapes (pairs : List (Str × Str)) : List (Str × Bool) :=
  pairs.map fun pair => (pair.1, pair.2.isEmpty)

def readShape (read : List (Str × Str) × List Str) : List (Str × Bool) × List Str :=
  (pairShapes read.1, read.2)

variable {s t line line' : Str} {read read' : List (Str × Str) × List Str} {name : Str}

theorem lookup_pairShapes (pairs : List (Str × Str)) (name : Str) :
    (pairShapes pairs).lookup name = (pairs.lookup name).map List.isEmpty := by
  induction pairs with
  | nil => rfl
  | cons pair pairs ih =>
    rw [pairShapes, List.map_cons, List.lookup_cons, List.lookup_cons]
    cases name == pair.1 with
    | true => rfl
    | false => exact ih

def addShape (number : Nat) (shape : LineShape) (read : List (Str × Bool) × List Str) :
    List (Str × Bool) × List Str :=
  match shape with
  | .control => (read.1, read.2 ++ ["secrets line ".toList ++ decimal number ++
      " holds a control character".toList])
  | .blank | .comment => read
  | .malformed => (read.1, read.2 ++ ["secrets line ".toList ++ decimal number ++
      " is not KEY=value".toList])
  | .entry key empty =>
    if !isGhostKey key then
      (read.1, read.2 ++ ["secrets key ".toList ++ key ++ " does not start with GHOST_".toList])
    else if (read.1.lookup key).isSome then
      (read.1, read.2 ++ ["secrets key ".toList ++ key ++ " is given twice".toList])
    else (read.1 ++ [(key, empty)], read.2)

theorem readShape_readSecret (number : Nat) (line : Str) (read : List (Str × Str) × List Str) :
    readShape (readSecret number line read) = addShape number (lineShape line) (readShape read) := by
  obtain ⟨pairs, refusals⟩ := read
  rw [readSecret, lineShape]
  by_cases hcontrol : line.any isControl = true
  · simp only [hcontrol, if_true]
    rfl
  by_cases hblank : line = []
  · subst hblank
    rfl
  by_cases hcomment : line.head? = some '#'
  · simp [hcontrol, hblank, hcomment, readShape, addShape]
  simp only [hcontrol, hblank, hcomment, or_self, if_false, Bool.false_eq_true]
  cases hpair : secretPair line with
  | none => rfl
  | some pair =>
    obtain ⟨key, value⟩ := pair
    simp only [addShape, readShape, lookup_pairShapes, Option.isSome_map]
    split_ifs
    · rfl
    · rfl
    · simp [pairShapes]

theorem readShape_readSecrets (number : Nat) {lines lines' : List Str}
    (hlines : lines.map lineShape = lines'.map lineShape) (hread : readShape read = readShape read') :
    readShape (readSecrets number lines read) = readShape (readSecrets number lines' read') := by
  induction lines generalizing number lines' read read' with
  | nil =>
    obtain rfl := List.map_eq_nil_iff.mp hlines.symm
    exact hread
  | cons line lines ih =>
    obtain ⟨line', rest, rfl⟩ : ∃ line' rest, lines' = line' :: rest := by
      refine List.exists_cons_of_ne_nil ?_
      rintro rfl
      cases hlines
    obtain ⟨hline, hlines⟩ := List.cons.inj hlines
    refine ih (number + 1) hlines ?_
    rw [readShape_readSecret, readShape_readSecret, hline, hread]

theorem secretRefusals_eq (h : SameShape s t) (references : List Str) :
    secretRefusals references s = secretRefusals references t := by
  have hread : readShape (parseSecrets s) = readShape (parseSecrets t) :=
    readShape_readSecrets 1 h rfl
  obtain ⟨hpairs, hrefusals⟩ := Prod.mk.inj hread
  have hlookup : ∀ name, ((parseSecrets s).1.lookup name).map List.isEmpty =
      ((parseSecrets t).1.lookup name).map List.isEmpty := fun name => by
    rw [← lookup_pairShapes, ← lookup_pairShapes, hpairs]
  have hnone : ∀ name, ((parseSecrets s).1.lookup name).isNone =
      ((parseSecrets t).1.lookup name).isNone := fun name => by
    simpa using congrArg Option.isNone (hlookup name)
  have hempty : ∀ name, (parseSecrets s).1.lookup name = some [] ↔
      (parseSecrets t).1.lookup name = some [] := by
    have hiff : ∀ o : Option Str, o = some [] ↔ o.map List.isEmpty = some true := fun o => by
      cases o <;> simp
    exact fun name => by rw [hiff, hiff, hlookup]
  simp only [secretRefusals, hrefusals, hnone, hempty]

theorem eq_nil_of_sameShape (h : SameShape s t) (hs : s = []) : t = [] := by
  subst hs
  have hshape : [LineShape.blank] = (splitOnChar '\n' t).map lineShape := h
  obtain ⟨line, hlines, hline⟩ : ∃ line, splitOnChar '\n' t = [line] ∧ lineShape line = .blank := by
    match hsplit : splitOnChar '\n' t with
    | [] => exact absurd hsplit (splitOnChar_ne_nil _ _)
    | [line] =>
      rw [hsplit] at hshape
      exact ⟨line, rfl, (List.cons.inj hshape).1.symm⟩
    | _ :: _ :: _ =>
      rw [hsplit] at hshape
      cases (List.cons.inj hshape).2
  have hnil : line = [] := by
    rw [lineShape] at hline
    split_ifs at hline with h1 h2 h3
    · exact h2
    · split at hline <;> cases hline
  rw [← joinWith_splitOnChar '\n' t, hlines, hnil]
  rfl

end Shapes

section Verdicts

variable {sha256 : Bytes → Str} {loadYaml : Option (Str → Option Doc)} {str_ : Scalar → Str}
  {params p : Params} {s t : Str} {v : Verdict}

/-- A verdict without its stamp. -/
def Verdict.shown (v : Verdict) : List Str × Str × Str := (v.refusals, v.claimState, v.imageEnv)

theorem profileVerdict_eq (h : SameShape s t) (document : Doc) :
    profileVerdict { params with secretsEnvText := s } document =
      profileVerdict { params with secretsEnvText := t } document := by
  have hnil : s = [] ↔ t = [] :=
    ⟨eq_nil_of_sameShape h, eq_nil_of_sameShape (Eq.symm h)⟩
  simp only [profileVerdict, tenantRefusals, secretRefusals_eq h, ne_eq, hnil]

theorem judge_shown (h : SameShape s t) (params : Params) :
    (judge sha256 loadYaml str_ { params with secretsEnvText := s }).map Verdict.shown =
      (judge sha256 loadYaml str_ { params with secretsEnvText := t }).map Verdict.shown := by
  cases loadYaml with
  | none => rfl
  | some load =>
    have hclaim : claimState { params with secretsEnvText := s } =
      claimState { params with secretsEnvText := t } := rfl
    simp only [judge, bind, Except.bind, profileVerdict_eq h, hclaim]
    cases profileVerdict { params with secretsEnvText := t }
        ((load params.composeText).getD Doc.none_) with
    | error e => rfl
    | ok found =>
      cases claimState { params with secretsEnvText := t } with
      | error e => rfl
      | ok claim => rfl

end Verdicts

section Stamps

variable {sha256 : Bytes → Str} {loadYaml : Option (Str → Option Doc)} {str_ : Scalar → Str}
  {p q : Params} {v w : Verdict}

theorem framed_inj {before between after x y x' y' : Str}
    (h : before ++ jsonString x ++ between ++ jsonString y ++ after =
      before ++ jsonString x' ++ between ++ jsonString y' ++ after) : x = x' ∧ y = y' := by
  simp only [List.append_assoc] at h
  obtain ⟨hx, hrest⟩ := jsonString_cancel (List.append_cancel_left h)
  exact ⟨hx, (jsonString_cancel (List.append_cancel_left hrest)).1⟩

theorem stampText_inj (h : stampText p = stampText q) :
    p.composeText = q.composeText ∧ p.secretsEnvText = q.secretsEnvText :=
  framed_inj h

theorem stamp_of_judge (h : judge sha256 loadYaml str_ p = .ok v) :
    v.stamp = sha256 (utf8Encode (stampText p)) := by
  cases loadYaml with
  | none => cases h
  | some load =>
    obtain ⟨found, claim, -, -, rfl⟩ := judge_ok load h
    rfl

/-- The verdict shows the shape of the secrets file and nothing of its values; its stamp tells the
compose text and the secrets text where the hash is one-to-one. -/
theorem verdict_shows_shape (hsha : Function.Injective sha256) :
    (∀ (params : Params) s t, SameShape s t →
      (judge sha256 loadYaml str_ { params with secretsEnvText := s }).map Verdict.shown =
        (judge sha256 loadYaml str_ { params with secretsEnvText := t }).map Verdict.shown) ∧
    ∀ p q v w, judge sha256 loadYaml str_ p = .ok v → judge sha256 loadYaml str_ q = .ok w →
      v.stamp = w.stamp → p.composeText = q.composeText ∧ p.secretsEnvText = q.secretsEnvText := by
  refine ⟨fun params s t h => judge_shown h params, fun p q v w hv hw hstamp => ?_⟩
  rw [stamp_of_judge hv, stamp_of_judge hw] at hstamp
  exact stampText_inj (utf8Encode_injective (hsha hstamp))

/-- The parameters of a tenant with a secrets file. -/
def blogParams (secrets : Str) : Params where
  slug := "blog".toList
  composeText := "name: blog\n".toList
  profile := .tenant
  uid := some 30001
  secretsEnvText := secrets
  imageEnvText := []
  claimsText := none
  requireIsolation := false
  iptablesInputText := none
  iptablesDockerUserText := none

/-- A hash with the digests of two texts; every other text is hashed to itself. -/
def twoDigests (one two data : Bytes) : Str :=
  if data = one then "80d99200f01ebb1fe5ca2c8b890e2c5a1777fa018dc37cf6c31f65260003720d".toList
  else if data = two then
    "9dd61e2cdcb243d853b8d5552f771191951f77c0e392061aba4c295090b34eb9".toList
  else 'x' :: data.map fun byte => Char.ofNat byte.toNat

theorem ofNat_byte_inj : Function.Injective fun byte : UInt8 => Char.ofNat byte.toNat := by
  intro a b h
  have hvalid : ∀ n < 256, (Char.ofNat n).toNat = n := fun n hn => by
    rw [Char.ofNat, dif_pos (Or.inl (by omega))]
    rfl
  have hnat : (Char.ofNat a.toNat).toNat = (Char.ofNat b.toNat).toNat := congrArg Char.toNat h
  rw [hvalid _ a.toNat_lt, hvalid _ b.toNat_lt] at hnat
  exact UInt8.toNat_inj.mp hnat

theorem twoDigests_injective (one two : Bytes) : Function.Injective (twoDigests one two) := by
  intro a b h
  unfold twoDigests at h
  split_ifs at h with ha hb hb' ha' hb hb' hb hb'
  · exact ha.trans hb.symm
  · simp only [toList_literal] at h
    cases h
  · simp only [toList_literal] at h
    cases h
  · simp only [toList_literal] at h
    cases h
  · exact ha'.trans hb'.symm
  · simp only [toList_literal] at h
    cases h
  · simp only [toList_literal] at h
    cases h
  · simp only [toList_literal] at h
    cases h
  · exact List.map_injective_iff.mpr ofNat_byte_inj (List.cons.inj h).2

/-- Two values of one key: the verdicts show the same, and their stamps differ. -/
theorem verdict_shows_shape_blog :
    let sha256 := twoDigests (utf8Encode (stampText (blogParams "GHOST_MAIL=one".toList)))
      (utf8Encode (stampText (blogParams "GHOST_MAIL=two".toList)))
    let loadYaml : Option (Str → Option Doc) := some fun _ =>
      some (.mapping [(.text "name".toList, .scalar (.text "blog".toList))])
    (judge sha256 loadYaml (fun _ => []) (blogParams "GHOST_MAIL=one".toList)).map Verdict.shown =
      (judge sha256 loadYaml (fun _ => []) (blogParams "GHOST_MAIL=two".toList)).map
        Verdict.shown ∧
    ∀ v w, judge sha256 loadYaml (fun _ => []) (blogParams "GHOST_MAIL=one".toList) = .ok v →
      judge sha256 loadYaml (fun _ => []) (blogParams "GHOST_MAIL=two".toList) = .ok w →
      v.stamp ≠ w.stamp := by
  intro sha256 loadYaml
  obtain ⟨hshown, hstamp⟩ := @verdict_shows_shape sha256 loadYaml (fun _ => [])
    (twoDigests_injective _ _)
  refine ⟨hshown (blogParams []) _ _ ?_, fun v w hv hw heq => ?_⟩
  · unfold SameShape
    simp only [toList_literal]
    decide
  · have htexts : "GHOST_MAIL=one".toList = "GHOST_MAIL=two".toList :=
      (hstamp _ _ v w hv hw heq).2
    simp only [toList_literal] at htexts
    cases htexts

end Stamps

end SharedInfra.TenantCompose
