import SharedInfra.Effects.Moves
import SharedInfra.PullBootstrap.Record
import SharedInfra.Python.DictEquality

/-!
# A record verifies exactly when a fresh build gives it

Building reads the last commit of each file; verifying checks ancestry, digest, address and
staleness one by one.  Both come to the same (`verifyEntry_eq_nil_iff`, `verifyRecord_eq_nil_iff`),
so a record without a further member verifies exactly when it is the one that a build gives
(`verifies_iff_built`).
-/

namespace SharedInfra.PullBootstrap

open Python Effects Sequences

section Entries

variable {repo : Repo} {sha256 : Bytes → HexDigest} {rendering : Rendering}
  {tip name path commit pin rule rule' : Str} {entry digest url v w : Val} {fields d : Dict}

theorem bind_ok {α β : Type} {x : Except Failure α} {f : α → Except Failure β} {b : β} :
    x.bind f = .ok b ↔ ∃ a, x = .ok a ∧ f a = .ok b := bind_eq_ok_iff

theorem map_ok {α β : Type} {x : Except Failure α} {f : α → β} {b : β} :
    x.map f = .ok b ↔ ∃ a, x = .ok a ∧ f a = b := by
  cases x with
  | error e =>
    constructor
    · intro h
      cases h
    · rintro ⟨a, h, -⟩
      cases h
  | ok a =>
    constructor
    · intro h
      exact ⟨a, rfl, Except.ok.inj h⟩
    · rintro ⟨a', h, rfl⟩
      rw [Except.ok.inj h]
      rfl

theorem git_ok {α : Type} {args : List Str} {answer : Except Str α} {a : α} :
    git args answer = .ok a ↔ answer = .ok a := by
  cases answer with
  | error detail =>
    constructor <;> intro h <;> cases h
  | ok b =>
    constructor <;> intro h <;> cases h <;> rfl

theorem checkedOutTip_ok_iff : checkedOutTip repo rule = .ok tip ↔
    refuseShallow repo = .ok () ∧ mainTip repo = .ok tip ∧ repo.head = .ok tip := by
  rw [checkedOutTip, bind_ok]
  constructor
  · rintro ⟨⟨⟩, hshallow, h⟩
    obtain ⟨fresh, hfresh, h⟩ := bind_ok.mp h
    obtain ⟨top, htop, h⟩ := bind_ok.mp h
    split_ifs at h with heq
    obtain rfl := Except.ok.inj h
    subst heq
    exact ⟨hshallow, hfresh, git_ok.mp htop⟩
  · rintro ⟨hshallow, hfresh, htop⟩
    refine ⟨(), hshallow, bind_ok.mpr ⟨tip, hfresh, bind_ok.mpr ⟨tip, git_ok.mpr htop, ?_⟩⟩⟩
    rw [if_pos rfl]

theorem lastCommit_ok_iff : lastCommit repo path = .ok commit ↔
    ∃ top, repo.head = .ok top ∧ repo.history.lastChange path top = some commit := by
  rw [lastCommit, bind_ok]
  constructor
  · rintro ⟨top, htop, h⟩
    refine ⟨top, git_ok.mp htop, ?_⟩
    cases hlast : repo.history.lastChange path top with
    | none =>
      rw [hlast] at h
      cases h
    | some c =>
      rw [hlast] at h
      simp only at h
      split_ifs at h
      rw [Except.ok.inj h]
  · rintro ⟨top, htop, hlast⟩
    refine ⟨top, git_ok.mpr htop, ?_⟩
    have hfull := repo.history.fullId commit (History.lastChange_spec path top commit hlast).2.1
    rw [hlast]
    simp only [hfull, if_true]

theorem blobSha256_ok_iff {value : HexDigest} : blobSha256 repo sha256 commit path = .ok value ↔
    ∃ content, repo.history.file commit path = some content ∧ sha256 content = value := by
  rw [blobSha256, map_ok]
  cases repo.history.file commit path with
  | none =>
    constructor
    · rintro ⟨content, h, -⟩
      cases git_ok.mp h
    · rintro ⟨content, h, -⟩
      cases h
  | some content =>
    constructor
    · rintro ⟨content', h, rfl⟩
      obtain rfl := Except.ok.inj (git_ok.mp h)
      exact ⟨content, rfl, rfl⟩
    · rintro ⟨content', h, rfl⟩
      obtain rfl := Option.some.inj h
      exact ⟨content, git_ok.mpr rfl, rfl⟩

theorem same_string_iff {text : Str} : v.same (.string text) = true ↔ v = .string text :=
  Val.isString_iff

theorem get_same_iff (hnull : Val.null.same w = false) :
    (∃ v, Dict.get? fields name = some v ∧ v.same w = true) ↔
      (Dict.get fields name).same w = true := by
  rw [Dict.get]
  cases Dict.get? fields name with
  | none =>
    constructor
    · rintro ⟨v, h, -⟩
      cases h
    · intro h
      cases hnull.symm.trans h
  | some v =>
    constructor
    · rintro ⟨v', h, hsame⟩
      obtain rfl := Option.some.inj h
      exact hsame
    · intro h
      exact ⟨v, rfl, h⟩

theorem get_string_iff {text : Str} :
    (∃ v, Dict.get? fields name = some v ∧ v.same (.string text) = true) ↔
      Dict.get fields name = .string text :=
  (get_same_iff rfl).trans same_string_iff

theorem hasExactly_iff {names : List Str} : hasExactly fields names = true ↔
    (∀ field ∈ fields, field.1 ∈ names) ∧ ∀ name ∈ names, (Dict.get? fields name).isSome = true := by
  rw [hasExactly, Bool.and_eq_true, List.all_eq_true, List.all_eq_true]
  simp only [decide_eq_true_eq]

theorem object_of_same (h : v.same (.object d) = true) : ∃ fields, v = .object fields := by
  cases v with
  | object fields => exact ⟨fields, rfl⟩
  | null => cases h
  | bool b => cases h
  | number q => cases h
  | string t => cases h
  | array items => cases h

theorem same_entryOf_iff {value : HexDigest} : entry.same (entryOf commit value path) = true ↔
    ∃ fields, entry = .object fields ∧
      hasExactly fields ["pin".toList, "sha256".toList, "url".toList] = true ∧
      Dict.get fields "pin".toList = .string commit ∧
      Dict.get fields "sha256".toList = .string value.1 ∧
      Dict.get fields "url".toList = .string (rawUrl commit path) := by
  have hnodup : ([("pin".toList, Val.string commit), ("sha256".toList, .string value.1),
      ("url".toList, .string (rawUrl commit path))].map Prod.fst).Nodup := by
    simp only [List.map_cons, List.map_nil, toList_literal]
    decide
  constructor
  · intro h
    obtain ⟨fields, rfl⟩ := object_of_same h
    obtain ⟨hnames, hvalues⟩ := (Val.same_members_iff hnodup).mp h
    simp only [List.forall_mem_cons, get_string_iff] at hvalues
    obtain ⟨hpin, hsha, hurl, -⟩ := hvalues
    have hsome : ∀ {name text : Str}, Dict.get fields name = .string text →
        (Dict.get? fields name).isSome = true := fun {name text} hget => by
      obtain ⟨v, hv, -⟩ := get_string_iff.mpr hget
      rw [hv]
      rfl
    refine ⟨fields, rfl, hasExactly_iff.mpr ⟨hnames, ?_⟩, hpin, hsha, hurl⟩
    simp only [List.forall_mem_cons]
    exact ⟨hsome hpin, hsome hsha, hsome hurl, fun name hname => absurd hname List.not_mem_nil⟩
  · rintro ⟨fields, rfl, hexactly, hpin, hsha, hurl⟩
    refine (Val.same_members_iff hnodup).mpr ⟨(hasExactly_iff.mp hexactly).1, ?_⟩
    simp only [List.forall_mem_cons, get_string_iff]
    exact ⟨hpin, hsha, hurl, fun member hmember => absurd hmember List.not_mem_nil⟩

theorem if_nil_iff {c : Prop} [Decidable c] {text : Str} :
    (if c then [] else [text]) = ([] : List Str) ↔ c := by
  split_ifs with h
  · exact ⟨fun _ => h, fun _ => rfl⟩
  · exact ⟨fun hnil => (by cases hnil), fun hc => absurd hc h⟩

theorem verifyPin_eq_nil_iff (htop : repo.head = .ok tip) :
    verifyPin repo sha256 tip name path pin digest url = .ok [] ↔
      ∃ value, lastCommit repo path = .ok pin ∧ blobSha256 repo sha256 pin path = .ok value ∧
        digest = .string value.1 ∧ url = .string (rawUrl pin path) := by
  unfold verifyPin
  cases hancestor : repo.history.isAncestor pin tip with
  | false =>
    simp only [Bool.not_false, if_true]
    constructor
    · intro h
      exact absurd (List.append_eq_nil_iff.mp (Except.ok.inj h)).2 (List.cons_ne_nil _ _)
    · rintro ⟨value, hlast, -⟩
      obtain ⟨top, htop', hchange⟩ := lastCommit_ok_iff.mp hlast
      obtain rfl := Except.ok.inj (htop.symm.trans htop')
      cases hancestor.symm.trans (History.isAncestor_of_lastChange hchange)
  | true =>
    simp only [Bool.not_true, Bool.false_eq_true, if_false, map_ok, List.append_eq_nil_iff,
      blobSha256_ok_iff]
    constructor
    · rintro ⟨commit, hlast, ⟨⟨-, hurl⟩, hshown⟩, hstale⟩
      have hurl := Val.isString_iff.mp (if_nil_iff.mp hurl)
      have hcommit : commit = pin := by
        by_contra hne
        rw [if_pos hne] at hstale
        cases hstale
      subst hcommit
      cases hfile : repo.history.file commit path with
      | none =>
        rw [hfile] at hshown
        cases hshown
      | some content =>
        rw [hfile] at hshown
        exact ⟨sha256 content, hlast, ⟨content, rfl, rfl⟩,
          Val.isString_iff.mp (if_nil_iff.mp hshown), hurl⟩
    · rintro ⟨value, hlast, ⟨content, hfile, rfl⟩, rfl, rfl⟩
      refine ⟨pin, hlast, ⟨⟨?_, if_nil_iff.mpr (Val.isString_iff.mpr rfl)⟩, ?_⟩, ?_⟩
      · simp only [(sha256 content).2, if_true]
      · rw [hfile]
        exact if_nil_iff.mpr (Val.isString_iff.mpr rfl)
      · rw [if_neg (not_not.mpr rfl)]

theorem verifyEntry_eq_nil_iff (htop : repo.head = .ok tip) :
    verifyEntry repo sha256 tip name path entry = .ok [] ↔
      ∃ commit value, lastCommit repo path = .ok commit ∧
        blobSha256 repo sha256 commit path = .ok value ∧
        entry.same (entryOf commit value path) = true := by
  have hproblem : ∀ text : Str, (Except.ok [text] : Except Failure (List Str)) ≠ .ok [] := fun _ h =>
    List.cons_ne_nil _ _ (Except.ok.inj h)
  simp only [same_entryOf_iff]
  constructor
  · intro h
    cases entry with
    | object fields =>
      rw [verifyEntry] at h
      split_ifs at h with hexactly
      · cases hpin : Dict.get fields "pin".toList with
        | string pin =>
          rw [hpin] at h
          simp only at h
          split_ifs at h
          · obtain ⟨value, hlast, hblob, hsha, hurl⟩ := (verifyPin_eq_nil_iff htop).mp h
            exact ⟨pin, value, hlast, hblob, fields, rfl, hexactly, hpin, hsha, hurl⟩
          · exact absurd h (hproblem _)
        | null => rw [hpin] at h; exact absurd h (hproblem _)
        | bool b => rw [hpin] at h; exact absurd h (hproblem _)
        | number q => rw [hpin] at h; exact absurd h (hproblem _)
        | array items => rw [hpin] at h; exact absurd h (hproblem _)
        | object inner => rw [hpin] at h; exact absurd h (hproblem _)
      · exact absurd h (hproblem _)
    | null => exact absurd h (hproblem _)
    | bool b => exact absurd h (hproblem _)
    | number q => exact absurd h (hproblem _)
    | string t => exact absurd h (hproblem _)
    | array items => exact absurd h (hproblem _)
  · rintro ⟨commit, value, hlast, hblob, fields, rfl, hexactly, hpin, hsha, hurl⟩
    obtain ⟨top, -, hchange⟩ := lastCommit_ok_iff.mp hlast
    have hfull := repo.history.fullId commit (History.lastChange_spec path top commit hchange).2.1
    rw [verifyEntry, if_pos hexactly, hpin]
    simp only [hfull, if_true]
    exact (verifyPin_eq_nil_iff htop).mpr ⟨value, hlast, hblob, hsha, hurl⟩

end Entries

section Records

variable {repo : Repo} {sha256 : Bytes → HexDigest} {rendering : Rendering}
  {record v : Val} {fields : Dict}

def EntryCurrent (repo : Repo) (sha256 : Bytes → HexDigest) (fields : Dict) (file : Str × Str) :
    Prop :=
  ∃ commit value, lastCommit repo file.2 = .ok commit ∧
    blobSha256 repo sha256 commit file.2 = .ok value ∧
    (Dict.get fields file.1).same (entryOf commit value file.2) = true

theorem caught_eq_nil_iff {label : Str} {x : Except Failure (List Str)} :
    caught label x = .ok [] ↔ x = .ok [] := by
  cases x with
  | ok problems => rfl
  | error e =>
    cases e with
    | uncaught t => rfl
    | bootstrap message =>
      constructor
      · intro h
        exact absurd (Except.ok.inj h) (List.cons_ne_nil _ _)
      · intro h
        cases h

theorem verifyConfig_eq_nil_iff : verifyConfig repo rendering v = .ok [] ↔
    ∃ text, repositoryConfig repo rendering = .ok text ∧ v = .string text := by
  rw [verifyConfig, map_ok]
  simp only [if_nil_iff, Val.isString_iff]

theorem mapM_flatten_nil_iff {α : Type} {f : α → Except Failure (List Str)} {xs : List α} :
    (∃ problems, xs.mapM f = .ok problems ∧ problems.flatten = []) ↔ ∀ x ∈ xs, f x = .ok [] := by
  constructor
  · rintro ⟨problems, h, hflat⟩ x hx
    obtain ⟨found, hfound, hrun⟩ := exists_of_mem_left (mapM_eq_ok_iff.mp h) hx
    rw [hrun, List.flatten_eq_nil_iff.mp hflat found hfound]
  · intro h
    obtain ⟨problems, hproblems⟩ := mapM_succeeds_iff.mpr fun x hx => ⟨[], h x hx⟩
    refine ⟨problems, hproblems, List.flatten_eq_nil_iff.mpr fun found hfound => ?_⟩
    obtain ⟨x, hx, hrun⟩ := exists_of_mem_right (mapM_eq_ok_iff.mp hproblems) hfound
    exact Except.ok.inj (hrun.symm.trans (h x hx))

theorem verifyMembers_eq_nil_iff (rule : Str) : verifyMembers repo sha256 rendering fields = .ok [] ↔
    ∃ tip text, checkedOutTip repo rule = .ok tip ∧
      (∀ file ∈ fetched, EntryCurrent repo sha256 fields file) ∧
      repositoryConfig repo rendering = .ok text ∧
      Dict.get fields "config".toList = .string text := by
  have hrule : ∀ tip, checkedOutTip repo rule = .ok tip ↔ checkedOutTip repo
      checkRule = .ok tip := fun tip =>
    checkedOutTip_ok_iff.trans checkedOutTip_ok_iff.symm
  simp only [hrule]
  rw [verifyMembers]
  cases htip : checkedOutTip repo
      checkRule with
  | error e =>
    constructor
    · intro h
      cases e with
      | uncaught t => cases h
      | bootstrap message => exact absurd (Except.ok.inj h) (List.cons_ne_nil _ _)
    · rintro ⟨tip, text, h, -⟩
      cases h
  | ok tip =>
    have htop : repo.head = .ok tip := (checkedOutTip_ok_iff.mp htip).2.2
    have hentries : (∀ file ∈ fetched, caught (file.1 ++ ": ".toList)
        (verifyEntry repo sha256 tip file.1 file.2 (Dict.get fields file.1)) = .ok []) ↔
        ∀ file ∈ fetched, EntryCurrent repo sha256 fields file := by
      simp only [caught_eq_nil_iff, verifyEntry_eq_nil_iff htop, EntryCurrent]
    rw [← hentries, ← mapM_flatten_nil_iff]
    simp only [bind_ok, map_ok, List.append_eq_nil_iff]
    constructor
    · rintro ⟨problems, hrun, config, hconfig, hflat, rfl⟩
      obtain ⟨text, htext, hget⟩ := verifyConfig_eq_nil_iff.mp (caught_eq_nil_iff.mp hconfig)
      exact ⟨tip, text, rfl, ⟨problems, hrun, hflat⟩, htext, hget⟩
    · rintro ⟨-, text, -, ⟨problems, hrun, hflat⟩, htext, hget⟩
      exact ⟨problems, hrun, [],
        caught_eq_nil_iff.mpr (verifyConfig_eq_nil_iff.mpr ⟨text, htext, hget⟩), hflat, rfl⟩

theorem verifyRecord_eq_nil_iff (rule : Str) :
    verifyRecord repo sha256 rendering record = .ok [] ↔
    ∃ fields tip text, record = .object fields ∧
      (Dict.get fields "schema".toList).same (.number 1) = true ∧
      checkedOutTip repo rule = .ok tip ∧
      (∀ file ∈ fetched, EntryCurrent repo sha256 fields file) ∧
      repositoryConfig repo rendering = .ok text ∧
      Dict.get fields "config".toList = .string text := by
  have hproblem : (Except.ok ["the record is not schema 1".toList] : Except Failure (List Str)) ≠
      .ok [] := fun h => List.cons_ne_nil _ _ (Except.ok.inj h)
  constructor
  · intro h
    cases record with
    | object fields =>
      rw [verifyRecord] at h
      split_ifs at h with hschema
      · obtain ⟨tip, text, hrest⟩ := (verifyMembers_eq_nil_iff rule).mp h
        exact ⟨fields, tip, text, rfl, hschema, hrest⟩
      · exact absurd h hproblem
    | null => exact absurd h hproblem
    | bool b => exact absurd h hproblem
    | number q => exact absurd h hproblem
    | string t => exact absurd h hproblem
    | array items => exact absurd h hproblem
  · rintro ⟨fields, tip, text, rfl, hschema, hrest⟩
    rw [verifyRecord, if_pos hschema]
    exact (verifyMembers_eq_nil_iff rule).mpr ⟨tip, text, hrest⟩

end Records

section Built

variable {repo later : Repo} {sha256 : Bytes → HexDigest} {rendering : Rendering} {record v : Val}
  {fields d : Dict} {file : Str × Str} {member : Str × Val} {text old new : Str}

/-- The names of a record's members. -/
def memberNames : List Str := "schema".toList :: (fetched.map Prod.fst ++ ["config".toList])

theorem memberNames_nodup : memberNames.Nodup := by
  delta memberNames fetched
  simp only [toList_literal]
  decide

theorem buildEntry_ok_iff : buildEntry repo sha256 file = .ok member ↔
    ∃ commit value, lastCommit repo file.2 = .ok commit ∧
      blobSha256 repo sha256 commit file.2 = .ok value ∧
      member = (file.1, entryOf commit value file.2) := by
  rw [buildEntry]
  simp only [bind_ok, map_ok]
  constructor
  · rintro ⟨commit, hlast, value, hblob, rfl⟩
    exact ⟨commit, value, hlast, hblob, rfl⟩
  · rintro ⟨commit, value, hlast, hblob, rfl⟩
    exact ⟨commit, hlast, value, hblob, rfl⟩

theorem buildRecord_ok_iff : buildRecord repo sha256 rendering = .ok d ↔ ∃ tip text entries,
      checkedOutTip repo buildRule = .ok tip ∧
      repositoryConfig repo rendering = .ok text ∧
      List.Forall₂ (fun file entry => buildEntry repo sha256 file = .ok entry) fetched entries ∧
      d = ("schema".toList, .number 1) :: (entries ++ [("config".toList, .string text)]) := by
  rw [buildRecord]
  simp only [bind_ok, map_ok, mapM_eq_ok_iff]
  constructor
  · rintro ⟨tip, htip, text, htext, entries, hentries, rfl⟩
    exact ⟨tip, text, entries, htip, htext, hentries, rfl⟩
  · rintro ⟨tip, text, entries, htip, htext, hentries, rfl⟩
    exact ⟨tip, htip, text, htext, entries, hentries, rfl⟩

theorem names_of_entries {entries : Dict} {names : List (Str × Str)}
    (h : List.Forall₂ (fun file entry => buildEntry repo sha256 file = .ok entry) names entries) :
    entries.map Prod.fst = names.map Prod.fst := by
  induction h with
  | nil => rfl
  | cons hhead _ ih =>
    obtain ⟨commit, value, -, -, rfl⟩ := buildEntry_ok_iff.mp hhead
    rw [List.map_cons, List.map_cons, ih]

theorem names_of_buildRecord (h : buildRecord repo sha256 rendering = .ok d) :
    d.map Prod.fst = memberNames := by
  obtain ⟨tip, text, entries, -, -, hentries, rfl⟩ := buildRecord_ok_iff.mp h
  rw [List.map_cons, List.map_append, names_of_entries hentries]
  rfl

def Holds (fields d : Dict) : Prop :=
  ∀ member ∈ d, ∃ v, Dict.get? fields member.1 = some v ∧ v.same member.2 = true

theorem holds_of_current {entries : Dict} (htext : Dict.get fields "config".toList = .string text)
    (hschema : (Dict.get fields "schema".toList).same (.number 1) = true)
    (hentries : List.Forall₂ (fun file entry => buildEntry repo sha256 file = .ok entry) fetched
      entries)
    (hcurrent : ∀ file ∈ fetched, EntryCurrent repo sha256 fields file) :
    Holds fields (("schema".toList, .number 1) :: (entries ++ [("config".toList, .string text)])) := by
  intro member hmember
  obtain rfl | hmember := List.mem_cons.mp hmember
  · exact (get_same_iff rfl).mpr hschema
  obtain hmember | hmember := List.mem_append.mp hmember
  · obtain ⟨file, hfile, hbuild⟩ := exists_of_mem_right hentries hmember
    obtain ⟨commit, value, hlast, hblob, rfl⟩ := buildEntry_ok_iff.mp hbuild
    obtain ⟨commit', value', hlast', hblob', hsame⟩ := hcurrent file hfile
    obtain rfl := Except.ok.inj (hlast.symm.trans hlast')
    obtain rfl := Except.ok.inj (hblob.symm.trans hblob')
    exact (get_same_iff rfl).mpr hsame
  · obtain rfl := List.mem_singleton.mp hmember
    exact get_string_iff.mpr htext

theorem current_of_holds {entries : Dict}
    (hentries : List.Forall₂ (fun file entry => buildEntry repo sha256 file = .ok entry) fetched
      entries)
    (h : Holds fields (("schema".toList, .number 1) ::
      (entries ++ [("config".toList, .string text)]))) :
    Dict.get fields "config".toList = .string text ∧
      (Dict.get fields "schema".toList).same (.number 1) = true ∧
      ∀ file ∈ fetched, EntryCurrent repo sha256 fields file := by
  refine ⟨?_, ?_, fun file hfile => ?_⟩
  · exact get_string_iff.mp (h ("config".toList, .string text)
      (List.mem_cons_of_mem _ (List.mem_append_right _ (List.mem_singleton_self _))))
  · exact (get_same_iff rfl).mp (h ("schema".toList, .number 1) List.mem_cons_self)
  · obtain ⟨entry, hentry, hbuild⟩ := exists_of_mem_left hentries hfile
    obtain ⟨commit, value, hlast, hblob, rfl⟩ := buildEntry_ok_iff.mp hbuild
    refine ⟨commit, value, hlast, hblob,
      (get_same_iff rfl).mp (h (file.1, entryOf commit value file.2) ?_)⟩
    exact List.mem_cons_of_mem _ (List.mem_append_left _ hentry)

theorem verifies_iff_holds : verifyRecord repo sha256 rendering record = .ok [] ↔
    ∃ fields d, record = .object fields ∧ buildRecord repo sha256 rendering = .ok d ∧
      Holds fields d := by
  constructor
  · intro h
    obtain ⟨fields, tip, text, rfl, hschema, htip, hcurrent, htext, hget⟩ :=
      (verifyRecord_eq_nil_iff buildRule).mp h
    obtain ⟨entries, hentries⟩ : ∃ entries, fetched.mapM (buildEntry repo sha256) = .ok entries := by
      refine mapM_succeeds_iff.mpr fun file hfile => ?_
      obtain ⟨commit, value, hlast, hblob, -⟩ := hcurrent file hfile
      exact ⟨_, buildEntry_ok_iff.mpr ⟨commit, value, hlast, hblob, rfl⟩⟩
    have hforall := mapM_eq_ok_iff.mp hentries
    exact ⟨fields, _, rfl, buildRecord_ok_iff.mpr ⟨tip, text, entries, htip, htext, hforall, rfl⟩,
      holds_of_current hget hschema hforall hcurrent⟩
  · rintro ⟨fields, d, rfl, hbuild, hholds⟩
    obtain ⟨tip, text, entries, htip, htext, hentries, rfl⟩ := buildRecord_ok_iff.mp hbuild
    obtain ⟨hget, hschema, hcurrent⟩ := current_of_holds hentries hholds
    exact (verifyRecord_eq_nil_iff buildRule).mpr
      ⟨fields, tip, text, rfl, hschema, htip, hcurrent, htext, hget⟩

def NoOtherMember (record : Val) : Prop :=
  ∀ fields, record = .object fields → ∀ field ∈ fields, field.1 ∈ memberNames

theorem verifies_iff_same (hrecord : NoOtherMember record) :
    verifyRecord repo sha256 rendering record = .ok [] ↔
      ∃ d, buildRecord repo sha256 rendering = .ok d ∧ record.same (.object d) = true := by
  rw [verifies_iff_holds]
  constructor
  · rintro ⟨fields, d, rfl, hbuild, hholds⟩
    have hnames := names_of_buildRecord hbuild
    refine ⟨d, hbuild, (Val.same_members_iff (hnames ▸ memberNames_nodup)).mpr ⟨?_, hholds⟩⟩
    rw [hnames]
    exact hrecord fields rfl
  · rintro ⟨d, hbuild, hsame⟩
    obtain ⟨fields, rfl⟩ := object_of_same hsame
    have hnodup : (d.map Prod.fst).Nodup := by
      rw [names_of_buildRecord hbuild]
      exact memberNames_nodup
    exact ⟨fields, d, rfl, hbuild, ((Val.same_members_iff hnodup).mp hsame).2⟩

theorem noOtherMember_of_build (h : buildRecord repo sha256 rendering = .ok d) :
    NoOtherMember (.object d) := by
  rintro fields heq field hfield
  obtain rfl := Val.object.inj heq
  rw [← names_of_buildRecord h]
  exact List.mem_map_of_mem hfield

theorem verifies_of_build (h : buildRecord repo sha256 rendering = .ok d) :
    verifyRecord repo sha256 rendering (.object d) = .ok [] :=
  (verifies_iff_same (noOtherMember_of_build h)).mpr ⟨d, h, Val.same_refl _⟩

end Built

end SharedInfra.PullBootstrap
