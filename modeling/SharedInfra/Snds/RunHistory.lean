import SharedInfra.Snds.HealthText

/-!
# Histories of runs

A history plays its runs one after another over one directory (`play`).  What each run
should leave is `Meets`; along every history of runs that have a URL and end without
an unexpected exception (`Plain`) the state file remembers the link and the last
success (`Remembers`), so every run meets it (`history_meets_iff`).  A run that is not
plain publishes that the state file could not be written.
-/

namespace SharedInfra.Snds

open Python Sequences Effects

variable {F : Type}

section Statements

variable (library : Library F)

/-- The directory after some runs. -/
def play (start : Directory) (runs : List (Run F)) : Directory :=
  runs.foldl (fun directory run => (main library run directory).1) start

def exitCode (start : Directory) (past : List (Run F)) (run : Run F) : Nat :=
  (main library run (play library start past)).2

def seriesStart (past : List (Run F)) (run : Run F) : F :=
  ((past.reverse.takeWhile fun earlier => earlier.url = run.url).getLast?.getD run).now

/-- The time of the latest run of a history that exits 0; the past is read backwards. -/
def latestSuccess (start : Directory) : List (Run F) → Option F
  | [] => none
  | run :: earlier =>
    if exitCode library start earlier.reverse run = 0 then some run.now
    else latestSuccess start earlier

/-- What a run leaves of the files and what it publishes. -/
structure Meets (start : Directory) (past : List (Run F)) (run : Run F) : Prop where
  rewritten : gaugeOf (play library start (past ++ [run])).health lastAttempt =
    some (library.floats.repr run.now)
  success : gaugeOf (play library start (past ++ [run])).health lastRunSuccess =
    some (flag (exitCode library start past run == 0))
  preserved : exitCode library start past run ≠ 0 →
    (play library start (past ++ [run])).reputation = (play library start past).reputation
  firstSeen : run.url ≠ none → run.url ≠ some [] →
    gaugeOf (play library start (past ++ [run])).health linkFirstSeen =
      some (library.floats.repr (seriesStart past run))
  readable : gaugeOf (play library start (past ++ [run])).health linkStateReadable =
    some (flag false) → run.writable = false
  lastSuccess : ∀ time, latestSuccess library start (past ++ [run]).reverse = some time →
    gaugeOf (play library start (past ++ [run])).health lastSuccessTime =
      some (library.floats.repr time)

/-- An exception that `_collect` does not catch is raised in the run. -/
def Unexpected (run : Run F) : Prop :=
  run.raises .reading = true ∨ run.raises .fetching = true ∨
    match run.answer with
    | .failed => False
    | .noData => run.raises .recording = true
    | .text raw => run.raises .parsing = true ∨ parseSndsFeed library.floats raw = .error () ∨
        (∃ feed, parseSndsFeed library.floats raw = .ok feed ∧ feed.usable = true) ∧
          (run.raises .writing = true ∨ run.raises .recording = true ∨ run.raises .reporting = true)

structure Plain (run : Run F) : Prop where
  url : ∃ url, url ≠ [] ∧ run.url = some url
  expected : ¬ Unexpected library run

/-- A state file that tells nothing of a run. -/
def Silent (state : Option Json) : Prop :=
  ∀ digest, readState library digest state = .ok (none, none)

end Statements

section StateFile

variable {library : Library F} {members : List (Str × Json)} {name : Str} {value : Json}

theorem member_setMember (other : Str) :
    Json.member (setMember members name value) other =
      if other = name then some value else Json.member members other := by
  rw [setMember]
  split_ifs with hany hother hother
  · subst hother
    have hkeep : ∀ m : Str × Json, (if m.1 = other then (other, value) else m).1 = m.1 := by
      intro m
      split_ifs with h
      · exact h.symm
      · rfl
    obtain ⟨m, hm, hname⟩ := List.any_eq_true.mp hany
    rw [Json.member, ← List.map_reverse, List.find?_map, Option.map_map]
    cases hfind : members.reverse.find? ((·.1 == other) ∘ fun m =>
        if m.1 = other then (other, value) else m) with
    | none =>
      have hnone := List.find?_eq_none.mp hfind m (List.mem_reverse.mpr hm)
      rw [Function.comp_apply, hkeep] at hnone
      exact absurd hname hnone
    | some found =>
      have hfound := List.find?_some hfind
      rw [Function.comp_apply, hkeep, beq_iff_eq] at hfound
      simp [hfound]
  · have hsame : (fun m : Str × Json => (if m.1 = name then (name, value) else m).1 == other) =
        fun m => m.1 == other := by
      funext m
      split_ifs with h
      · rw [h]
      · rfl
    rw [Json.member, Json.member, ← List.map_reverse, List.find?_map, Option.map_map]
    show (members.reverse.find? fun m => (if m.1 = name then (name, value) else m).1 == other).map _
      = _
    rw [hsame]
    cases hfind : members.reverse.find? (·.1 == other) with
    | none => rfl
    | some found =>
      have hfound := List.find?_some hfind
      rw [beq_iff_eq] at hfound
      have hne : found.1 ≠ name := hfound ▸ hother
      simp [hne]
  · rw [Json.member, List.reverse_append, List.reverse_singleton, List.singleton_append,
      List.find?_cons_of_pos (by simp [hother])]
    rfl
  · rw [Json.member, List.reverse_append, List.reverse_singleton, List.singleton_append,
      List.find?_cons_of_neg (by simp [Ne.symm hother])]
    rfl

/-- What the state file tells: the link it has seen, since when, and the last success. -/
def Remembers (library : Library F) (state : Option Json) (link : Option (Str × F))
    (lastSuccess : Option F) : Prop :=
  ∀ digest, readState library digest state =
    .ok (link.bind fun seen => if seen.1 = digest then some seen.2 else none, lastSuccess)

theorem floatOf_number (x : F) :
    floatOf library (some (.number (library.dump x))) = .ok (some x) := by
  rw [floatOf, library.load_dump]
  rfl

theorem floatOf_numberOrNull (x : Option F) :
    floatOf library (some (numberOrNull library x)) = .ok x := by
  cases x with
  | none => rfl
  | some x => exact floatOf_number x

theorem remembers_linkState (digest : Str) (firstSeen : F) (lastSuccess : Option F) :
    Remembers library (some (linkState library digest firstSeen lastSuccess))
      (some (digest, firstSeen)) lastSuccess := by
  intro other
  refine bind_eq_ok_iff.mpr ⟨lastSuccess, floatOf_numberOrNull lastSuccess, ?_⟩
  refine bind_eq_ok_iff.mpr ⟨if digest = other then some firstSeen else none, ?_, rfl⟩
  show (if digest = other then floatOf library _ else .ok none) = _
  split_ifs
  · exact floatOf_number firstSeen
  · rfl

theorem recordedLink_setMember (digest : Str) (value : Json) :
    recordedLink library digest (setMember members "last_success" value) =
      recordedLink library digest members := by
  have hurl : Json.member (setMember members "last_success" value) "url_sha256" =
      Json.member members "url_sha256" := (member_setMember _).trans (if_neg (by decide))
  have hfirst : Json.member (setMember members "last_success" value) "first_seen" =
      Json.member members "first_seen" := (member_setMember _).trans (if_neg (by decide))
  rw [recordedLink, recordedLink, hurl, hfirst]

theorem remembers_recordSuccessfulRun {run : Run F} {directory : Directory}
    {link : Option (Str × F)} {lastSuccess : Option F} (hwritable : run.writable = true)
    (h : Remembers library directory.state link lastSuccess) :
    Remembers library (recordSuccessfulRun library run directory).state link (some run.now) := by
  intro digest
  rw [recordSuccessfulRun, if_pos hwritable]
  have hlast : Json.member (setMember (blobOf directory.state) "last_success"
      (.number (library.dump run.now))) "last_success" = some (.number (library.dump run.now)) :=
    (member_setMember _).trans (if_pos rfl)
  refine bind_eq_ok_iff.mpr ⟨some run.now, by rw [hlast]; exact floatOf_number run.now, ?_⟩
  rw [recordedLink_setMember]
  refine bind_eq_ok_iff.mpr ⟨_, ?_, rfl⟩
  have hbefore := h digest
  cases hstate : directory.state with
  | none =>
    rw [hstate] at hbefore
    have hlink := congrArg Prod.fst (Except.ok.inj hbefore)
    exact congrArg Except.ok hlink
  | some json =>
    rw [hstate] at hbefore
    cases json with
    | object members =>
      obtain ⟨last, -, hbefore⟩ := bind_eq_ok_iff.mp hbefore
      obtain ⟨first, hfirst, hbefore⟩ := bind_eq_ok_iff.mp hbefore
      have hlink := congrArg Prod.fst (Except.ok.inj hbefore)
      exact hfirst.trans (congrArg Except.ok hlink)
    | _ =>
      have hlink := congrArg Prod.fst (Except.ok.inj hbefore)
      exact congrArg Except.ok hlink

end StateFile

section Runs

variable {library : Library F} {run : Run F} {directory : Directory} {url : Str}
  {link : Option (Str × F)} {lastSuccess : Option F}

def seenSince (library : Library F) (link : Option (Str × F)) (run : Run F) (url : Str) : F :=
  (link.bind fun seen => if seen.1 = library.sha256 url then some seen.2 else none).getD run.now

theorem readLinkState_spec (hwritable : run.writable = true)
    (h : Remembers library directory.state link lastSuccess) :
    ∃ directory', readLinkState library run url directory =
        .ok ((some (seenSince library link run url), lastSuccess), directory') ∧
      Remembers library directory'.state
        (some (library.sha256 url, seenSince library link run url)) lastSuccess ∧
      directory'.reputation = directory.reputation := by
  have hread := h (library.sha256 url)
  rw [readLinkState, hread, seenSince]
  cases hlink : link.bind fun seen =>
      if seen.1 = library.sha256 url then some seen.2 else none with
  | none =>
    exact ⟨_, if_pos hwritable, remembers_linkState _ _ _, rfl⟩
  | some firstSeen =>
    refine ⟨directory, rfl, ?_, rfl⟩
    obtain ⟨seen, hseen, hmatch⟩ := Option.bind_eq_some_iff.mp hlink
    split_ifs at hmatch with hdigest
    cases hmatch
    have hsame : link = some (library.sha256 url, seen.2) := by
      rw [hseen, ← hdigest]
    exact hsame ▸ h

/-- What a run that ends as expected leaves behind. -/
structure Leaves (library : Library F) (run : Run F) (directory : Directory) (url : Str)
    (since : F) (last : Option F) (directory' : Directory) (outcome : RunOutcome F) : Prop where
  firstSeen : outcome.linkFirstSeen = some since
  exit : outcome.exitCode = 0 ∨ outcome.exitCode ≠ 0 ∧ directory'.reputation = directory.reputation
  lastSuccess : outcome.lastSuccess = if outcome.exitCode = 0 then some run.now else last
  remembers : Remembers library directory'.state (some (library.sha256 url, since))
    (if outcome.exitCode = 0 then some run.now else last)

theorem Run.upTo_pass {point : Point} {rest : Directory × Except Unit (RunOutcome F)}
    (h : ¬ run.raises point = true) : run.upTo point directory rest = rest := if_neg h

theorem Run.upTo_raise {point : Point} {rest : Directory × Except Unit (RunOutcome F)}
    (h : run.raises point = true) : (run.upTo point directory rest).2 = .error () := by
  rw [Run.upTo, if_pos h]

theorem useAnswer_spec {firstSeen : F} (hwritable : run.writable = true)
    (hexpected : ¬ Unexpected library run)
    (h : Remembers library directory.state (some (library.sha256 url, firstSeen)) lastSuccess) :
    ∃ directory' outcome, useAnswer library run (some firstSeen) lastSuccess directory =
        (directory', .ok outcome) ∧
      Leaves library run directory url firstSeen lastSuccess directory' outcome := by
  rw [Unexpected, not_or, not_or] at hexpected
  obtain ⟨-, -, hexpected⟩ := hexpected
  rw [useAnswer]
  cases hanswer : run.answer with
  | noData =>
    rw [hanswer] at hexpected
    exact ⟨_, _, Run.upTo_pass hexpected, rfl, .inl rfl, rfl,
      remembers_recordSuccessfulRun hwritable h⟩
  | failed => exact ⟨_, _, rfl, rfl, .inr ⟨Nat.one_ne_zero, rfl⟩, rfl, h⟩
  | text raw =>
    rw [hanswer] at hexpected
    simp only [not_or, not_and] at hexpected
    obtain ⟨hparsing, hparse, hpublish⟩ := hexpected
    dsimp only
    rw [Run.upTo_pass hparsing]
    cases hfeed : parseSndsFeed library.floats raw with
    | error e => exact absurd hfeed hparse
    | ok feed =>
      dsimp only
      by_cases husable : feed.usable = true
      · obtain ⟨hwriting, hrecording, hreporting⟩ := hpublish ⟨feed, hfeed, husable⟩
        rw [if_neg (by simp [husable]), if_neg (by simp [hwritable]), Run.upTo_pass hwriting,
          Run.upTo_pass hrecording, Run.upTo_pass hreporting]
        exact ⟨_, _, rfl, rfl, .inl rfl, rfl, remembers_recordSuccessfulRun hwritable h⟩
      · rw [if_pos (by simp [husable])]
        exact ⟨_, _, rfl, rfl, .inr ⟨Nat.one_ne_zero, rfl⟩, rfl, h⟩

theorem collect_url (hurl : run.url = some url) (hne : url ≠ []) :
    collect library run directory = run.upTo .reading directory
      (match readLinkState library run url directory with
      | .error () => (directory, .error ())
      | .ok ((firstSeen, lastSuccess), directory) =>
        run.upTo .fetching directory (useAnswer library run firstSeen lastSuccess directory)) := by
  rw [collect, hurl]
  cases url with
  | nil => exact absurd rfl hne
  | cons c url => rfl

theorem collect_spec (hurl : run.url = some url) (hne : url ≠ []) (hwritable : run.writable = true)
    (hexpected : ¬ Unexpected library run)
    (h : Remembers library directory.state link lastSuccess) :
    ∃ directory' outcome, collect library run directory = (directory', .ok outcome) ∧
      Leaves library run directory url (seenSince library link run url) lastSuccess directory'
        outcome := by
  obtain ⟨directory₁, hread, hremembers, hreputation⟩ := readLinkState_spec hwritable h
  obtain ⟨directory', outcome, hanswer, hleaves⟩ :=
    useAnswer_spec hwritable hexpected hremembers
  refine ⟨directory', outcome, ?_, hleaves.firstSeen, hreputation ▸ hleaves.exit,
    hleaves.lastSuccess, hleaves.remembers⟩
  rw [Unexpected, not_or, not_or] at hexpected
  rw [collect_url hurl hne, Run.upTo_pass hexpected.1, hread]
  exact (Run.upTo_pass hexpected.2.1).trans hanswer

theorem useAnswer_unexpected (hfetching : ¬ run.raises .fetching = true)
    (hreading : ¬ run.raises .reading = true) (h : Unexpected library run)
    {first last : Option F} :
    (useAnswer library run first last directory).2 = .error () := by
  obtain h | h | h := h
  · exact absurd h hreading
  · exact absurd h hfetching
  · rw [useAnswer]
    cases hanswer : run.answer with
    | noData =>
      rw [hanswer] at h
      exact Run.upTo_raise h
    | failed => rw [hanswer] at h; exact h.elim
    | text raw =>
      rw [hanswer] at h
      dsimp only at h ⊢
      by_cases hparsing : run.raises .parsing = true
      · exact Run.upTo_raise hparsing
      · rw [Run.upTo_pass hparsing]
        obtain h | h | ⟨⟨feed, hfeed, husable⟩, h⟩ := h
        · exact absurd h hparsing
        · rw [h]
        · rw [hfeed]
          dsimp only
          rw [if_neg (by simp [husable])]
          split_ifs
          · rfl
          · by_cases hwriting : run.raises .writing = true
            · exact Run.upTo_raise hwriting
            · rw [Run.upTo_pass hwriting]
              by_cases hrecording : run.raises .recording = true
              · exact Run.upTo_raise hrecording
              · rw [Run.upTo_pass hrecording]
                exact Run.upTo_raise (by tauto)

theorem collect_unexpected (hurl : run.url = some url) (hne : url ≠ [])
    (h : Unexpected library run) : (collect library run directory).2 = .error () := by
  rw [collect_url hurl hne]
  by_cases hreading : run.raises .reading = true
  · exact Run.upTo_raise hreading
  · rw [Run.upTo_pass hreading]
    cases hread : readLinkState library run url directory with
    | error e => rfl
    | ok state =>
      obtain ⟨⟨first, last⟩, directory'⟩ := state
      dsimp only
      by_cases hfetching : run.raises .fetching = true
      · exact Run.upTo_raise hfetching
      · rw [Run.upTo_pass hfetching]
        exact useAnswer_unexpected hfetching hreading h

end Runs

section Histories

variable {library : Library F} {start : Directory} {past runs : List (Run F)} {run : Run F}
  {url : Str}

theorem play_snoc : play library start (past ++ [run]) =
    (main library run (play library start past)).1 := by
  rw [play, List.foldl_append]
  rfl

theorem seriesStart_snoc {last : Run F} : seriesStart (past ++ [last]) run =
    if last.url = run.url then seriesStart past last else run.now := by
  rw [seriesStart, List.reverse_append, List.reverse_singleton, List.singleton_append]
  split_ifs with hurl
  · rw [List.takeWhile_cons_of_pos (by simp [hurl]), List.getLast?_cons, Option.getD_some,
      seriesStart, hurl]
  · rw [List.takeWhile_cons_of_neg (by simp [hurl])]
    rfl

/-- The link the runs of a history have last seen, the latest of them first. -/
def lastLink (library : Library F) : List (Run F) → Option (Str × F)
  | [] => none
  | run :: earlier =>
    run.url.map fun url => (library.sha256 url, seriesStart earlier.reverse run)

theorem seenSince_lastLink {earlier : List (Run F)} (hurl : run.url = some url)
    (hdigest : ∀ before ∈ earlier, ∀ other, before.url = some other →
      library.sha256 other = library.sha256 url → other = url)
    (hplain : ∀ before ∈ earlier, ∃ other, before.url = some other) :
    seenSince library (lastLink library earlier) run url = seriesStart earlier.reverse run := by
  cases earlier with
  | nil => rfl
  | cons last earlier =>
    obtain ⟨other, hother⟩ := hplain last (List.mem_cons_self ..)
    rw [List.reverse_cons, seriesStart_snoc, seenSince, lastLink, hother, hurl]
    simp only [Option.map_some, Option.bind_some, Option.some.injEq]
    by_cases hsame : other = url
    · rw [if_pos (by rw [hsame]), if_pos hsame]
      rfl
    · have hne : ¬ library.sha256 other = library.sha256 url :=
        fun h => hsame (hdigest last (List.mem_cons_self ..) other hother h)
      rw [if_neg hne, if_neg hsame]
      rfl

theorem main_of_ok {directory directory' : Directory} {outcome : RunOutcome F}
    (hwritable : run.writable = true)
    (h : collect library run directory = (directory', .ok outcome)) :
    main library run directory =
      ({ directory' with health := some (renderHealthText library.floats run.now
          (outcome.exitCode == 0) outcome.linkFirstSeen outcome.lastSuccess
          outcome.dataAvailable) }, outcome.exitCode) := by
  rw [main, h]
  dsimp only
  rw [publishHealth, if_pos hwritable]

theorem not_readable_of_not_plain {directory : Directory} (hwritable : run.writable = true)
    (h : ¬ Plain library run) :
    gaugeOf (main library run directory).1.health linkStateReadable = some (flag false) := by
  by_cases hurl : ∃ url, url ≠ [] ∧ run.url = some url
  · obtain ⟨url, hne, heq⟩ := hurl
    have hunexpected : Unexpected library run := by
      by_contra hexpected
      exact h ⟨⟨url, hne, heq⟩, hexpected⟩
    have herror : (collect library run directory).2 = .error () := collect_unexpected heq hne hunexpected
    rw [main]
    cases hcollect : collect library run directory with
    | mk directory' result =>
      rw [hcollect] at herror
      dsimp only at herror ⊢
      rw [herror]
      dsimp only
      rw [publishHealth, if_pos hwritable]
      exact health_linkStateReadable _ _ _ _ _ _
  · have hcollect : collect library run directory = (directory, .ok ⟨1, none, none, none⟩) := by
      rw [collect]
      cases heq : run.url with
      | none => rfl
      | some url =>
        cases url with
        | nil => rfl
        | cons c url => exact absurd ⟨_, List.cons_ne_nil c url, heq⟩ hurl
    rw [main_of_ok hwritable hcollect]
    exact health_linkStateReadable _ _ _ _ _ _

theorem meets_snoc {earlier : List (Run F)} (hplain : Plain library run)
    (hwritable : run.writable = true)
    (hpast : ∀ before ∈ earlier, ∃ other, before.url = some other)
    (hdigest : ∀ before ∈ earlier, ∀ url other, run.url = some url → before.url = some other →
      library.sha256 other = library.sha256 url → other = url)
    (h : Remembers library (play library start earlier.reverse).state (lastLink library earlier)
      (latestSuccess library start earlier)) :
    Meets library start earlier.reverse run ∧
      Remembers library (play library start (run :: earlier).reverse).state
        (lastLink library (run :: earlier)) (latestSuccess library start (run :: earlier)) := by
  obtain ⟨url, hne, hurl⟩ := hplain.url
  obtain ⟨directory', outcome, hcollect, hleaves⟩ :=
    collect_spec hurl hne hwritable hplain.expected h
  have hseen := seenSince_lastLink hurl (fun before hmem other => hdigest before hmem url other hurl)
    hpast
  have hmain := main_of_ok hwritable hcollect
  have hexit : exitCode library start earlier.reverse run = outcome.exitCode := by
    rw [exitCode, hmain]
  have hlatest : latestSuccess library start (run :: earlier) =
      if outcome.exitCode = 0 then some run.now else latestSuccess library start earlier := by
    rw [latestSuccess, hexit]
  have hplay : play library start (earlier.reverse ++ [run]) = _ :=
    play_snoc.trans (congrArg Prod.fst hmain)
  rw [hseen] at hleaves
  constructor
  · constructor
    · rw [hplay]
      exact health_lastAttempt _ _ _ _ _ _
    · rw [hplay, hexit]
      exact health_lastRunSuccess _ _ _ _ _ _
    · intro hfailed
      rw [hexit] at hfailed
      rw [hplay]
      rcases hleaves.exit with hzero | ⟨-, hreputation⟩
      · exact absurd hzero hfailed
      · exact hreputation
    · intro _ _
      rw [hplay]
      exact (health_linkFirstSeen _ _ _ _ _ _).trans (by rw [hleaves.firstSeen]; rfl)
    · rw [hplay]
      intro hflag
      have hone := (health_linkStateReadable _ _ _ _ _ _).symm.trans hflag
      rw [hleaves.firstSeen] at hone
      cases hone
    · intro time htime
      rw [List.reverse_append, List.reverse_reverse, List.reverse_singleton,
        List.singleton_append, hlatest] at htime
      rw [hplay]
      refine (health_lastSuccessTime _ _ _ _ _ _).trans ?_
      rw [hleaves.lastSuccess, htime]
      rfl
  · rw [List.reverse_cons, hplay, hlatest, lastLink, hurl]
    exact hleaves.remembers

theorem remembers_play {earlier : List (Run F)} (hsilent : Silent library start.state)
    (hplain : ∀ before ∈ earlier, Plain library before)
    (hwritable : ∀ before ∈ earlier, before.writable = true)
    (hdigest : Set.InjOn library.sha256 {url | ∃ before ∈ earlier, before.url = some url}) :
    Remembers library (play library start earlier.reverse).state (lastLink library earlier)
      (latestSuccess library start earlier) := by
  induction earlier with
  | nil => exact hsilent
  | cons last earlier ih =>
    obtain ⟨hlast, hplain⟩ := List.forall_mem_cons.mp hplain
    obtain ⟨hwrite, hwritable⟩ := List.forall_mem_cons.mp hwritable
    have hsub : {url | ∃ before ∈ earlier, before.url = some url} ⊆
        {url | ∃ before ∈ last :: earlier, before.url = some url} :=
      fun url ⟨before, hmem, hurl⟩ => ⟨before, List.mem_cons_of_mem _ hmem, hurl⟩
    refine (meets_snoc hlast hwrite (fun before hmem => ?_) (fun before hmem url other hurl hother
      heq => ?_) (ih hplain hwritable (hdigest.mono hsub))).2
    · obtain ⟨url, -, hurl⟩ := (hplain before hmem).url
      exact ⟨url, hurl⟩
    · exact hdigest ⟨before, List.mem_cons_of_mem _ hmem, hother⟩
        ⟨last, List.mem_cons_self .., hurl⟩ heq

/-- In a writable directory in which nothing is recorded, and with URLs whose digests differ, every
run of a history leaves and publishes what it should exactly if every run of it is plain. -/
theorem history_meets_iff (library : Library F) (start : Directory) (runs : List (Run F))
    (hsilent : Silent library start.state) (hwritable : ∀ run ∈ runs, run.writable = true)
    (hdigest : Set.InjOn library.sha256 {url | ∃ run ∈ runs, run.url = some url}) :
    (∀ past run rest, runs = past ++ run :: rest → Meets library start past run) ↔
      ∀ run ∈ runs, Plain library run := by
  constructor
  · intro hmeets run hrun
    by_contra hplain
    obtain ⟨past, rest, rfl⟩ := List.append_of_mem hrun
    have hread := (hmeets past run rest rfl).readable
    rw [play_snoc, hwritable run hrun] at hread
    cases hread (not_readable_of_not_plain (hwritable run hrun) hplain)
  · rintro hplain past run rest rfl
    have hmem : ∀ before ∈ past.reverse, before ∈ past ++ run :: rest := fun before hbefore =>
      List.mem_append_left _ (List.mem_reverse.mp hbefore)
    have hrun : run ∈ past ++ run :: rest := List.mem_append_right _ (List.mem_cons_self ..)
    have hsub : {url | ∃ before ∈ past.reverse, before.url = some url} ⊆
        {url | ∃ before ∈ past ++ run :: rest, before.url = some url} :=
      fun url ⟨before, h, hurl⟩ => ⟨before, hmem before h, hurl⟩
    have hremembers := remembers_play hsilent (fun before h => hplain before (hmem before h))
      (fun before h => hwritable before (hmem before h)) (hdigest.mono hsub)
    have hmeets := meets_snoc (hplain run hrun) (hwritable run hrun) (fun before h => ?_)
      (fun before h url other hurl hother heq => ?_) hremembers
    · rw [List.reverse_reverse] at hmeets
      exact hmeets.1
    · obtain ⟨url, -, hurl⟩ := (hplain before (hmem before h)).url
      exact ⟨url, hurl⟩
    · exact hdigest ⟨before, hmem before h, hother⟩ ⟨run, hrun, hurl⟩ heq

end Histories

inductive DayFloat where
  | morning
  | noon
  | infinite

def DayFloat.text : DayFloat → Str
  | .morning => "1760000000.0"
  | .noon => "1760021600.0"
  | .infinite => "inf"

def dayFloats : Floats DayFloat where
  parse s := if s = "inf".toList then some .infinite else none
  percent x := x
  truncate
    | .infinite => .overflow
    | _ => .value 1760000000
  repr := DayFloat.text
  repr_number x := by cases x <;> exact Pattern.fullMatch_iff.mp (by decide)

def dayLibrary : Library DayFloat where
  floats := dayFloats
  dump x := match x with
    | .infinite => "Infinity"
    | x => x.text
  load s :=
    if s = "1760000000.0".toList then .ok .morning
    else if s = "1760021600.0".toList then .ok .noon
    else .ok .infinite
  load_dump x := by cases x <;> rfl
  sha256 _ := "4dbad77e7ce0be5fd62a843aa8a234966db74d17667372d8fbe17bfbb8b68ac0"

def dayUrl : Str := "https://snds.test/data?key=1"

def dayRun (now : DayFloat) (url : Option Str) (answer : Answer) : Run DayFloat :=
  ⟨now, url, answer, true, fun _ => false⟩

def emptyDirectory : Directory := ⟨none, none, none⟩

theorem dayRun_plain_failed : Plain dayLibrary (dayRun .noon (some dayUrl) .failed) :=
  ⟨⟨dayUrl, by decide, rfl⟩, by rintro (h | h | h) <;> cases h⟩

theorem dayRun_plain_noData : Plain dayLibrary (dayRun .morning (some dayUrl) .noData) :=
  ⟨⟨dayUrl, by decide, rfl⟩, by rintro (h | h | h) <;> cases h⟩

/-- A quiet morning and a failing fetch at noon. -/
theorem history_meets_iff_quietDay :
    Meets dayLibrary emptyDirectory [] (dayRun .morning (some dayUrl) .noData) ∧
      Meets dayLibrary emptyDirectory [dayRun .morning (some dayUrl) .noData]
        (dayRun .noon (some dayUrl) .failed) := by
  suffices hmeets : ∀ past run rest, [dayRun .morning (some dayUrl) .noData,
      dayRun .noon (some dayUrl) .failed] = past ++ run :: rest →
        Meets dayLibrary emptyDirectory past run by
    exact ⟨hmeets [] _ [_] rfl, hmeets [_] _ [] rfl⟩
  refine (history_meets_iff dayLibrary emptyDirectory _ (fun _ => rfl) ?_ ?_).mpr ?_
  · exact List.forall_mem_cons.mpr ⟨rfl, List.forall_mem_singleton.mpr rfl⟩
  · rintro url ⟨run, hrun, hurl⟩ other ⟨run', hrun', hother⟩ -
    have hall : ∀ run ∈ [dayRun .morning (some dayUrl) .noData, dayRun .noon (some dayUrl) .failed],
        run.url = some dayUrl :=
      List.forall_mem_cons.mpr ⟨rfl, List.forall_mem_singleton.mpr rfl⟩
    rw [hall run hrun] at hurl
    rw [hall run' hrun'] at hother
    exact Option.some.inj (hurl.symm.trans hother)
  · exact List.forall_mem_cons.mpr ⟨dayRun_plain_noData,
      List.forall_mem_singleton.mpr dayRun_plain_failed⟩

/-- An infinite volume, and a missing URL, after a run that succeeded. -/
theorem health_lost :
    (¬ ∀ past run rest, [dayRun .morning (some dayUrl) .noData,
        dayRun .noon (some dayUrl) (.text "192.0.2.1,green,,inf")] = past ++ run :: rest →
      Meets dayLibrary emptyDirectory past run) ∧
    ¬ ∀ past run rest, [dayRun .morning (some dayUrl) .noData, dayRun .noon none .noData] =
        past ++ run :: rest → Meets dayLibrary emptyDirectory past run := by
  constructor
  · intro hmeets
    have hread := (hmeets [_] _ [] rfl).readable
    rw [play_snoc] at hread
    refine Bool.noConfusion (hread (not_readable_of_not_plain rfl fun hplain => ?_))
    exact hplain.expected (.inr (.inr (.inr (.inl rfl))))
  · intro hmeets
    have hread := (hmeets [_] _ [] rfl).readable
    rw [play_snoc] at hread
    refine Bool.noConfusion (hread (not_readable_of_not_plain rfl fun hplain => ?_))
    obtain ⟨url, -, hurl⟩ := hplain.url
    cases hurl

end SharedInfra.Snds
