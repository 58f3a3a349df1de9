import SharedInfra.Python.Text

/-!
# Clearing blocked addresses

`list_and_clear_blocked_ips.py`: the entries that a choice of `--ip`, `--reason` and `--all`
selects, the two calls that clear them, and what is printed.  A run clears what it says
(`Right`) just when no address of `--ip` has an earlier entry, the server destroys what it is asked
to and accepts the reload, and a choice that names nothing meets a list that is not empty
(`right_iff`).
-/

namespace SharedInfra.MailAdmin

open Python

structure BlockedEntry where
  id : Str
  address : Str
  reason : Str
  createdAt : Str
deriving DecidableEq

/-- The answer to `x:BlockedIp/get`: an id names one entry. -/
structure Listing where
  entries : List BlockedEntry
  nodup : (entries.map BlockedEntry.id).Nodup

structure ClearArgs where
  listOnly : Bool
  ips : List Str
  reasons : List Str
  all : Bool

/-- What a step of the script raises: an HTTP error status, a failure to get an answer with its
cause, any other `OSError`, or what is not caught. -/
inductive Failure where
  | http (code : Nat) (reason : Str)
  | noAnswer (cause : Str)
  | os (name text : Str)
  | uncaught (name : Str)

/-- `by_address`: the last entry of an address counts. -/
def idAt (blocked : List BlockedEntry) (ip : Str) : Option Str :=
  (blocked.reverse.find? fun entry => entry.address = ip).map BlockedEntry.id

def selectIdsToClear (blocked : List BlockedEntry) (ips reasons : List Str) (clearAll : Bool) :
    Except Str (List Str) :=
  if clearAll = true ∧ (ips ≠ [] ∨ reasons ≠ []) then
    .error "pass --all or --ip/--reason, not both".toList
  else if clearAll = false ∧ ips = [] ∧ reasons = [] then
    .error ("no selection: pass --ip <addr>, --reason <reason> (either repeatable), ".toList ++
      "or --all".toList)
  else if clearAll = true then .ok (blocked.map BlockedEntry.id)
  else
    let missing := ips.filter fun ip => (idAt blocked ip).isNone
    let byReason := (blocked.filter fun entry => entry.reason ∈ reasons).map BlockedEntry.id
    if missing ≠ [] then
      .error ("not currently blocked, nothing to clear: ".toList ++
        joinWith ", ".toList missing)
    else if reasons ≠ [] ∧ byReason = [] then
      .error ("no blocked entries match reason(s): ".toList ++ joinWith ", ".toList reasons)
    else .ok (ips.filterMap (idAt blocked) ++ byReason).dedup

/-- The server and the files of a run: what the credentials file and the listing give, the ids that
are there when the set call arrives and those it will not destroy, what becomes of the two calls,
and whether the reload is accepted. -/
structure BlockServer where
  credentials : Option Failure
  listed : Except Failure Listing
  later : List Str
  refuses : Str → Bool
  set : Option Failure
  reload : Option Failure
  reloads : Bool

/-- The listing, if the script gets one. -/
def BlockServer.blocked (server : BlockServer) : Except Failure Listing :=
  match server.credentials with
  | some failure => .error failure
  | none => server.listed

/-- What the set call destroys of the ids it is sent; the others are listed as not destroyed. -/
def BlockServer.destroyed (server : BlockServer) (ids : List Str) : List Str :=
  ids.filter fun id => decide (id ∈ server.later) && !server.refuses id

def describeCause : Failure → Str
  | .http code reason => "HTTPError: HTTP ".toList ++ decimal code ++ ' ' :: reason
  | .noAnswer cause => cause
  | .os name text => name ++ ": ".toList ++ text
  | .uncaught name => name

def baseUrl : Str := "http://127.0.0.1:8080"

def describeFailure (failure : Failure) : Str :=
  let line :=
    match failure with
    | .http code reason =>
        "list_and_clear_blocked_ips: the Stalwart API at ".toList ++ baseUrl ++
          " answered HTTP ".toList ++ decimal code ++ ' ' :: reason ++
          "; the server is up, so check the request and the credential".toList
    | .noAnswer cause =>
        "list_and_clear_blocked_ips: no answer from the Stalwart API at ".toList ++ baseUrl ++
          ": ".toList ++ cause ++ "; the container may still be restarting; ".toList ++
          "wait a few seconds and run it again".toList
    | .os name text => "list_and_clear_blocked_ips: ".toList ++ name ++ ": ".toList ++ text
    | .uncaught name => name
  joinWith [' '] (splitWords line)

/-- The message after a reload without an answer. -/
def describeReload (failure : Failure) : Str :=
  joinWith [' '] (splitWords ("list_and_clear_blocked_ips: ".toList ++ describeCause failure ++
    (" while reloading the block list; ".toList ++
    ("the selected entries were already deleted from the registry but the live block list ".toList ++
    ("was not reloaded, so those IPs may still be blocked, and running --ip again will ".toList ++
    "report them as not blocked; check the server before relying on the clear".toList)))))

/-- A line of the output, and what goes to the error stream. -/
inductive ClearLine where
  | noBlocked
  | entry (entry : BlockedEntry)
  | cleared (count : Nat)
  | err (text : Str)
  | traceback (name : Str)

/-- What a run sends for destruction, prints and ends with. -/
structure Cleared where
  sent : Option (List Str)
  lines : List ClearLine
  exit : Nat

/-- `run` where `main` raises. -/
def failed (sent : Option (List Str)) (lines : List ClearLine) (failure : Failure) : Cleared :=
  match failure with
  | .uncaught name => ⟨sent, lines ++ [.traceback name], 1⟩
  | failure => ⟨sent, lines ++ [.err (describeFailure failure)], 1⟩

/-- The two calls, and what is printed behind them. -/
def clear (server : BlockServer) (lines : List ClearLine) (ids : List Str) : Cleared :=
  match server.set with
  | some failure => failed (some ids) lines failure
  | none =>
      match server.reload with
      | some (.uncaught name) => ⟨some ids, lines ++ [.traceback name], 1⟩
      | some failure => ⟨some ids, lines ++ [.err (describeReload failure)], 1⟩
      | none => ⟨some ids, lines ++ [.cleared ids.length], 0⟩

/-- `run` of `main`. -/
def runClear (args : ClearArgs) (server : BlockServer) : Cleared :=
  match server.blocked with
  | .error failure => failed none [] failure
  | .ok listing =>
      if listing.entries = [] then ⟨none, [.noBlocked], 0⟩
      else
        let lines := listing.entries.map ClearLine.entry
        if args.listOnly then ⟨none, lines, 0⟩
        else
          match selectIdsToClear listing.entries args.ips args.reasons args.all with
          | .error message =>
              ⟨none, lines ++ [.err ("list_and_clear_blocked_ips: ".toList ++ message)], 1⟩
          | .ok ids => clear server lines ids

section Statements

variable (args : ClearArgs) (server : BlockServer) (blocked : List BlockedEntry)

/-- The entries that the selectors mean. -/
def Selected (entry : BlockedEntry) : Prop :=
  args.all = true ∨ entry.address ∈ args.ips ∨ entry.reason ∈ args.reasons

instance (entry : BlockedEntry) : Decidable (Selected args entry) := by
  unfold Selected
  infer_instance

def NamesNothing : Prop :=
  (∃ ip ∈ args.ips, ∀ entry ∈ blocked, entry.address ≠ ip) ∨
    (args.reasons ≠ [] ∧ ∀ entry ∈ blocked, entry.reason ∉ args.reasons)

/-- The selectors go together. -/
def Coherent : Prop :=
  (args.all = true → args.ips = [] ∧ args.reasons = []) ∧
    (args.all = false → args.ips ≠ [] ∨ args.reasons ≠ [])

/-- What is reported as cleared is cleared. -/
structure Right : Prop where
  sent : ∀ listing, server.blocked = .ok listing → ∀ ids, (runClear args server).sent = some ids →
    ∀ id, id ∈ ids ↔ ∃ entry ∈ listing.entries, Selected args entry ∧ entry.id = id
  nothing : ∀ listing, server.blocked = .ok listing → NamesNothing args listing.entries →
    (runClear args server).sent = none ∧ (runClear args server).exit ≠ 0
  cleared : ∀ listing, server.blocked = .ok listing → ∀ ids, (runClear args server).sent = some ids →
    ((runClear args server).exit = 0 ∨ ∃ n, ClearLine.cleared n ∈ (runClear args server).lines) →
      (∀ entry ∈ listing.entries, Selected args entry → entry.id ∈ server.destroyed ids) ∧
      (∀ n, ClearLine.cleared n ∈ (runClear args server).lines →
        n = (listing.entries.filter fun entry => Selected args entry).length) ∧
      server.reloads = true

/-- A choice that comes to a set call. -/
structure Clears : Prop where
  act : args.listOnly = false
  some : blocked ≠ []
  coherent : Coherent args
  named : ¬ NamesNothing args blocked

/-- When a run is right. -/
structure ClearsRightly : Prop where
  found : ∀ listing, server.blocked = .ok listing → NamesNothing args listing.entries →
    listing.entries ≠ [] ∧ args.listOnly = false
  single : ∀ listing, server.blocked = .ok listing → Clears args listing.entries →
    ∀ front entry rest, listing.entries = front ++ entry :: rest → entry.address ∈ args.ips →
      (∃ other ∈ rest, other.address = entry.address) → entry.reason ∈ args.reasons
  answered : ∀ listing, server.blocked = .ok listing → Clears args listing.entries →
    server.set = none → server.reload = none →
      (∀ entry ∈ listing.entries, Selected args entry →
        entry.id ∈ server.later ∧ server.refuses entry.id = false) ∧ server.reloads = true

end Statements

section Selection

variable {args : ClearArgs} {server : BlockServer} {blocked : List BlockedEntry} {ip id : Str}
  {ids : List Str} {listing : Listing}

theorem idAt_eq_none : idAt blocked ip = none ↔ ∀ entry ∈ blocked, entry.address ≠ ip := by
  rw [idAt, Option.map_eq_none_iff, List.find?_eq_none]
  simp only [List.mem_reverse, decide_eq_true_eq]

theorem idAt_eq_some : idAt blocked ip = some id ↔ ∃ front entry rest,
    blocked = front ++ entry :: rest ∧ entry.address = ip ∧ entry.id = id ∧
      ∀ other ∈ rest, other.address ≠ ip := by
  rw [idAt, Option.map_eq_some_iff]
  constructor
  · rintro ⟨entry, hfind, rfl⟩
    obtain ⟨haddress, rest, front, hsplit, hrest⟩ := List.find?_eq_some_iff_append.mp hfind
    refine ⟨front.reverse, entry, rest.reverse, ?_, by simpa using haddress, rfl, ?_⟩
    · have hreverse := congrArg List.reverse hsplit
      simpa using hreverse
    · intro other hother
      simpa using hrest other (List.mem_reverse.mp hother)
  · rintro ⟨front, entry, rest, rfl, rfl, rfl, hrest⟩
    refine ⟨entry, List.find?_eq_some_iff_append.mpr
      ⟨by simp, rest.reverse, front.reverse, by simp, fun other hother => ?_⟩, rfl⟩
    simpa using hrest other (List.mem_reverse.mp hother)

theorem select_ok_iff :
    (∃ ids, selectIdsToClear blocked args.ips args.reasons args.all = .ok ids) ↔
      Coherent args ∧ ¬ NamesNothing args blocked := by
  obtain ⟨listOnly, ips, reasons, all⟩ := args
  dsimp only [Coherent, NamesNothing]
  rw [selectIdsToClear]
  cases all with
  | true =>
      by_cases hboth : ips ≠ [] ∨ reasons ≠ []
      · rw [if_pos ⟨rfl, hboth⟩]
        constructor
        · rintro ⟨ids, hids⟩
          cases hids
        · rintro ⟨⟨hall, -⟩, -⟩
          obtain ⟨hips, hreasons⟩ := hall rfl
          exact absurd hboth (by simp [hips, hreasons])
      · rw [not_or, not_not, not_not] at hboth
        obtain ⟨rfl, rfl⟩ := hboth
        simp
  | false =>
      by_cases hnone : ips = [] ∧ reasons = []
      · rw [if_neg (by simp), if_pos ⟨rfl, hnone⟩]
        constructor
        · rintro ⟨ids, hids⟩
          cases hids
        · rintro ⟨⟨-, hsome⟩, -⟩
          exact absurd (hsome rfl) (by simp [hnone.1, hnone.2])
      · rw [if_neg (by simp), if_neg (by simpa using hnone), if_neg (by simp)]
        dsimp only
        have hmissing : (ips.filter fun ip => (idAt blocked ip).isNone) = [] ↔
            ¬ ∃ ip ∈ ips, ∀ entry ∈ blocked, entry.address ≠ ip := by
          rw [List.filter_eq_nil_iff]
          simp only [Option.isNone_iff_eq_none, idAt_eq_none, not_exists, not_and]
        have hreason : ((blocked.filter fun entry => entry.reason ∈ reasons).map
            BlockedEntry.id) = [] ↔ ∀ entry ∈ blocked, entry.reason ∉ reasons := by
          rw [List.map_eq_nil_iff, List.filter_eq_nil_iff]
          simp only [decide_eq_true_eq]
        have hcoherent : ips ≠ [] ∨ reasons ≠ [] := by
          by_contra hbad
          rw [not_or, not_not, not_not] at hbad
          exact hnone hbad
        simp only [ne_eq, hmissing, hreason]
        by_cases hip : ∃ ip ∈ ips, ∀ entry ∈ blocked, entry.address ≠ ip
        · rw [if_pos (not_not.mpr hip)]
          constructor
          · rintro ⟨ids, hids⟩
            cases hids
          · rintro ⟨-, hnot⟩
            exact absurd (Or.inl hip) hnot
        · rw [if_neg (not_not.mpr hip)]
          by_cases hwhy : ¬ reasons = [] ∧ ∀ entry ∈ blocked, entry.reason ∉ reasons
          · rw [if_pos hwhy]
            constructor
            · rintro ⟨ids, hids⟩
              cases hids
            · rintro ⟨-, hnot⟩
              exact absurd (Or.inr hwhy) hnot
          · rw [if_neg hwhy]
            refine ⟨fun _ => ⟨⟨fun h => (by cases h), fun _ => hcoherent⟩, ?_⟩, fun _ => ⟨_, rfl⟩⟩
            rintro (hbad | hbad)
            · exact hip hbad
            · exact hwhy hbad

theorem mem_select (h : selectIdsToClear blocked args.ips args.reasons args.all = .ok ids) :
    id ∈ ids ↔ (args.all = true ∧ id ∈ blocked.map BlockedEntry.id) ∨
      (args.all = false ∧ ((∃ ip ∈ args.ips, idAt blocked ip = some id) ∨
        ∃ entry ∈ blocked, entry.reason ∈ args.reasons ∧ entry.id = id)) := by
  obtain ⟨listOnly, ips, reasons, all⟩ := args
  dsimp only at h ⊢
  rw [selectIdsToClear] at h
  cases all with
  | true =>
      split_ifs at h with hboth hnone hall
      · cases h
        simp
      · exact absurd rfl hall
  | false =>
      have hboth : ¬ (false = true ∧ (ips ≠ [] ∨ reasons ≠ [])) := by simp
      rw [if_neg hboth] at h
      by_cases hnone : false = false ∧ ips = [] ∧ reasons = []
      · rw [if_pos hnone] at h
        cases h
      · rw [if_neg hnone, if_neg Bool.false_ne_true] at h
        dsimp only at h
        split_ifs at h with hmissing hreason
        cases h
        rw [List.mem_dedup, List.mem_append, List.mem_filterMap]
        simp [and_assoc]

theorem nodup_select (hnodup : (blocked.map BlockedEntry.id).Nodup)
    (h : selectIdsToClear blocked args.ips args.reasons args.all = .ok ids) : ids.Nodup := by
  rw [selectIdsToClear] at h
  dsimp only at h
  split_ifs at h
  · cases h
    exact hnodup
  · cases h
    exact List.nodup_dedup _

/-- The ids that are sent are those of the selected entries, unless an address of `--ip` has an
earlier entry that no reason selects. -/
theorem sent_iff (h : selectIdsToClear blocked args.ips args.reasons args.all = .ok ids)
    (hnodup : (blocked.map BlockedEntry.id).Nodup) (hcoherent : Coherent args) :
    (∀ id, id ∈ ids ↔ ∃ entry ∈ blocked, Selected args entry ∧ entry.id = id) ↔
      ∀ front entry rest, blocked = front ++ entry :: rest → entry.address ∈ args.ips →
        (∃ other ∈ rest, other.address = entry.address) → entry.reason ∈ args.reasons := by
  have hunique : ∀ entry ∈ blocked, ∀ other ∈ blocked, entry.id = other.id → entry = other :=
    fun entry hentry other hother heq => List.inj_on_of_nodup_map hnodup hentry hother heq
  cases hall : args.all with
  | true =>
      obtain ⟨hips, -⟩ := hcoherent.1 hall
      constructor
      · intro _ front entry rest _ haddress
        rw [hips] at haddress
        cases haddress
      · intro _ id
        rw [mem_select h, hall]
        simp [Selected, hall]
  | false =>
      have hmem : ∀ id, id ∈ ids ↔ (∃ ip ∈ args.ips, idAt blocked ip = some id) ∨
          ∃ entry ∈ blocked, entry.reason ∈ args.reasons ∧ entry.id = id := by
        intro id
        rw [mem_select h, hall]
        simp
      have hselected : ∀ entry, Selected args entry ↔
          entry.address ∈ args.ips ∨ entry.reason ∈ args.reasons := by
        intro entry
        rw [Selected, hall]
        simp
      constructor
      · intro hsent front entry rest hsplit haddress ⟨other, hother, hsame⟩
        have hentry : entry ∈ blocked := by
          rw [hsplit]
          exact List.mem_append_right _ List.mem_cons_self
        have hid := (hsent entry.id).mpr ⟨entry, hentry, (hselected entry).mpr (Or.inl haddress), rfl⟩
        rcases (hmem entry.id).mp hid with ⟨ip, -, hat⟩ | ⟨found, hfound, hreason, hsameId⟩
        · -- the entry that counts is a later one
          obtain ⟨front', last, rest', hsplit', hip, hlast, hno⟩ := idAt_eq_some.mp hat
          have hmemLast : last ∈ blocked := by
            rw [hsplit']
            exact List.mem_append_right _ List.mem_cons_self
          have heq : last = entry := hunique last hmemLast entry hentry hlast
          subst heq
          have hpieces : front = front' ∧ rest = rest' := by
            have hid' : (front ++ last :: rest).map BlockedEntry.id =
                (front' ++ last :: rest').map BlockedEntry.id := by rw [← hsplit, ← hsplit']
            rw [hsplit] at hnodup hsplit'
            have hnotin : last ∉ front := by
              intro hbad
              rw [List.map_append, List.map_cons] at hnodup
              exact (List.disjoint_of_nodup_append hnodup) (List.mem_map_of_mem hbad)
                List.mem_cons_self
            have hnotin' : last ∉ front' := by
              intro hbad
              rw [hsplit', List.map_append, List.map_cons] at hnodup
              exact (List.disjoint_of_nodup_append hnodup) (List.mem_map_of_mem hbad)
                List.mem_cons_self
            have hfront : front = front' := by
              have htake := congrArg (List.takeWhile fun e => decide (e ≠ last)) hsplit'
              rw [List.takeWhile_append_of_pos, List.takeWhile_append_of_pos] at htake
              · simpa using htake
              · intro e he
                exact decide_eq_true fun hbad => hnotin' (hbad ▸ he)
              · intro e he
                exact decide_eq_true fun hbad => hnotin (hbad ▸ he)
            subst hfront
            exact ⟨rfl, (List.cons.inj (List.append_cancel_left hsplit')).2⟩
          exact absurd (hsame.trans hip) (hno other (hpieces.2 ▸ hother))
        · exact hunique found hfound entry hentry hsameId ▸ hreason
      · intro hsingle id
        rw [hmem]
        constructor
        · rintro (⟨ip, hip, hat⟩ | ⟨entry, hentry, hreason, hid⟩)
          · obtain ⟨front, entry, rest, hsplit, haddress, hid, -⟩ := idAt_eq_some.mp hat
            refine ⟨entry, ?_, (hselected entry).mpr (Or.inl (haddress ▸ hip)), hid⟩
            rw [hsplit]
            exact List.mem_append_right _ List.mem_cons_self
          · exact ⟨entry, hentry, (hselected entry).mpr (Or.inr hreason), hid⟩
        · rintro ⟨entry, hentry, hsel, rfl⟩
          rcases (hselected entry).mp hsel with haddress | hreason
          · obtain ⟨front, rest, hsplit⟩ := List.append_of_mem hentry
            by_cases hlater : ∃ other ∈ rest, other.address = entry.address
            · exact Or.inr ⟨entry, hentry, hsingle front entry rest hsplit haddress hlater, rfl⟩
            · refine Or.inl ⟨entry.address, haddress, idAt_eq_some.mpr
                ⟨front, entry, rest, hsplit, rfl, rfl, fun other hother hsame => ?_⟩⟩
              exact hlater ⟨other, hother, hsame⟩
          · exact Or.inr ⟨entry, hentry, hreason, rfl⟩

theorem length_of_sent (hnodup : (blocked.map BlockedEntry.id).Nodup) (hids : ids.Nodup)
    (h : ∀ id, id ∈ ids ↔ ∃ entry ∈ blocked, Selected args entry ∧ entry.id = id) :
    ids.length = (blocked.filter fun entry => Selected args entry).length := by
  have hfilter : ((blocked.filter fun entry => Selected args entry).map BlockedEntry.id).Nodup :=
    hnodup.sublist (List.filter_sublist.map _)
  have hperm := (List.perm_ext_iff_of_nodup hids hfilter).mpr fun id => by
    rw [h, List.mem_map]
    simp only [List.mem_filter, decide_eq_true_eq, and_assoc]
  rw [hperm.length_eq, List.length_map]

end Selection

section Runs

variable {args : ClearArgs} {server : BlockServer} {ids : List Str} {listing : Listing}

theorem runClear_sends (hlisted : server.blocked = .ok listing)
    (hclears : Clears args listing.entries) : ∃ ids,
      selectIdsToClear listing.entries args.ips args.reasons args.all = .ok ids ∧
        runClear args server = clear server (listing.entries.map ClearLine.entry) ids := by
  obtain ⟨ids, hids⟩ := select_ok_iff.mpr ⟨hclears.coherent, hclears.named⟩
  refine ⟨ids, hids, ?_⟩
  rw [runClear, hlisted]
  dsimp only
  rw [if_neg hclears.some, hclears.act, if_neg Bool.false_ne_true, hids]

theorem sent_clear (lines : List ClearLine) : (clear server lines ids).sent = some ids := by
  rw [clear]
  cases server.set with
  | some failure => cases failure <;> rfl
  | none =>
      cases server.reload with
      | some failure => cases failure <;> rfl
      | none => rfl

theorem clears_of_sent (hlisted : server.blocked = .ok listing)
    (h : (runClear args server).sent = some ids) : Clears args listing.entries ∧
      selectIdsToClear listing.entries args.ips args.reasons args.all = .ok ids := by
  rw [runClear, hlisted] at h
  dsimp only at h
  by_cases hempty : listing.entries = []
  · rw [if_pos hempty] at h
    cases h
  rw [if_neg hempty] at h
  by_cases hlist : args.listOnly = true
  · rw [if_pos hlist] at h
    cases h
  · rw [if_neg hlist] at h
    cases hselect : selectIdsToClear listing.entries args.ips args.reasons args.all with
    | error message =>
        rw [hselect] at h
        cases h
    | ok found =>
        rw [hselect] at h
        dsimp only at h
        rw [sent_clear] at h
        cases h
        obtain ⟨hcoherent, hnamed⟩ := select_ok_iff.mp ⟨ids, hselect⟩
        exact ⟨⟨by simpa using hlist, hempty, hcoherent, hnamed⟩, rfl⟩

theorem cleared_not_mem (lines : List BlockedEntry) (n : Nat) :
    ClearLine.cleared n ∉ lines.map ClearLine.entry := by
  intro hmem
  obtain ⟨entry, -, heq⟩ := List.mem_map.mp hmem
  cases heq

theorem answered_of_cleared (lines : List BlockedEntry)
    (h : (clear server (lines.map ClearLine.entry) ids).exit = 0 ∨
      ∃ n, ClearLine.cleared n ∈ (clear server (lines.map ClearLine.entry) ids).lines) :
    server.set = none ∧ server.reload = none := by
  have hfault : ∀ last, (∀ n, last ≠ ClearLine.cleared n) → ∀ n,
      ClearLine.cleared n ∉ lines.map ClearLine.entry ++ [last] := by
    intro last hlast n hmem
    rcases List.mem_append.mp hmem with hmem | hmem
    · exact cleared_not_mem lines n hmem
    · exact hlast n (List.mem_singleton.mp hmem).symm
  rw [clear] at h
  cases hset : server.set with
  | some failure =>
      rw [hset] at h
      cases failure with
      | _ =>
          rcases h with h | ⟨n, hn⟩
          · cases h
          · exact absurd hn (hfault _ (fun n hbad => by cases hbad) n)
  | none =>
      rw [hset] at h
      cases hreload : server.reload with
      | some failure =>
          rw [hreload] at h
          cases failure with
          | _ =>
              rcases h with h | ⟨n, hn⟩
              · cases h
              · exact absurd hn (hfault _ (fun n hbad => by cases hbad) n)
      | none => exact ⟨rfl, rfl⟩

theorem clear_answered (lines : List ClearLine) (hset : server.set = none)
    (hreload : server.reload = none) :
    clear server lines ids = ⟨some ids, lines ++ [.cleared ids.length], 0⟩ := by
  rw [clear, hset, hreload]

theorem mem_destroyed {id : Str} : id ∈ server.destroyed ids ↔
    id ∈ ids ∧ id ∈ server.later ∧ server.refuses id = false := by
  rw [BlockServer.destroyed, List.mem_filter, Bool.and_eq_true, decide_eq_true_eq,
    Bool.not_eq_true']

end Runs

/-- A run is right just when an address of `--ip` has one entry to clear, the server destroys what
it is sent and reloads, and a choice that names nothing is seen. -/
theorem right_iff (args : ClearArgs) (server : BlockServer) :
    Right args server ↔ ClearsRightly args server := by
  constructor
  · intro h
    refine ⟨fun listing hlisted hnothing => ?_, fun listing hlisted hclears => ?_,
      fun listing hlisted hclears hset hreload => ?_⟩
    · obtain ⟨-, hexit⟩ := h.nothing listing hlisted hnothing
      rw [runClear, hlisted] at hexit
      dsimp only at hexit
      split_ifs at hexit with hempty hlist
      · exact absurd rfl hexit
      · exact absurd rfl hexit
      · exact ⟨hempty, by simpa using hlist⟩
    · obtain ⟨ids, hselect, hrun⟩ := runClear_sends hlisted hclears
      have hsent : (runClear args server).sent = some ids := by rw [hrun, sent_clear]
      exact (sent_iff hselect listing.nodup hclears.coherent).mp (h.sent listing hlisted ids hsent)
    · obtain ⟨ids, hselect, hrun⟩ := runClear_sends hlisted hclears
      have hsent : (runClear args server).sent = some ids := by rw [hrun, sent_clear]
      have hexit : (runClear args server).exit = 0 := by rw [hrun, clear_answered _ hset hreload]
      obtain ⟨hdestroyed, -, hreloads⟩ := h.cleared listing hlisted ids hsent (Or.inl hexit)
      refine ⟨fun entry hentry hselected => ?_, hreloads⟩
      exact (mem_destroyed.mp (hdestroyed entry hentry hselected)).2
  · intro h
    refine ⟨fun listing hlisted ids hsent => ?_, fun listing hlisted hnothing => ?_,
      fun listing hlisted ids hsent hdone => ?_⟩
    · obtain ⟨hclears, hselect⟩ := clears_of_sent hlisted hsent
      exact (sent_iff hselect listing.nodup hclears.coherent).mpr (h.single listing hlisted hclears)
    · obtain ⟨hsome, hlist⟩ := h.found listing hlisted hnothing
      have hrefused : ∃ message,
          selectIdsToClear listing.entries args.ips args.reasons args.all = .error message := by
        cases hselect : selectIdsToClear listing.entries args.ips args.reasons args.all with
        | error message => exact ⟨message, rfl⟩
        | ok ids => exact absurd hnothing (select_ok_iff.mp ⟨ids, hselect⟩).2
      obtain ⟨message, hmessage⟩ := hrefused
      rw [runClear, hlisted]
      dsimp only
      rw [if_neg hsome, hlist, if_neg Bool.false_ne_true, hmessage]
      exact ⟨rfl, Nat.one_ne_zero⟩
    · obtain ⟨hclears, hselect⟩ := clears_of_sent hlisted hsent
      obtain ⟨ids', hselect', hrun⟩ := runClear_sends hlisted hclears
      obtain rfl : ids = ids' := Except.ok.inj (hselect.symm.trans hselect')
      rw [hrun] at hdone ⊢
      obtain ⟨hset, hreload⟩ := answered_of_cleared _ hdone
      obtain ⟨hdestroys, hreloads⟩ := h.answered listing hlisted hclears hset hreload
      have hids := (sent_iff hselect listing.nodup hclears.coherent).mpr
        (h.single listing hlisted hclears)
      refine ⟨fun entry hentry hselected => ?_, fun n hn => ?_, hreloads⟩
      · have hid := (hids entry.id).mpr ⟨entry, hentry, hselected, rfl⟩
        exact mem_destroyed.mpr ⟨hid, hdestroys entry hentry hselected⟩
      · rw [clear_answered _ hset hreload] at hn
        rcases List.mem_append.mp hn with hn | hn
        · exact absurd hn (cleared_not_mem _ n)
        · cases List.mem_singleton.mp hn
          exact length_of_sent listing.nodup (nodup_select listing.nodup hselect) hids

/-- Two entries of one address, of which the script clears the second. -/
def twiceBlocked : Listing where
  entries := [⟨"b1".toList, "198.51.100.7".toList, "portScanning".toList, "t1".toList⟩,
    ⟨"b2".toList, "198.51.100.7".toList, "abuseDetected".toList, "t2".toList⟩]
  nodup := by decide

/-- A server that destroys nothing that it is asked to destroy. -/
def refusingServer : BlockServer where
  credentials := none
  listed := .ok twiceBlocked
  later := ["b1".toList, "b2".toList]
  refuses _ := true
  set := none
  reload := none
  reloads := true

/-- The clear of one address leaves an entry of it, and reports an entry that is still there. -/
theorem cleared_is_not_cleared :
    ¬ Right ⟨false, ["198.51.100.7".toList], [], false⟩ refusingServer ∧
      (runClear ⟨false, ["198.51.100.7".toList], [], false⟩ refusingServer).exit = 0 ∧
      refusingServer.destroyed ["b2".toList] = [] := by
  refine ⟨fun h => ?_, by decide +kernel, by decide +kernel⟩
  have hsent : (runClear ⟨false, ["198.51.100.7".toList], [], false⟩ refusingServer).sent =
      some ["b2".toList] := by decide +kernel
  have hfirst := (h.sent twiceBlocked rfl _ hsent "b1".toList).mpr
    ⟨_, List.mem_cons_self, Or.inr (Or.inl List.mem_cons_self), rfl⟩
  revert hfirst
  decide

end SharedInfra.MailAdmin
