import SharedInfra.Dnsbl.Check
import SharedInfra.Dnsbl.LookupSafety

/-!
# What a quiet check proves

`main` exits 0 exactly where every zone seems to be clear (`main_eq_zero_iff`): the
response for the sentinel is accepted with an address, the one for the target without.
It is clear (`Clear`) where these responses are well formed.
-/

namespace SharedInfra.Dnsbl

open Python Dns Effects

def ipOf (ip : Str) : Asked → Str
  | .sentinel => sentinelListedIp
  | .target => ip

structure Responds (run : CheckRun) (ip : Str) (spec : DnsblSpec) (asked : Asked) (payload : Bytes)
    (host : HostName) : Prop where
  name : buildQueryName (ipOf ip asked) spec.zone = some host.name
  reply : (run.lookups spec asked).reply = .ok payload

structure Clear (run : CheckRun) (ip : Str) (spec : DnsblSpec) : Prop where
  sentinel : ∃ payload host addresses, Responds run ip spec .sentinel payload host ∧
    Lists payload (run.lookups spec .sentinel).id host.name addresses ∧
    ∃ address ∈ addresses, startsWith address queryErrorPrefix = false
  target : ∃ payload host, Responds run ip spec .target payload host ∧
    ProofOfAbsence payload (run.lookups spec .target).id host.name

/-- `main` exits 0 only from a check in which every zone is clear. -/
def MainMeets (run : CheckRun) : Prop :=
  main run = 0 → run.status = false ∧
    ∃ ip, run.target = some ip ∧ ∀ spec ∈ dnsbls, Clear run ip spec

structure SeemsClear (run : CheckRun) (ip : Str) (spec : DnsblSpec) : Prop where
  sentinel : ∃ payload host addresses, Responds run ip spec .sentinel payload host ∧
    Accepted payload (run.lookups spec .sentinel).id host.name addresses ∧
    ∃ address ∈ addresses, startsWith address queryErrorPrefix = false
  target : ∃ payload host, Responds run ip spec .target payload host ∧
    Accepted payload (run.lookups spec .target).id host.name []

/-- Nothing fails in the run, and every zone seems to be clear. -/
structure Quiet (run : CheckRun) : Prop where
  target : ∃ ip, run.target = some ip ∧ ∀ spec ∈ dnsbls, SeemsClear run ip spec
  previousState : run.previousState.isSome
  saves : run.saves = true

section Verdicts

variable {outcome sentinel target : ResolutionOutcome} {spec : DnsblSpec}

theorem classifyOutcome_listed_iff : classifyOutcome outcome = .listed ↔
    outcome.ok = true ∧ ∃ address ∈ outcome.addresses,
      startsWith address queryErrorPrefix = false := by
  rw [classifyOutcome]
  cases hok : outcome.ok with
  | false => exact ⟨nofun, fun h => absurd h.1 Bool.false_ne_true⟩
  | true =>
    rw [if_neg (by decide)]
    split_ifs with hnil hall
    · refine ⟨nofun, fun ⟨_, address, haddress, _⟩ => ?_⟩
      rw [hnil] at haddress
      cases haddress
    · refine ⟨nofun, fun ⟨_, address, haddress, hbegins⟩ => ?_⟩
      rw [List.all_eq_true.mp hall address haddress] at hbegins
      cases hbegins
    · obtain ⟨address, haddress, hbegins⟩ := List.all_eq_false.mp (Bool.not_eq_true _ ▸ hall)
      exact ⟨fun _ => ⟨rfl, address, haddress, by simpa using hbegins⟩, fun _ => rfl⟩

theorem classifyOutcome_notListed_iff : classifyOutcome outcome = .notListed ↔
    outcome.ok = true ∧ outcome.addresses = [] := by
  rw [classifyOutcome]
  cases hok : outcome.ok with
  | false => exact ⟨nofun, fun h => absurd h.1 Bool.false_ne_true⟩
  | true =>
    rw [if_neg (by decide)]
    split_ifs with hnil hall
    · exact ⟨fun _ => ⟨rfl, hnil⟩, fun _ => rfl⟩
    · exact ⟨nofun, fun h => absurd h.2 hnil⟩
    · exact ⟨nofun, fun h => absurd h.2 hnil⟩

theorem evaluateDnsbl_notListed_iff :
    (evaluateDnsbl spec sentinel target).verdict = .notListed ↔
      classifyOutcome sentinel = .listed ∧ classifyOutcome target = .notListed := by
  rw [evaluateDnsbl]
  dsimp only
  split_ifs with hsentinel hquery hfailed
  · exact ⟨nofun, fun h => absurd h.1 hsentinel⟩
  · exact ⟨nofun, fun h => by rw [hquery] at h; cases h.2⟩
  · exact ⟨nofun, fun h => by rw [hfailed] at h; cases h.2⟩
  · exact ⟨fun h => ⟨not_ne_iff.mp hsentinel, h⟩, fun h => h.2⟩

theorem alertOf_eq_none_iff {previousState : List (Str × Str)} {result : CheckResult} :
    alertOf previousState result = none ↔ result.verdict = .notListed := by
  rw [alertOf]
  cases result.verdict <;> simp [actionableVerdicts]

end Verdicts

section Runs

variable {run : CheckRun} {ip : Str} {spec : DnsblSpec} {asked : Asked} {addresses : List Str}

theorem buildQuery_isSome {hostname : Str} {id : Nat} :
    (buildQuery hostname id).isSome = (encodeName hostname).isSome := by
  rw [buildQuery, Option.isSome_map]

theorem lookUp_ok_iff : (∃ outcome, lookUp (ipOf ip asked) spec.zone (run.lookups spec asked) =
      .ok outcome ∧ outcome.ok = true ∧ outcome.addresses = addresses) ↔
    ∃ payload host, Responds run ip spec asked payload host ∧
      Accepted payload (run.lookups spec asked).id host.name addresses := by
  rw [lookUp]
  constructor
  · rintro ⟨outcome, houtcome, hok, rfl⟩
    cases hname : buildQueryName (ipOf ip asked) spec.zone with
    | none =>
      rw [hname] at houtcome
      cases houtcome
    | some name =>
      rw [hname] at houtcome
      dsimp only at houtcome
      rw [resolveARecords] at houtcome
      cases hquery : buildQuery name (run.lookups spec asked).id with
      | none =>
        rw [hquery] at houtcome
        cases houtcome
        cases hok
      | some query =>
        rw [hquery] at houtcome
        dsimp only at houtcome
        cases hreply : (run.lookups spec asked).reply with
        | error text =>
          rw [hreply] at houtcome
          cases houtcome
          cases hok
        | ok payload =>
          rw [hreply] at houtcome
          have hencodable : (encodeName name).isSome := by
            rw [← buildQuery_isSome, hquery]
            rfl
          obtain ⟨outcome', hparse⟩ :=
            parseResponse_total payload (run.lookups spec asked).id name
          dsimp only at houtcome
          rw [hparse] at houtcome
          cases houtcome
          exact ⟨payload, ⟨name, hencodable⟩, ⟨hname, hreply⟩,
            parseResponse_ok_iff.mp ⟨outcome, hparse, hok, rfl⟩⟩
  · rintro ⟨payload, host, hresponds, haccepted⟩
    obtain ⟨outcome, hparse, hok, haddresses⟩ := parseResponse_ok_iff.mpr haccepted
    refine ⟨outcome, ?_, hok, haddresses⟩
    have hquery : (buildQuery host.name (run.lookups spec asked).id).isSome := by
      rw [buildQuery_isSome]
      exact host.encodable
    obtain ⟨query, hquery⟩ := Option.isSome_iff_exists.mp hquery
    rw [hresponds.name]
    dsimp only
    rw [resolveARecords, hquery]
    dsimp only
    rw [hresponds.reply]
    dsimp only
    rw [hparse]
    rfl

theorem checkZone_notListed_iff :
    (∃ result, checkZone run ip spec = .ok result ∧ result.verdict = .notListed) ↔
      SeemsClear run ip spec := by
  constructor
  · rintro ⟨result, hresult, hverdict⟩
    obtain ⟨sentinel, hsentinel, hresult⟩ := bind_eq_ok_iff.mp hresult
    obtain ⟨target, htarget, hresult⟩ := bind_eq_ok_iff.mp hresult
    cases hresult
    obtain ⟨hlisted, hnot⟩ := evaluateDnsbl_notListed_iff.mp hverdict
    obtain ⟨hok, address, haddress, hbegins⟩ := classifyOutcome_listed_iff.mp hlisted
    obtain ⟨hok', hnil⟩ := classifyOutcome_notListed_iff.mp hnot
    have hlookup : lookUp (ipOf ip .sentinel) spec.zone (run.lookups spec .sentinel) =
      .ok sentinel := hsentinel
    have hlookup' : lookUp (ipOf ip .target) spec.zone (run.lookups spec .target) =
      .ok target := htarget
    obtain ⟨payload, host, hresponds, haccepted⟩ := lookUp_ok_iff.mp ⟨sentinel, hlookup, hok, rfl⟩
    exact ⟨⟨payload, host, _, hresponds, haccepted, address, haddress, hbegins⟩,
      lookUp_ok_iff.mp ⟨target, hlookup', hok', hnil⟩⟩
  · rintro ⟨⟨payload, host, addresses, hresponds, haccepted, hlisted⟩, htarget⟩
    obtain ⟨sentinel, hsentinel, hok, rfl⟩ := lookUp_ok_iff.mpr ⟨payload, host, hresponds, haccepted⟩
    obtain ⟨target, htarget, hok', hnil⟩ := lookUp_ok_iff.mpr htarget
    refine ⟨_, bind_eq_ok_iff.mpr ⟨sentinel, hsentinel, bind_eq_ok_iff.mpr ⟨target, htarget, rfl⟩⟩,
      evaluateDnsbl_notListed_iff.mpr ⟨classifyOutcome_listed_iff.mpr ⟨hok, hlisted⟩,
        classifyOutcome_notListed_iff.mpr ⟨hok', hnil⟩⟩⟩

theorem runChecks_silent_iff {zones : List DnsblSpec} {previousState : List (Str × Str)} :
    (∃ state, runChecks run ip zones previousState = .ok (state, [])) ↔
      ∀ spec ∈ zones, SeemsClear run ip spec := by
  simp only [← checkZone_notListed_iff]
  constructor
  · rintro ⟨state, hchecks⟩
    obtain ⟨results, hresults, halerts⟩ := bind_eq_ok_iff.mp hchecks
    have hnone : results.filterMap (alertOf previousState) = [] :=
      congrArg Prod.snd (Except.ok.inj halerts)
    clear hchecks halerts
    rw [mapM_eq_ok_iff] at hresults
    induction hresults with
    | nil => nofun
    | @cons spec result zones results hzone _ ih =>
      rw [List.filterMap_eq_nil_iff, List.forall_mem_cons, ← List.filterMap_eq_nil_iff] at hnone
      exact List.forall_mem_cons.mpr
        ⟨⟨result, hzone, alertOf_eq_none_iff.mp hnone.1⟩, ih hnone.2⟩
  · intro hzones
    obtain ⟨results, hresults, hverdicts⟩ : ∃ results,
        List.Forall₂ (fun spec result => checkZone run ip spec = .ok result) zones results ∧
          ∀ result ∈ results, result.verdict = .notListed := by
      induction zones with
      | nil => exact ⟨[], .nil, nofun⟩
      | cons spec zones ih =>
        obtain ⟨⟨result, hzone, hverdict⟩, hzones⟩ := List.forall_mem_cons.mp hzones
        obtain ⟨results, hresults, hverdicts⟩ := ih hzones
        exact ⟨result :: results, .cons hzone hresults, List.forall_mem_cons.mpr ⟨hverdict, hverdicts⟩⟩
    refine ⟨_, bind_eq_ok_iff.mpr ⟨results, mapM_eq_ok_iff.mpr hresults,
      congrArg Except.ok (Prod.ext rfl ?_)⟩⟩
    exact List.filterMap_eq_nil_iff.mpr fun result hresult =>
      alertOf_eq_none_iff.mpr (hverdicts result hresult)

theorem main_eq_zero_iff : main run = 0 ↔ run.status = true ∨ Quiet run := by
  rw [main]
  cases hstatus : run.status with
  | true => exact ⟨fun _ => .inl rfl, fun _ => rfl⟩
  | false =>
    rw [if_neg Bool.false_ne_true]
    have hquiet : (false = true ∨ Quiet run) ↔ Quiet run := or_iff_right Bool.false_ne_true
    rw [hquiet]
    constructor
    · intro hzero
      cases htarget : run.target with
      | none => rw [htarget] at hzero; cases hzero
      | some ip =>
        cases hprevious : run.previousState with
        | none => rw [htarget, hprevious] at hzero; cases hzero
        | some previousState =>
          rw [htarget, hprevious] at hzero
          dsimp only at hzero
          cases hchecks : runChecks run ip dnsbls previousState with
          | error e => rw [hchecks] at hzero; cases hzero
          | ok checked =>
            obtain ⟨state, alerts⟩ := checked
            rw [hchecks] at hzero
            dsimp only at hzero
            split_ifs at hzero with hsaves hempty
            · cases List.isEmpty_iff.mp hempty
              exact ⟨⟨ip, htarget, runChecks_silent_iff.mp ⟨state, hchecks⟩⟩,
                by rw [hprevious]; rfl, by simpa using hsaves⟩
    · rintro ⟨⟨ip, htarget, hzones⟩, hprevious, hsaves⟩
      obtain ⟨previousState, hprevious⟩ := Option.isSome_iff_exists.mp hprevious
      obtain ⟨state, hchecks⟩ := runChecks_silent_iff.mpr hzones
      rw [htarget, hprevious]
      dsimp only
      rw [hchecks]
      dsimp only
      rw [hsaves]
      rfl

theorem SeemsClear.clear (h : SeemsClear run ip spec)
    (hwell : ∀ asked payload, (run.lookups spec asked).reply = .ok payload → WellFormed payload) :
    Clear run ip spec := by
  obtain ⟨payload, host, addresses, hresponds, haccepted, address, haddress, hbegins⟩ := h.sentinel
  obtain ⟨payload', host', hresponds', haccepted'⟩ := h.target
  obtain ⟨outcome, houtcome, hproved⟩ :=
    (meetsLookup_iff payload _ host).mpr fun _ => hwell .sentinel payload hresponds.reply
  obtain ⟨outcome', houtcome', hproved'⟩ :=
    (meetsLookup_iff payload' _ host').mpr fun _ => hwell .target payload' hresponds'.reply
  obtain ⟨_, hsame, hok, rfl⟩ := parseResponse_ok_iff.mpr haccepted
  cases houtcome.symm.trans hsame
  obtain ⟨_, hsame', hok', hnil⟩ := parseResponse_ok_iff.mpr haccepted'
  cases houtcome'.symm.trans hsame'
  have hlists := hproved hok
  rw [if_neg (List.ne_nil_of_mem haddress)] at hlists
  have habsent := hproved' hok'
  rw [if_pos hnil] at habsent
  exact ⟨⟨payload, host, _, hresponds, hlists, address, haddress, hbegins⟩,
    payload', host', hresponds', habsent⟩

theorem Clear.wellFormed (h : Clear run ip spec) :
    ∀ asked payload, (run.lookups spec asked).reply = .ok payload → WellFormed payload := by
  obtain ⟨payload, host, addresses, hresponds, hlists, address, haddress, -⟩ := h.sentinel
  obtain ⟨payload', host', hresponds', habsent⟩ := h.target
  intro asked found hfound
  cases asked with
  | sentinel =>
    cases hresponds.reply.symm.trans hfound
    exact hlists.wellFormed haddress
  | target =>
    cases hresponds'.reply.symm.trans hfound
    exact habsent.wellFormed

theorem mainMeets_iff (run : CheckRun) : MainMeets run ↔ run.status = false ∧ (Quiet run →
    ∀ spec ∈ dnsbls, ∀ asked payload, (run.lookups spec asked).reply = .ok payload →
      WellFormed payload) := by
  constructor
  · intro hmeets
    cases hstatus : run.status with
    | true =>
      have hfalse := (hmeets (main_eq_zero_iff.mpr (.inl hstatus))).1
      rw [hstatus] at hfalse
      cases hfalse
    | false =>
      refine ⟨rfl, fun hquiet spec hspec => ?_⟩
      obtain ⟨-, ip, -, hclear⟩ := hmeets (main_eq_zero_iff.mpr (.inr hquiet))
      exact (hclear spec hspec).wellFormed
  · rintro ⟨hstatus, hwell⟩ hzero
    rcases main_eq_zero_iff.mp hzero with htrue | hquiet
    · rw [hstatus] at htrue
      cases htrue
    · obtain ⟨ip, htarget, hseems⟩ := hquiet.target
      exact ⟨hstatus, ip, htarget, fun spec hspec => (hseems spec hspec).clear (hwell hquiet spec hspec)⟩

end Runs

/-- A lookup proves what it returns exactly where a response that is accepted is well formed, and a
check that exits 0 proves every zone clear exactly where it is no `--status` run and, if every zone
seems to be clear, the responses are well formed. -/
theorem lookups_proved_iff (payload : Bytes) (queryId : Nat) (host : HostName) (run : CheckRun) :
    (MeetsLookup payload queryId host.name ↔
      ((∃ addresses, Accepted payload queryId host.name addresses) → WellFormed payload)) ∧
      (MainMeets run ↔ run.status = false ∧ (Quiet run →
        ∀ spec ∈ dnsbls, ∀ asked payload, (run.lookups spec asked).reply = .ok payload →
          WellFormed payload)) :=
  ⟨meetsLookup_iff payload queryId host, mainMeets_iff run⟩

/-- An NXDOMAIN response with no question at all. -/
theorem questionless_response_accepted :
    ¬ MeetsLookup [0x12, 0x34, 0x81, 0x83, 0, 0, 0, 0, 0, 0, 0, 0] 0x1234
      "2.0.0.127.bl.spamcop.net" := by
  have hencodable : (encodeName "2.0.0.127.bl.spamcop.net").isSome := by decide
  intro hmeets
  have hwell := (meetsLookup_iff _ _ ⟨_, hencodable⟩).mp hmeets ⟨[], by decide, by decide, by decide,
    [], 12, .nil, fun h => absurd rfl h, .inl ⟨by decide, rfl⟩⟩
  exact absurd hwell.questions (by decide)

end SharedInfra.Dnsbl
