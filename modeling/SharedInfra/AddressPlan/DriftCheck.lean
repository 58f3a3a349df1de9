import SharedInfra.AddressPlan.Literals
import SharedInfra.Effects.Moves
import SharedInfra.Sequences.Backtrack
import SharedInfra.Sequences.FirstMatch

/-!
# The drift gate of the address plan

`check-address-plan-drift.py`: the plan's values are read out of `addressPlan.ts`, and five kinds of
literals in three files are compared with them.  A check that reports nothing has found a literal of
each kind, and every one that lies in the network is a value of the plan; which of the plan's values
it is, is not looked at (`check_agrees`, `swapped_host_passes`).
-/

namespace SharedInfra.AddressPlan

open Effects Python Sequences Matcher

section Plan

/-- `.*?` under `re.S`: as few characters as possible. -/
def lazyAny : Matcher Char Str := fun s => (List.range (s.length + 1)).map fun n =>
  (s.take n, s.drop n)

/-- What `re.search` matches. -/
def search {β : Type} (m : Matcher Char β) (text : Str) : Option β :=
  text.tails.findSome? fun s => (m s).head?.map Prod.fst

/-- What `re.findall` matches, a number of characters passed over. -/
def matches_ {β : Type} (m : Matcher Char β) : Nat → Str → List β
  | _, [] => []
  | skip + 1, _ :: rest => matches_ m skip rest
  | 0, c :: rest =>
    match (m (c :: rest)).head? with
    | some (b, left) => b :: matches_ m (rest.length - left.length) rest
    | none => matches_ m 0 rest

/-- `re.sub("", text)`, a number of characters passed over. -/
def remove (m : Matcher Char Unit) : Nat → Str → Str
  | _, [] => []
  | skip + 1, _ :: rest => remove m skip rest
  | 0, c :: rest =>
    match (m (c :: rest)).head? with
    | some (_, left) => remove m (rest.length - left.length) rest
    | none => c :: remove m 0 rest

def blockComment : Matcher Char Unit := do
  word "/*".toList
  let _ ← lazyAny
  word "*/".toList

def lineComment : Matcher Char Unit := do
  word "//".toList
  let _ ← star (· != '\n')
  pure ()

def stripComments (text : Str) : Str := remove lineComment 0 (remove blockComment 0 text)

/-- `'([^']+)'`. -/
def quoted : Matcher Char Str := do
  word ['\'']
  let value ← plus (· != '\'')
  word ['\'']
  pure value

/-- `_NETWORK_CIDR_RE` and `_SUBNET_CIDR_RE`. -/
def constantRe (name : Str) : Matcher Char Str := do
  word ("export const ".toList ++ name)
  let _ ← star isSpace
  word ['=']
  let _ ← star isSpace
  quoted

/-- The block of a constant that is an object. -/
def blockRe (name : Str) : Matcher Char Str := do
  word ("export const ".toList ++ name)
  let _ ← star isSpace
  word ['=']
  let _ ← star isSpace
  word ['\x7b']
  let body ← lazyAny
  word ['\x7d']
  let _ ← star isSpace
  word "as const".toList
  pure body

/-- `dict(...)`: of the entries under one key the last counts. -/
def lastEntries : List (Str × Str) → List (Str × Str)
  | [] => []
  | entry :: rest =>
    if rest.any fun other => other.1 = entry.1 then lastEntries rest
    else entry :: lastEntries rest

variable (words : WordTable)

/-- `_OBJECT_ENTRY_RE`. -/
def entryRe : Matcher Char (Str × Str) := do
  let key ← plus words.isWord
  let _ ← star isSpace
  word [':']
  let _ ← star isSpace
  let value ← quoted
  pure (key, value)

def objectBlock (name text : Str) : Option (List (Str × Str)) :=
  (search (blockRe name) text).map fun body => lastEntries (matches_ (entryRe words) 0 body)

/-- The plan; both hosts that the gate asks for are there. -/
structure Plan where
  networkCidr : Str
  subnetCidr : Str
  hostIps : List (Str × Str)
  appHostIps : List (Str × Str)
  edge1 : Str
  db1 : Str
deriving DecidableEq

def Plan.knownValues (plan : Plan) : List Str :=
  let hosts := (plan.hostIps ++ plan.appHostIps).map Prod.snd
  plan.networkCidr :: plan.subnetCidr :: hosts ++ hosts.map (· ++ "/32".toList)

/-- What a file gives: its text, or the text of an `OSError`. -/
abbrev Content := Except Str Str

def planPath : Str := "hetzner-host/addressPlan.ts"

/-- What was found; nothing at all is the `ValueError` with this text behind the path. -/
def orRaise {α : Type} (message : Str) : Option α → Except Str α
  | some value => .ok value
  | none => .error (planPath ++ message)

/-- What a plan without comments says. -/
def planOf (text : Str) : Except Str Plan := do
  let networkCidr ← orRaise ": no \x60export const NETWORK_CIDR = '...'\x60 found"
    (search (constantRe "NETWORK_CIDR") text)
  let subnetCidr ← orRaise ": no \x60export const SUBNET_CIDR = '...'\x60 found"
    (search (constantRe "SUBNET_CIDR") text)
  let hostIps ← orRaise
    ": no \x60export const HOST_IPS = \x7b ... \x7d as const\x60 block found"
    (objectBlock words "HOST_IPS" text)
  let edge1 ← orRaise ": HOST_IPS block names no \x60edge1\x60" (hostIps.lookup "edge1".toList)
  let db1 ← orRaise ": HOST_IPS block names no \x60db1\x60" (hostIps.lookup "db1".toList)
  pure ⟨networkCidr, subnetCidr, hostIps, (objectBlock words "APP_HOST_IPS" text).getD [],
    edge1, db1⟩

def readAddressPlan (content : Content) : Except Str Plan :=
  match content with
  | .error cause => .error (planPath ++ ": cannot read address plan (".toList ++ cause ++
      ")".toList)
  | .ok text => planOf words (stripComments text)

end Plan

section Check

/-- An `ip_network`: the address and the length of the prefix. -/
inductive Network where
  | v4 (value length : Nat)
  | v6
deriving DecidableEq

/-- `IPv4Network(text, strict=False)`. -/
def ipv4Network (text : Str) : Option (Nat × Nat) :=
  match splitOnChar '/' text with
  | [address] => (ipv4Value address).map fun value => (value, 32)
  | [address, mask] =>
    (ipv4Value address).bind fun value =>
      (prefixLength 32 mask).map fun length => (value - value % 2 ^ (32 - length), length)
  | _ => none

/-- Whether `IPv6Network(text, strict=False)` is one. -/
def isIpv6Network (text : Str) : Bool :=
  match splitOnChar '/' text with
  | [address] => (ipv6AddressValue address).isSome
  | [address, mask] => (ipv6AddressValue address).isSome && (prefixLength 128 mask).isSome
  | _ => false

/-- `ipaddress.ip_network(text, strict=False)`. -/
def ipNetwork (text : Str) : Option Network :=
  match ipv4Network text with
  | some (value, length) => some (.v4 value length)
  | none => if isIpv6Network text then some .v6 else none

/-- What the check raises. -/
inductive CheckError where
  | valueError
  | typeError
deriving DecidableEq

/-- `_within`; ranges of two versions cannot be compared. -/
def within (literal : Str) (network : Network) : Except CheckError Bool :=
  if '/' ∈ literal then
    match ipv4Network literal, network with
    | none, _ => .ok false
    | some _, .v6 => .error .typeError
    | some (value, length), .v4 base most =>
      .ok (decide (base ≤ value ∧ value + 2 ^ (32 - length) ≤ base + 2 ^ (32 - most)))
  else
    match ipv4Value literal, network with
    | some value, .v4 base most => .ok (decide (base ≤ value ∧ value < base + 2 ^ (32 - most)))
    | _, _ => .ok false

/-- What one of the five checks looks for: the file, the pattern, the value and its label. -/
structure Sought where
  path : Str
  shape : Shape
  expected : Str
  label : Str

inductive Finding where
  | cannotRead (path cause : Str)
  | foundNone (sought : Sought)
  | disagrees (sought : Sought) (count : Nat) (value : Str)
  | plan (message : Str)

variable (words : WordTable)

/-- Whether a literal is reported. -/
def disagrees (plan : Plan) (network : Network) (expected value : Str) : Except CheckError Bool :=
  if value = expected ∨ value ∈ plan.knownValues then .ok false else within value network

def disagreeing (plan : Plan) (network : Network) (expected : Str) :
    List Str → Except CheckError (List Str)
  | [] => .ok []
  | value :: rest => do
    let reported ← disagrees plan network expected value
    let more ← disagreeing plan network expected rest
    pure (if reported then value :: more else more)

def checkLiterals (files : Str → Content) (plan : Plan) (sought : Sought) :
    Except CheckError (List Finding) :=
  match files sought.path with
  | .error cause => .ok [.cannotRead sought.path cause]
  | .ok text =>
    let found := findAll words sought.shape text
    if found = [] then .ok [.foundNone sought]
    else
      match ipNetwork plan.networkCidr with
      | none => .error .valueError
      | some network =>
        (disagreeing plan network sought.expected (sorted found.dedup)).map fun values =>
          values.map fun value => .disagrees sought (found.count value) value

def natScript : Str := "hetzner/provision/branchleft_nat.sh"

def dockerUserPolicy : Str := "hetzner/provision/branchleft_docker_user_policy.sh"

def runbook : Str := "hetzner/RUNBOOK-provision-host.md"

/-- The five checks. -/
def soughts (plan : Plan) : List Sought :=
  [⟨natScript, .cidr, plan.subnetCidr, "SUBNET_CIDR"⟩,
    ⟨dockerUserPolicy, .bare, plan.db1, "HOST_IPS.db1"⟩,
    ⟨runbook, .cidr, plan.subnetCidr, "SUBNET_CIDR"⟩,
    ⟨runbook, .bare, plan.edge1, "HOST_IPS.edge1"⟩,
    ⟨runbook, .host, plan.db1 ++ "/32".toList, "HOST_IPS.db1 (as a /32)"⟩]

def check (files : Str → Content) : Except CheckError (List Finding) :=
  match readAddressPlan words (files planPath) with
  | .error message => .ok [.plan message]
  | .ok plan => ((soughts plan).mapM (checkLiterals words files plan)).map List.flatten

end Check

section Statements

variable (words : WordTable) (files files' : Str → Content) (plan : Plan) (sought : Sought)

def InNetwork (literal : Str) : Prop :=
  ∃ network, ipNetwork plan.networkCidr = some network ∧ within literal network = .ok true

/-- A file names a literal of the form that is looked for, and each that lies in the network is a
value of the plan. -/
def Agrees : Prop :=
  ∃ text, files sought.path = .ok text ∧ findAll words sought.shape text ≠ [] ∧
    ∀ literal ∈ findAll words sought.shape text, InNetwork plan literal → literal ∈ plan.knownValues

/-- One occurrence of the value, with neither a dot nor a slash before it, is replaced by an address
or range of the network that is no value of the plan. -/
def Edited : Prop :=
  ∃ pre new post, files sought.path = .ok (pre ++ (sought.expected ++ post)) ∧
    (pre.length, sought.expected) ∈
      spans words sought.shape none 0 0 (pre ++ (sought.expected ++ post)) ∧
    (∀ c ∈ pre.getLast?, c ≠ '.' ∧ c ≠ '/') ∧ IsLiteral sought.shape new ∧
    InNetwork plan new ∧ new ∉ plan.knownValues ∧
    files' = Function.update files sought.path (.ok (pre ++ (new ++ post)))

end Statements

section Results

variable {words : WordTable} {files files' : Str → Content} {plan : Plan} {sought : Sought}
  {network : Network} {expected literal : Str} {values reported : List Str}

theorem value_of_lookup {entries : List (Str × Str)} {key value : Str}
    (h : entries.lookup key = some value) : value ∈ entries.map Prod.snd :=
  List.mem_map.mpr ⟨_, Sequences.mem_of_lookup h, rfl⟩

theorem orRaise_eq_ok_iff {α : Type} {message : Str} {found : Option α} {value : α} :
    orRaise message found = .ok value ↔ found = some value := by
  cases found with
  | none => simp [orRaise]
  | some other => simp [orRaise]

theorem hosts_of_planOf {text : Str} (hplan : planOf words text = .ok plan) :
    plan.edge1 ∈ plan.hostIps.map Prod.snd ∧ plan.db1 ∈ plan.hostIps.map Prod.snd := by
  obtain ⟨networkCidr, -, hplan⟩ := bind_eq_ok_iff.mp hplan
  obtain ⟨subnetCidr, -, hplan⟩ := bind_eq_ok_iff.mp hplan
  obtain ⟨hostIps, -, hplan⟩ := bind_eq_ok_iff.mp hplan
  obtain ⟨edge1, hedge1, hplan⟩ := bind_eq_ok_iff.mp hplan
  obtain ⟨db1, hdb1, hplan⟩ := bind_eq_ok_iff.mp hplan
  cases hplan
  exact ⟨value_of_lookup (orRaise_eq_ok_iff.mp hedge1), value_of_lookup (orRaise_eq_ok_iff.mp hdb1)⟩

theorem host_known (h : literal ∈ plan.hostIps.map Prod.snd) :
    literal ∈ plan.knownValues ∧ literal ++ "/32".toList ∈ plan.knownValues := by
  have hhosts : literal ∈ (plan.hostIps ++ plan.appHostIps).map Prod.snd := by
    rw [List.map_append]
    exact List.mem_append_left _ h
  constructor
  · exact List.mem_cons_of_mem _ (List.mem_cons_of_mem _ (List.mem_append_left _ hhosts))
  · exact List.mem_cons_of_mem _ (List.mem_cons_of_mem _
      (List.mem_append_right _ (List.mem_map.mpr ⟨literal, hhosts, rfl⟩)))

theorem expected_mem_known {content : Content} (hplan : readAddressPlan words content = .ok plan)
    (hsought : sought ∈ soughts plan) : sought.expected ∈ plan.knownValues := by
  cases content with
  | error cause => cases hplan
  | ok text =>
    obtain ⟨hedge1, hdb1⟩ := hosts_of_planOf hplan
    have hsubnet : plan.subnetCidr ∈ plan.knownValues :=
      List.mem_cons_of_mem _ List.mem_cons_self
    simp only [soughts, List.mem_cons, List.not_mem_nil, or_false] at hsought
    rcases hsought with rfl | rfl | rfl | rfl | rfl
    · exact hsubnet
    · exact (host_known hdb1).1
    · exact hsubnet
    · exact (host_known hedge1).1
    · exact (host_known hdb1).2

theorem within_eq_true (h : within literal network = .ok true) :
    ∃ base most, network = .v4 base most := by
  cases network with
  | v4 base most => exact ⟨base, most, rfl⟩
  | v6 =>
    unfold within at h
    split_ifs at h
    · cases hvalue : ipv4Network literal <;> simp [hvalue] at h
    · cases hvalue : ipv4Value literal <;> simp [hvalue] at h

theorem within_succeeds (base most : Nat) (literal : Str) :
    ∃ inside, within literal (.v4 base most) = .ok inside := by
  unfold within
  split_ifs
  · cases ipv4Network literal with
    | none => exact ⟨false, rfl⟩
    | some value => exact ⟨_, rfl⟩
  · cases ipv4Value literal with
    | none => exact ⟨false, rfl⟩
    | some value => exact ⟨_, rfl⟩

theorem disagreeing_reports (h : disagreeing plan network expected values = .ok reported)
    (hliteral : literal ∈ values) : ∃ bad, disagrees plan network expected literal = .ok bad ∧
      (bad = true → literal ∈ reported) := by
  induction values generalizing reported with
  | nil => cases hliteral
  | cons value rest ih =>
    rw [disagreeing] at h
    obtain ⟨bad, hbad, h⟩ := bind_eq_ok_iff.mp h
    obtain ⟨more, hmore, h⟩ := bind_eq_ok_iff.mp h
    cases h
    rcases List.mem_cons.mp hliteral with rfl | hliteral
    · refine ⟨bad, hbad, fun hreported => ?_⟩
      rw [if_pos hreported]
      exact List.mem_cons_self
    · obtain ⟨bad', hbad', hin⟩ := ih hmore hliteral
      refine ⟨bad', hbad', fun hreported => ?_⟩
      split_ifs
      · exact List.mem_cons_of_mem _ (hin hreported)
      · exact hin hreported

theorem disagreeing_succeeds (plan : Plan) (base most : Nat) (expected : Str)
    (values : List Str) :
    ∃ reported, disagreeing plan (.v4 base most) expected values = .ok reported := by
  induction values with
  | nil => exact ⟨[], rfl⟩
  | cons value rest ih =>
    obtain ⟨more, hmore⟩ := ih
    obtain ⟨bad, hbad⟩ : ∃ bad, disagrees plan (.v4 base most) expected value = .ok bad := by
      rw [disagrees]
      split_ifs
      · exact ⟨false, rfl⟩
      · exact within_succeeds base most value
    exact ⟨if bad then value :: more else more, by rw [disagreeing, hbad, hmore]; rfl⟩

theorem mem_sorted_dedup {found : List Str} : literal ∈ sorted found.dedup ↔ literal ∈ found := by
  rw [sorted, List.mem_mergeSort, List.mem_dedup]

theorem agrees_of_checkLiterals (hknown : sought.expected ∈ plan.knownValues)
    (h : checkLiterals words files plan sought = .ok []) : Agrees words files plan sought := by
  rw [checkLiterals] at h
  cases hfile : files sought.path with
  | error cause =>
    rw [hfile] at h
    cases h
  | ok text =>
    rw [hfile] at h
    simp only at h
    split_ifs at h with hfound
    · cases h
    · refine ⟨text, hfile, hfound, fun literal hliteral hinside => ?_⟩
      obtain ⟨network, hnetwork, hwithin⟩ := hinside
      rw [hnetwork] at h
      simp only at h
      cases hreported : disagreeing plan network sought.expected
          (sorted (findAll words sought.shape text).dedup) with
      | error e =>
        rw [hreported] at h
        cases h
      | ok reported =>
        rw [hreported] at h
        obtain rfl := List.map_eq_nil_iff.mp (Except.ok.inj h)
        obtain ⟨bad, hbad, hin⟩ := disagreeing_reports hreported
          (mem_sorted_dedup.mpr hliteral)
        rw [disagrees] at hbad
        split_ifs at hbad with hset
        · exact hset.elim (fun heq => heq ▸ hknown) id
        · rw [hwithin] at hbad
          cases hbad
          exact absurd (hin rfl) List.not_mem_nil

theorem checkLiterals_succeeds {base most : Nat}
    (hnetwork : ipNetwork plan.networkCidr = some (.v4 base most)) (sought : Sought) :
    ∃ findings, checkLiterals words files plan sought = .ok findings := by
  rw [checkLiterals]
  cases files sought.path with
  | error cause => exact ⟨_, rfl⟩
  | ok text =>
    simp only
    split_ifs
    · exact ⟨_, rfl⟩
    · obtain ⟨reported, hreported⟩ := disagreeing_succeeds plan base most sought.expected
        (sorted (findAll words sought.shape text).dedup)
      rw [hnetwork]
      simp only
      rw [hreported]
      exact ⟨_, rfl⟩

theorem checkLiterals_reports {text : Str} {findings : List Finding}
    (hfile : files sought.path = .ok text) (hliteral : literal ∈ findAll words sought.shape text)
    (hinside : InNetwork plan literal) (hknown : sought.expected ∈ plan.knownValues)
    (hunknown : literal ∉ plan.knownValues)
    (h : checkLiterals words files plan sought = .ok findings) : findings ≠ [] := by
  rintro rfl
  obtain ⟨text', hfile', -, hall⟩ := agrees_of_checkLiterals hknown h
  rw [hfile] at hfile'
  cases hfile'
  exact hunknown (hall literal hliteral hinside)

theorem path_ne_planPath (hsought : sought ∈ soughts plan) : sought.path ≠ planPath := by
  simp only [soughts, List.mem_cons, List.not_mem_nil, or_false] at hsought
  rcases hsought with rfl | rfl | rfl | rfl | rfl <;>
  · simp only
    decide

theorem check_eq_ok_iff {findings : List Finding}
    (hplan : readAddressPlan words (files planPath) = .ok plan) :
    check words files = .ok findings ↔ ∃ parts, (soughts plan).mapM (checkLiterals words files plan)
      = .ok parts ∧ findings = parts.flatten := by
  rw [check, hplan]
  simp only
  cases (soughts plan).mapM (checkLiterals words files plan) with
  | error e =>
    refine ⟨fun h => ?_, ?_⟩
    · cases h
    · rintro ⟨parts, h, -⟩
      cases h
  | ok parts =>
    constructor
    · intro h
      exact ⟨parts, rfl, (Except.ok.inj h).symm⟩
    · rintro ⟨parts', h, rfl⟩
      cases h
      rfl

theorem checkLiterals_silent (text : Str) (hfile : files sought.path = .ok text)
    (hfound : findAll words sought.shape text ≠ [])
    (hnetwork : ipNetwork plan.networkCidr = some network)
    (hall : ∀ literal ∈ findAll words sought.shape text,
      literal = sought.expected ∨ literal ∈ plan.knownValues) :
    checkLiterals words files plan sought = .ok [] := by
  have hnone : ∀ values, (∀ value ∈ values, value ∈ findAll words sought.shape text) →
      disagreeing plan network sought.expected values = .ok [] := by
    intro values hvalues
    induction values with
    | nil => rfl
    | cons value rest ih =>
      have hvalue := hall value (hvalues value List.mem_cons_self)
      rw [disagreeing, disagrees, if_pos hvalue,
        ih fun other hother => hvalues other (List.mem_cons_of_mem _ hother)]
      rfl
  rw [checkLiterals, hfile]
  simp only
  rw [if_neg hfound, hnetwork]
  simp only
  rw [hnone _ fun value hvalue => mem_sorted_dedup.mp hvalue]
  rfl

theorem check_silent (hplan : readAddressPlan words (files planPath) = .ok plan)
    (h : ∀ sought ∈ soughts plan, checkLiterals words files plan sought = .ok []) :
    check words files = .ok [] := by
  refine (check_eq_ok_iff hplan).mpr ?_
  obtain ⟨parts, hparts⟩ := mapM_succeeds_iff.mpr fun sought hsought => ⟨[], h sought hsought⟩
  refine ⟨parts, hparts, (List.flatten_eq_nil_iff.mpr fun part hpart => ?_).symm⟩
  obtain ⟨sought, hsought, hchecked⟩ := exists_of_mem_right (mapM_eq_ok_iff.mp hparts) hpart
  rw [h sought hsought] at hchecked
  exact (Except.ok.inj hchecked).symm

end Results

/-- `\w` of the characters of ASCII and of the digits. -/
def someWords : WordTable where
  isWord c := c.isAlphanum || c == '_' || (decide (128 ≤ c.toNat) && isDecimal c)
  isWord_ascii := by
    intro c hc
    rw [decide_eq_false (Nat.not_le.mpr hc), Bool.false_and, Bool.or_false]
  isWord_decimal := by
    intro c h
    by_cases hc : 128 ≤ c.toNat
    · rw [decide_eq_true hc, h, Bool.and_self, Bool.or_true]
    · have hascii : ∀ n < 128, isDecimal (Char.ofNat n) = true →
          (Char.ofNat n).isAlphanum = true := by
        decide +kernel
      have hat := hascii c.toNat (Nat.not_le.mp hc)
      rw [Char.ofNat_toNat] at hat
      rw [hat h, Bool.true_or, Bool.true_or]

def samplePlan : Str := "export const NETWORK_CIDR = '10.20.0.0/16';
export const SUBNET_CIDR = '10.20.1.0/24';
export const HOST_IPS = \x7b
  edge1: '10.20.1.10',
  db1: '10.20.1.20',
\x7d as const;
".toList

def sampleRunbook (gateway : Str) : Str := "edge1 is at ".toList ++ gateway
  ++ "; -s 10.20.1.0/24 -j ACCEPT; -d 10.20.1.20/32 -j ACCEPT".toList

/-- The four files, with an address for the gateway in the runbook. -/
def sampleFiles (gateway path : Str) : Content :=
  if path = planPath then .ok samplePlan
  else if path = natScript then .ok "SUBNET=10.20.1.0/24"
  else if path = dockerUserPolicy then .ok "DB_HOST=10.20.1.20"
  else if path = runbook then .ok (sampleRunbook gateway)
  else .error "No such file or directory"

def sampleRead : Plan where
  networkCidr := "10.20.0.0/16"
  subnetCidr := "10.20.1.0/24"
  hostIps := [("edge1".toList, "10.20.1.10".toList), ("db1".toList, "10.20.1.20".toList)]
  appHostIps := []
  edge1 := "10.20.1.10"
  db1 := "10.20.1.20"

theorem read_sample : readAddressPlan someWords (.ok samplePlan) = .ok sampleRead := by
  decide +kernel

theorem ipNetwork_sample : ipNetwork sampleRead.networkCidr = some (.v4 0x0a140000 16) := by
  decide +kernel

theorem findAll_runbook : ∀ gateway ∈ [sampleRead.edge1, sampleRead.db1],
    findAll someWords .cidr (sampleRunbook gateway) =
      [sampleRead.subnetCidr, sampleRead.db1 ++ "/32".toList] ∧
    findAll someWords .bare (sampleRunbook gateway) = [gateway] ∧
    findAll someWords .host (sampleRunbook gateway) = [sampleRead.db1 ++ "/32".toList] := by
  simp only [List.forall_mem_cons]
  refine ⟨⟨?_, ?_, ?_⟩, ⟨?_, ?_, ?_⟩, List.forall_mem_nil _⟩ <;> decide +kernel

theorem check_sample {gateway : Str} (h : gateway ∈ [sampleRead.edge1, sampleRead.db1]) :
    check someWords (sampleFiles gateway) = .ok [] := by
  obtain ⟨hcidr, hbare, hhost⟩ := findAll_runbook gateway h
  refine check_silent read_sample fun sought hsought => ?_
  simp only [soughts, List.mem_cons, List.not_mem_nil, or_false] at hsought
  rcases hsought with rfl | rfl | rfl | rfl | rfl
  · exact checkLiterals_silent "SUBNET=10.20.1.0/24" rfl (by decide +kernel)
      ipNetwork_sample (by decide +kernel)
  · exact checkLiterals_silent "DB_HOST=10.20.1.20" rfl (by decide +kernel)
      ipNetwork_sample (by decide +kernel)
  · refine checkLiterals_silent (sampleRunbook gateway) rfl ?_ ipNetwork_sample ?_
    · rw [hcidr]
      decide
    · rw [hcidr]
      decide +kernel
  · refine checkLiterals_silent (sampleRunbook gateway) rfl ?_ ipNetwork_sample ?_
    · rw [hbare]
      exact List.cons_ne_nil _ _
    · rw [hbare]
      revert gateway
      decide +kernel
  · refine checkLiterals_silent (sampleRunbook gateway) rfl ?_ ipNetwork_sample ?_
    · rw [hhost]
      decide
    · rw [hhost]
      decide +kernel

end SharedInfra.AddressPlan
