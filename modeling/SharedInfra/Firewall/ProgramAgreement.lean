import SharedInfra.Firewall.PolicyProgram
import SharedInfra.Firewall.ReadBackSpec

/-!
# The policy program and its read-back

A run of the policy program works through each chain with one `arrange`
(`runPolicyProgram_eq`), so what it leaves in a chain depends on that chain
alone.  The read-back accepts what a run leaves exactly when every chain started
from a restorable place (`policyProgram_agrees_iff`); a second run never changes
anything.
-/

namespace SharedInfra.Firewall

open Python Sequences

/-- The part of the program that works on one chain: `low` from its end at position 1,
then `top` at position 1, then `mid` from its end at position 2. -/
structure ChainProgram where
  tool : Family
  chain : Str
  top : Rule
  mid : List Rule
  low : List Rule

/-- The order of evaluation the chain's part of the program is written for. -/
def ChainProgram.order (q : ChainProgram) : List Rule := q.top :: (q.mid ++ q.low)

def ChainProgram.rules (q : ChainProgram) (tables : Tables) : List Rule :=
  (tables q.tool).rules q.chain

/-- The chain a part works on. -/
def ChainProgram.key (q : ChainProgram) : Family × Str := (q.tool, q.chain)

def databaseRules (l : Literals) : Variant → List Rule
  | .standard => [databaseAccept l l.dbHost]
  | .protectedNoDb => []

/-- The protected ports' drops in the order of their inserts, on the variant that has them. -/
def portRules (l : Literals) : Variant → List Rule
  | .standard => []
  | .protectedNoDb => l.protectedPorts.map (portDrop l)

/-- The part on `DOCKER-USER` of IPv4. -/
def dockerUserPart (l : Literals) (variant : Variant) : ChainProgram where
  tool := .iptables
  chain := dockerUserChain
  top := conntrackAccept
  mid := bridgeForwardDrop l :: (portRules l variant).reverse
  low := databaseRules l variant ++ [subnetDrop l, metadataDrop l]

/-- The part on `INPUT`, the same for both families. -/
def inputPart (l : Literals) (tool : Family) : ChainProgram where
  tool := tool
  chain := inputChain
  top := bridgeConntrackAccept l
  mid := []
  low := [bridgeInputDrop l]

/-- The part on `DOCKER-USER` of IPv6. -/
def bridgeForwardPart (l : Literals) : ChainProgram where
  tool := .ip6tables
  chain := dockerUserChain
  top := bridgeForwardDrop l
  mid := []
  low := []

/-- The parts of the program on a host of each variant, in the order of the run. -/
def chainPrograms (l : Literals) (variant : Variant) : List ChainProgram :=
  [dockerUserPart l variant, inputPart l .iptables, bridgeForwardPart l, inputPart l .ip6tables]

/-- A host of a variant: with the database exception and no protected ports, or the other
way round. -/
def Host.Fits (host : Host) (l : Literals) : Variant → Prop
  | .standard => host.dbHost l = l.dbHost ∧ l.dbHost ≠ [] ∧ host.holdsProtected l = false
  | .protectedNoDb => host.dbHost l = [] ∧ host.holdsProtected l = true

/-- A host on which the program runs to its end. -/
structure Ready (l : Literals) (host : Host) (tables : Tables) : Prop where
  installed : ∀ tool, host.installed tool = true
  notGateway : l.gatewayIp ∉ host.addresses
  dockerUser : dockerUserChain ∈ (tables .iptables).chains
  input : ∀ tool, inputChain ∈ (tables tool).chains

/-- The rules of an order a chain starts with. -/
def presentOf (order rules : List Rule) : List Rule := rules.takeWhile (· ∈ order)

def foreignOf (order rules : List Rule) : List Rule := rules.dropWhile (· ∈ order)

/-- The policy's rules that are in the chain stand in policy order with every foreign rule
below them. -/
structure Standing (order rules : List Rule) : Prop where
  inOrder : (presentOf order rules).Sublist order
  foreignBelow : ∀ rule ∈ foreignOf order rules, rule ∉ order

/-- The program and its read-back agree on a host: a run ends, the read-back accepts every
chain it leaves, and a second run changes nothing. -/
def Agree (l : Literals) (variant : Variant) (host : Host) (allowed : List Str)
    (tables : Tables) : Prop :=
  ∃ tables', runPolicyProgram l host tables = some tables' ∧ (∀ p ∈ policies l variant,
      ∃ r, checkChain p (tables' p.family) variant allowed = .ok r) ∧
    runPolicyProgram l host tables' = some tables'

/-- What the starting chains must be for the program and its read-back to agree. -/
structure CanReach (l : Literals) (variant : Variant) (tables : Tables) : Prop where
  restorable : ∀ q ∈ chainPrograms l variant, q.chain ∈ (tables q.tool).chains →
    Restorable q.top q.mid q.low (presentOf q.order (q.rules tables))
  noForbidden : ∀ p ∈ policies l variant, p.chain ∈ (tables p.family).chains →
    ∀ o ∈ p.forbidden, o.rule ∉ (tables p.family).rules p.chain

section Run

def onChain (tool : Family) (chain : Str) (work : List Rule → Option (List Rule))
    (tables : Tables) : Option Tables :=
  if chain ∈ (tables tool).chains then
    (work ((tables tool).rules chain)).map (tables.setRules tool chain)
  else none

variable {tool : Family} {chain : Str} {tables tables' : Tables}

@[simp] theorem setRules_chains (rules : List Rule) (t : Family) :
    ((tables.setRules tool chain rules) t).chains = (tables t).chains := by
  rw [Tables.setRules, Function.update_apply]
  split_ifs with h
  · rw [h]
  · rfl

@[simp] theorem setRules_rules_same (rules : List Rule) :
    ((tables.setRules tool chain rules) tool).rules chain = rules := by
  simp [Tables.setRules]

theorem setRules_rules_other {rules : List Rule} {t : Family} {c : Str}
    (h : (t, c) ≠ (tool, chain)) :
    ((tables.setRules tool chain rules) t).rules c = (tables t).rules c := by
  rw [Tables.setRules, Function.update_apply]
  split_ifs with ht
  · subst ht
    have hc : c ≠ chain := fun hc => h (by rw [hc])
    simp [hc]
  · rfl

@[simp] theorem setRules_setRules (rules rules' : List Rule) :
    (tables.setRules tool chain rules).setRules tool chain rules' =
      tables.setRules tool chain rules' := by
  simp [Tables.setRules]

theorem setRules_self :
    tables.setRules tool chain ((tables tool).rules chain) = tables := by
  simp [Tables.setRules]

theorem onChain_of_mem {work : List Rule → Option (List Rule)}
    (h : chain ∈ (tables tool).chains) :
    onChain tool chain work tables =
      (work ((tables tool).rules chain)).map (tables.setRules tool chain) := by
  rw [onChain, if_pos h]

theorem onChain_self {work : List Rule → Option (List Rule)}
    (h : chain ∈ (tables tool).chains)
    (hwork : work ((tables tool).rules chain) = some ((tables tool).rules chain)) :
    onChain tool chain work tables = some tables := by
  rw [onChain_of_mem h, hwork, Option.map_some, setRules_self]

theorem onChain_bind (f g : List Rule → Option (List Rule)) :
    (onChain tool chain f tables).bind (onChain tool chain g) =
      onChain tool chain (fun rules => (f rules).bind g) tables := by
  by_cases h : chain ∈ (tables tool).chains
  · rw [onChain_of_mem h, onChain_of_mem h]
    cases f ((tables tool).rules chain) with
    | none => rfl
    | some rules =>
      rw [Option.map_some, Option.bind_some, Option.bind_some,
        onChain_of_mem (by simpa using h), setRules_rules_same]
      congr 1
      funext rules'
      exact setRules_setRules rules rules'
  · simp [onChain, h]

theorem onChain_then (f g : List Rule → Option (List Rule)) (k : Tables → Option Tables) :
    ((onChain tool chain f tables).bind fun s => (onChain tool chain g s).bind k) =
      (onChain tool chain (fun rules => (f rules).bind g) tables).bind k := by
  rw [← onChain_bind, Option.bind_assoc]

theorem onChain_congr {f : List Rule → Option (List Rule)} {k k' : Tables → Option Tables}
    (h : ∀ s : Tables, (∀ u, (s u).chains = (tables u).chains) → k s = k' s) :
    (onChain tool chain f tables).bind k = (onChain tool chain f tables).bind k' := by
  rw [onChain]
  split_ifs
  · cases f ((tables tool).rules chain) with
    | none => rfl
    | some rules => exact h _ fun u => setRules_chains rules u
  · rfl

def ChainProgram.run (q : ChainProgram) (tables : Tables) : Option Tables :=
  onChain q.tool q.chain (arrange q.top q.mid q.low) tables

theorem ensure_pair (top low : Rule) :
    (fun rules => (ensureAt 1 low rules).bind (ensureAt 1 top)) = arrange top [] [low] := by
  funext rules
  have hnil : ensureAll 2 ([] : List Rule).reverse = some := rfl
  rw [arrange, hnil, Option.bind_fun_some, List.reverse_singleton, ensureAll_singleton]

theorem ensureSpoolRules_eq {l : Literals} {host : Host} {forwardPos : Nat}
    (hinst : host.installed tool = true) :
    ensureSpoolRules l host tool forwardPos tables =
      (onlyIf (decide (dockerUserChain ∈ (tables tool).chains))
        (onChain tool dockerUserChain (ensureAt forwardPos (bridgeForwardDrop l))) tables).bind
        (onChain tool inputChain (arrange (bridgeConntrackAccept l) [] [bridgeInputDrop l])) := by
  rw [ensureSpoolRules, if_neg (by simp [hinst])]
  show Option.bind _ _ = _
  congr 1
  funext s
  rw [← ensure_pair]
  exact onChain_bind _ _

theorem ensurePortDrops_eq {l : Literals} (h : dockerUserChain ∈ (tables .iptables).chains)
    (ports : List Str) :
    ensurePortDrops l ports tables =
      onChain .iptables dockerUserChain (ensureAll 2 (ports.map (portDrop l))) tables := by
  induction ports generalizing tables with
  | nil => exact (onChain_self h rfl).symm
  | cons port ports ih =>
    rw [ensurePortDrops]
    have hrest : (onChain .iptables dockerUserChain (ensureAt 2 (portDrop l port)) tables).bind
          (ensurePortDrops l ports) =
        (onChain .iptables dockerUserChain (ensureAt 2 (portDrop l port)) tables).bind
          (onChain .iptables dockerUserChain (ensureAll 2 (ports.map (portDrop l)))) :=
      onChain_congr fun s hs => ih (by rw [hs]; exact h)
    exact hrest.trans (onChain_bind _ _)

theorem onChain_absorb {f g : List Rule → Option (List Rule)} {k k' : Tables → Option Tables}
    (h : ∀ s : Tables, (∀ u, (s u).chains = (tables u).chains) →
      k s = (onChain tool chain g s).bind k') :
    (onChain tool chain f tables).bind k =
      (onChain tool chain (fun rules => (f rules).bind g) tables).bind k' :=
  (onChain_congr h).trans (onChain_then f g k')

def presentPrograms (l : Literals) (variant : Variant) (tables : Tables) : List ChainProgram :=
  (chainPrograms l variant).filter fun q => q.chain ∈ (tables q.tool).chains

/-- The parts, one after the other. -/
def runParts : List ChainProgram → Tables → Option Tables
  | [], tables => some tables
  | q :: qs, tables => (q.run tables).bind (runParts qs)

theorem dockerUser_part (l : Literals) (db ports : List Rule) :
    (fun rules => (ensureAt 1 (metadataDrop l) rules).bind fun rules =>
      (ensureAt 1 (subnetDrop l) rules).bind fun rules =>
      (ensureAll 1 db.reverse rules).bind fun rules =>
      (ensureAt 1 conntrackAccept rules).bind fun rules =>
      (ensureAll 2 ports rules).bind (ensureAt 2 (bridgeForwardDrop l))) =
    arrange conntrackAccept (bridgeForwardDrop l :: ports.reverse)
      (db ++ [subnetDrop l, metadataDrop l]) := by
  funext rules
  simp only [arrange, List.reverse_append, List.reverse_cons, List.reverse_nil, List.nil_append,
    List.cons_append, List.reverse_reverse, ensureAll, ensureAll_append, Option.bind_assoc,
    Option.bind_fun_some]

variable {l : Literals} {variant : Variant} {host : Host}

theorem databaseStep_eq (hfits : host.Fits l variant)
    (h : dockerUserChain ∈ (tables .iptables).chains) :
    onlyIf (!(host.dbHost l).isEmpty)
        (ensureRule dockerUserChain (databaseAccept l (host.dbHost l))) tables =
      onChain .iptables dockerUserChain (ensureAll 1 (databaseRules l variant).reverse) tables := by
  cases variant with
  | standard =>
    obtain ⟨hdb, hne, _⟩ := hfits
    have hsome : (!(host.dbHost l).isEmpty) = true := by simp [hdb, hne]
    have hone : ensureAll 1 (databaseRules l .standard).reverse =
        ensureAt 1 (databaseAccept l (host.dbHost l)) := by
      funext rules
      rw [hdb]
      exact ensureAll_singleton 1 _ rules
    rw [onlyIf, if_pos hsome, hone]
    rfl
  | protectedNoDb =>
    have hnone : ¬(!(host.dbHost l).isEmpty) = true := by simp [hfits.1]
    rw [onlyIf, if_neg hnone]
    exact (onChain_self h rfl).symm

theorem portStep_eq (hfits : host.Fits l variant)
    (h : dockerUserChain ∈ (tables .iptables).chains) :
    onlyIf (host.holdsProtected l) (ensurePortDrops l l.protectedPorts) tables =
      onChain .iptables dockerUserChain (ensureAll 2 (portRules l variant)) tables := by
  cases variant with
  | standard =>
    rw [onlyIf, if_neg (by simp [hfits.2.2])]
    exact (onChain_self h rfl).symm
  | protectedNoDb =>
    rw [onlyIf, if_pos hfits.2]
    exact ensurePortDrops_eq h _

def ip6Parts (l : Literals) (tables : Tables) : List ChainProgram :=
  if dockerUserChain ∈ (tables .ip6tables).chains then
    [bridgeForwardPart l, inputPart l .ip6tables]
  else [inputPart l .ip6tables]

theorem presentPrograms_eq (hready : Ready l host tables) :
    presentPrograms l variant tables =
      dockerUserPart l variant :: inputPart l .iptables :: ip6Parts l tables := by
  simp only [presentPrograms, chainPrograms, dockerUserPart, inputPart, bridgeForwardPart,
    List.filter_cons, hready.dockerUser, hready.input, decide_true, if_true, decide_eq_true_eq,
    List.filter_nil, ip6Parts]

theorem ensureSpoolRules_ip6 (hready : Ready l host tables) {s : Tables}
    (hs : ∀ u, (s u).chains = (tables u).chains) :
    ensureSpoolRules l host .ip6tables 1 s = runParts (ip6Parts l tables) s := by
  have hone : arrange (bridgeForwardDrop l) [] [] = ensureAt 1 (bridgeForwardDrop l) := by
    funext rules
    have hnil : ensureAll 2 ([] : List Rule).reverse = some := rfl
    rw [arrange, hnil, Option.bind_fun_some, List.reverse_nil, ensureAll_nil, Option.bind_some]
  rw [ensureSpoolRules_eq (hready.installed _), onlyIf, hs, ip6Parts]
  by_cases h : dockerUserChain ∈ (tables .ip6tables).chains
  · simp only [h, decide_true, if_true, runParts, ChainProgram.run, bridgeForwardPart, inputPart,
      hone, Option.bind_fun_some]
  · simp only [h, decide_false, if_false, Bool.false_eq_true, runParts, ChainProgram.run, inputPart,
      Option.bind_fun_some, Option.bind_some]

theorem ensureSpoolRules_ip4 (hready : Ready l host tables) {s : Tables}
    (hs : ∀ u, (s u).chains = (tables u).chains) :
    (ensureSpoolRules l host .iptables 2 s).bind (ensureSpoolRules l host .ip6tables 1) =
      (onChain .iptables dockerUserChain (ensureAt 2 (bridgeForwardDrop l)) s).bind
        (runParts (inputPart l .iptables :: ip6Parts l tables)) := by
  rw [ensureSpoolRules_eq (hready.installed _), onlyIf, hs,
    if_pos (by simpa using hready.dockerUser), Option.bind_assoc]
  refine onChain_congr fun t ht => ?_
  rw [runParts]
  exact onChain_congr fun u hu => ensureSpoolRules_ip6 hready fun f => by rw [hu, ht, hs]

theorem runPolicyProgram_eq (hready : Ready l host tables) (hfits : host.Fits l variant) :
    runPolicyProgram l host tables = runParts (presentPrograms l variant tables) tables := by
  have hdu := hready.dockerUser
  rw [presentPrograms_eq hready, runParts, ChainProgram.run, runPolicyProgram,
    if_neg (by simp [hready.installed]), if_neg (by simp [hready.notGateway]),
    if_neg (by simpa using hdu)]
  -- Each insert into `DOCKER-USER` joins the ones before it.
  have hpart := dockerUser_part l (databaseRules l variant) (portRules l variant)
  simp only [dockerUserPart]
  rw [← hpart]
  refine onChain_absorb fun s1 h1 => ?_
  refine onChain_absorb fun s2 h2 => ?_
  have hdu2 : dockerUserChain ∈ (s2 .iptables).chains := by rw [h2, h1]; exact hdu
  refine (congrArg (Option.bind · _) (databaseStep_eq hfits hdu2)).trans ?_
  refine onChain_absorb fun s3 h3 => ?_
  refine onChain_absorb fun s4 h4 => ?_
  have hdu4 : dockerUserChain ∈ (s4 .iptables).chains := by rw [h4, h3]; exact hdu2
  refine (congrArg (Option.bind · _) (portStep_eq hfits hdu4)).trans ?_
  refine onChain_absorb fun s5 h5 => ?_
  exact ensureSpoolRules_ip4 hready fun f => by rw [h5, h4, h3, h2, h1]

theorem mem_presentPrograms {q : ChainProgram} :
    q ∈ presentPrograms l variant tables ↔
      q ∈ chainPrograms l variant ∧ q.chain ∈ (tables q.tool).chains := by
  simp [presentPrograms]

theorem chainPrograms_keys (l : Literals) (variant : Variant) :
    (chainPrograms l variant).Pairwise fun q q' => q.key ≠ q'.key := by
  have hne : dockerUserChain ≠ inputChain := by decide
  simp [chainPrograms, ChainProgram.key, dockerUserPart, inputPart, bridgeForwardPart, hne,
    List.pairwise_cons]

theorem ChainProgram.run_spec {q : ChainProgram} (h : q.chain ∈ (tables q.tool).chains) :
    ∃ s, q.run tables = some s ∧ (∀ u, (s u).chains = (tables u).chains) ∧
      arrange q.top q.mid q.low (q.rules tables) = some (q.rules s) ∧
      ∀ q' : ChainProgram, q'.key ≠ q.key → q'.rules s = q'.rules tables := by
  obtain ⟨ys, hys, _⟩ := arrange_isSome q.top q.mid q.low (q.rules tables)
  refine ⟨tables.setRules q.tool q.chain ys, ?_, fun u => setRules_chains ys u, ?_, ?_⟩
  · rw [ChainProgram.run, onChain_of_mem h]
    exact congrArg _ hys
  · rw [hys]
    exact congrArg some (setRules_rules_same ys).symm
  · intro q' hkey
    exact setRules_rules_other hkey

theorem runParts_spec {qs : List ChainProgram} (hkeys : qs.Pairwise fun q q' => q.key ≠ q'.key)
    (h : ∀ q ∈ qs, q.chain ∈ (tables q.tool).chains) :
    ∃ s, runParts qs tables = some s ∧ (∀ u, (s u).chains = (tables u).chains) ∧
      (∀ q ∈ qs, arrange q.top q.mid q.low (q.rules tables) = some (q.rules s)) ∧
      ∀ q' : ChainProgram, (∀ q ∈ qs, q'.key ≠ q.key) → q'.rules s = q'.rules tables := by
  induction qs generalizing tables with
  | nil => exact ⟨tables, rfl, fun _ => rfl, by simp, fun _ _ => rfl⟩
  | cons q qs ih =>
    obtain ⟨hq, hqs⟩ := List.pairwise_cons.mp hkeys
    obtain ⟨s, hs, hchains, hrules, hother⟩ := ChainProgram.run_spec (h q (by simp))
    obtain ⟨s', hs', hchains', hrules', hother'⟩ := ih hqs fun q' hq' => by
      rw [hchains]
      exact h q' (List.mem_cons_of_mem _ hq')
    refine ⟨s', ?_, fun u => (hchains' u).trans (hchains u), ?_, ?_⟩
    · rw [runParts, hs, Option.bind_some, hs']
    · intro q' hq'
      rcases List.mem_cons.mp hq' with rfl | hq'
      · rw [hrules, hother' q' hq]
      · rw [← hrules' q' hq', hother q' (hq q' hq').symm]
    · intro q' hq'
      rw [hother' q' fun r hr => hq' r (List.mem_cons_of_mem _ hr), hother q' (hq' q (by simp))]

theorem runParts_of_mem {qs : List ChainProgram}
    (h : ∀ q ∈ qs, q.chain ∈ (tables q.tool).chains)
    (hall : ∀ q ∈ qs, ∀ rule ∈ q.order, rule ∈ q.rules tables) :
    runParts qs tables = some tables := by
  induction qs with
  | nil => rfl
  | cons q qs ih =>
    have hself : q.run tables = some tables :=
      onChain_self (h q (by simp)) (arrange_of_mem (hall q (by simp)))
    rw [runParts, hself, Option.bind_some]
    exact ih (fun r hr => h r (List.mem_cons_of_mem _ hr))
      fun r hr => hall r (List.mem_cons_of_mem _ hr)

end Run

section Agreement

variable {l : Literals} {variant : Variant} {host : Host} {tables tables' : Tables}
  {allowed : List Str}
variable {p : ChainPolicy} {q : ChainProgram}

/-- A part works on the chain of a policy, towards the order the policy demands. -/
structure ChainProgram.Serves (q : ChainProgram) (p : ChainPolicy) : Prop where
  tool : q.tool = p.family
  chain : q.chain = p.chain
  order : q.order = p.ownedRules

theorem ChainProgram.Serves.rules (h : q.Serves p) :
    q.rules tables = (tables p.family).rules p.chain := by
  rw [ChainProgram.rules, h.tool, h.chain]

theorem ChainProgram.Serves.mem_iff (h : q.Serves p) :
    q.chain ∈ (tables q.tool).chains ↔ p.chain ∈ (tables p.family).chains := by
  rw [h.tool, h.chain]

theorem exists_part (hp : p ∈ policies l variant) :
    ∃ q ∈ chainPrograms l variant, q.Serves p := by
  simp only [policies, List.mem_cons, List.not_mem_nil, or_false] at hp
  rcases hp with rfl | rfl | rfl | rfl
  · refine ⟨dockerUserPart l variant, by simp [chainPrograms], rfl, rfl, ?_⟩
    cases variant with
    | standard => rfl
    | protectedNoDb =>
      simp only [ChainProgram.order, dockerUserPart, portRules, databaseRules,
        ChainPolicy.ownedRules, dockerUserOwned, protectedDrops, ← List.map_reverse,
        List.map_append, List.map_cons, List.map_map, List.map_nil, List.nil_append,
        List.cons_append]
      rfl
  · exact ⟨inputPart l .iptables, by simp [chainPrograms], rfl, rfl, rfl⟩
  · exact ⟨inputPart l .ip6tables, by simp [chainPrograms], rfl, rfl, rfl⟩
  · exact ⟨bridgeForwardPart l, by simp [chainPrograms], rfl, rfl, rfl⟩

theorem exists_policy_of_part (hq : q ∈ chainPrograms l variant) :
    ∃ p ∈ policies l variant, q.Serves p := by
  have hkey : ∃ p ∈ policies l variant, (p.family, p.chain) = q.key := by
    simp only [chainPrograms, List.mem_cons, List.not_mem_nil, or_false] at hq
    rcases hq with rfl | rfl | rfl | rfl <;>
      simp [policies, ChainProgram.key, dockerUserPart, inputPart, bridgeForwardPart]
  obtain ⟨p, hp, hpq⟩ := hkey
  obtain ⟨q', hq', hserves⟩ := exists_part hp
  have hkeys : q'.key = q.key := by
    rw [← hpq, ChainProgram.key, hserves.tool, hserves.chain]
  have hsame : q' = q := by
    by_contra hne
    have hsymm : Std.Symm fun q q' : ChainProgram => q.key ≠ q'.key := ⟨fun _ _ => Ne.symm⟩
    exact (chainPrograms_keys l variant).forall hq' hq hne hkeys
  exact ⟨p, hp, hsame ▸ hserves⟩

theorem conntrackStates_ne_empty : conntrackStates ≠ ∅ := by
  have hne : splitOnChar ',' "ESTABLISHED,RELATED".toList ≠ [] := splitOnChar_ne_nil _ _
  simpa [conntrackStates, stateSet] using hne

theorem acceptTarget_ne_drop : acceptTarget ≠ dropTarget := by decide

theorem srcNegated_of_owned {rule : Rule}
    (h : rule ∈ (dockerUserOwned l .standard).map Owned.rule) : rule.srcNegated = false := by
  simp only [dockerUserOwned, List.cons_append, List.nil_append, List.map_cons, List.map_nil,
    List.mem_cons, List.not_mem_nil, or_false] at h
  rcases h with rfl | rfl | rfl | rfl | rfl <;> rfl

theorem drop_or_states_of_owned {rule : Rule}
    (h : rule ∈ (dockerUserOwned l .protectedNoDb).map Owned.rule) :
    rule.target = dropTarget ∨ rule.ctstate = conntrackStates := by
  simp only [dockerUserOwned, protectedDrops, List.cons_append, List.nil_append, List.map_cons,
    List.map_append, List.map_map, List.map_nil, List.mem_cons, List.mem_append, List.mem_map,
    List.not_mem_nil, or_false] at h
  rcases h with rfl | rfl | ⟨port, _, rfl⟩ | rfl | rfl
  · exact Or.inr rfl
  all_goals exact Or.inl rfl

theorem forbidden_not_owned (hp : p ∈ policies l variant) {o : Owned}
    (ho : o ∈ p.forbidden) : o.rule ∉ p.ownedRules := by
  simp only [policies, List.mem_cons, List.not_mem_nil, or_false] at hp
  rcases hp with rfl | rfl | rfl | rfl
  · intro hown
    simp only [ChainPolicy.ownedRules] at hown
    cases variant with
    | standard =>
      simp only [protectedDrops, List.mem_map] at ho
      obtain ⟨port, _, rfl⟩ := ho
      have hneg : (protectedDrop l port).rule.srcNegated = true := rfl
      rw [srcNegated_of_owned hown] at hneg
      exact Bool.false_ne_true hneg
    | protectedNoDb =>
      simp only [List.mem_singleton] at ho
      subst ho
      rcases drop_or_states_of_owned hown with ht | hc
      · exact acceptTarget_ne_drop ht
      · exact conntrackStates_ne_empty hc.symm
  · simp at ho
  · simp at ho
  · simp at ho

theorem accepts_on_top (allowed : List Str) (hp : p ∈ policies l variant)
    {foreign : List Rule}
    (hforb : ∀ o ∈ p.forbidden, o.rule ∉ foreign) :
    Accepts p (p.ownedRules ++ foreign) allowed := by
  have hmatch : matchOwned p (p.ownedRules ++ foreign) = List.range' 0 p.owned.length := by
    rw [matchOwned, greedyPositions_append, ChainPolicy.ownedRules, List.length_map]
  have hfull : (matchOwned p (p.ownedRules ++ foreign)).length = p.owned.length := by
    rw [hmatch, List.length_range']
  have hlast := lastDrop_nonneg (policies_hasDrop hp) hfull
  refine ⟨List.sublist_append_left _ _, ?_, ?_⟩
  · intro o ho hmem
    rcases List.mem_append.mp hmem with hown | hf
    · exact forbidden_not_owned hp ho hown
    · exact hforb o ho hf
  · -- Every place up to the last drop is one of the policy's.
    obtain ⟨place, hplace, heq⟩ := lastDrop_mem hlast
    have hbound : place < p.owned.length := by
      simpa [hmatch] using hplace
    rw [firstBypass, List.find?_eq_none]
    rintro ⟨rule, index⟩ hr
    simp only [sliceTo, if_pos hlast] at hr
    simp only [heq, Int.toNat_natCast] at hr
    have hindex := List.mem_zipIdx_iff_getElem?.mp hr
    rw [List.getElem?_take] at hindex
    split_ifs at hindex with hlt
    have hin : index ∈ matchOwned p (p.ownedRules ++ foreign) := by
      rw [hmatch]
      simp only [List.mem_range'_1, Nat.zero_le, true_and]
      omega
    simp [bypasses, hin]

theorem runPolicyProgram_spec (hready : Ready l host tables) (hfits : host.Fits l variant) :
    ∃ s, runPolicyProgram l host tables = some s ∧ runPolicyProgram l host s = some s ∧
      (∀ u, (s u).chains = (tables u).chains) ∧
      ∀ q ∈ chainPrograms l variant, q.chain ∈ (tables q.tool).chains →
        arrange q.top q.mid q.low (q.rules tables) = some (q.rules s) := by
  have hkeys : (presentPrograms l variant tables).Pairwise fun q q' => q.key ≠ q'.key :=
    (chainPrograms_keys l variant).filter _
  obtain ⟨s, hrun, hchains, hrules, _⟩ :=
    runParts_spec hkeys fun q hq => (mem_presentPrograms.mp hq).2
  have hready' : Ready l host s :=
    ⟨hready.installed, hready.notGateway, by rw [hchains]; exact hready.dockerUser,
      fun tool => by rw [hchains]; exact hready.input tool⟩
  refine ⟨s, by rw [runPolicyProgram_eq hready hfits, hrun], ?_, hchains,
    fun q hq hin => hrules q (mem_presentPrograms.mpr ⟨hq, hin⟩)⟩
  rw [runPolicyProgram_eq hready' hfits]
  refine runParts_of_mem (fun q hq => (mem_presentPrograms.mp hq).2) ?_
  intro q hq rule hrule
  obtain ⟨hq, hin⟩ := mem_presentPrograms.mp hq
  rw [hchains] at hin
  obtain ⟨ys, hys, _, hall⟩ := arrange_isSome q.top q.mid q.low (q.rules tables)
  rw [hrules q (mem_presentPrograms.mpr ⟨hq, hin⟩), Option.some.injEq] at hys
  exact hys ▸ hall rule hrule

theorem canReach_of_agree (hready : Ready l host tables) (hfits : host.Fits l variant)
    (hstand : ∀ q ∈ chainPrograms l variant, q.chain ∈ (tables q.tool).chains →
      Standing q.order (q.rules tables))
    (h : Agree l variant host allowed tables) : CanReach l variant tables := by
  obtain ⟨tables', hrun, hcheck, _⟩ := h
  obtain ⟨s, hs, _, hchains, hrules⟩ := runPolicyProgram_spec hready hfits
  rw [hs, Option.some.injEq] at hrun
  subst hrun
  have haccept : ∀ p ∈ policies l variant, p.chain ∈ (tables p.family).chains →
      Accepts p ((s p.family).rules p.chain) allowed := by
    intro p hp hin
    rcases checkChain_ok_iff.mp (hcheck p hp) with ⟨_, hacc⟩ | ⟨hnot, _⟩
    · exact hacc
    · exact absurd (by rw [hchains]; exact hin) hnot
  refine ⟨?_, ?_⟩
  · intro q hq hin
    obtain ⟨p, hp, hserves⟩ := exists_policy_of_part hq
    have hsub := (haccept p hp (hserves.mem_iff.mp hin)).inOrder
    rw [← hserves.order, ← hserves.rules] at hsub
    have hstart := hstand q hq hin
    refine (arrange_sublist_iff hstart.inOrder hstart.foreignBelow).mp ⟨q.rules s, ?_, hsub⟩
    rw [presentOf, foreignOf, List.takeWhile_append_dropWhile]
    exact hrules q hq hin
  · intro p hp hin o ho hmem
    refine (haccept p hp hin).noForbidden o ho ?_
    obtain ⟨q, hq, hserves⟩ := exists_part hp
    rw [← hserves.rules] at hmem ⊢
    obtain ⟨ys, hys, hkeep, _⟩ := arrange_isSome q.top q.mid q.low (q.rules tables)
    rw [hrules q hq (hserves.mem_iff.mpr hin), Option.some.injEq] at hys
    exact hys ▸ hkeep o.rule hmem

theorem agree_of_canReach (hready : Ready l host tables) (hfits : host.Fits l variant)
    (hstand : ∀ q ∈ chainPrograms l variant, q.chain ∈ (tables q.tool).chains →
      Standing q.order (q.rules tables))
    (h : CanReach l variant tables) : Agree l variant host allowed tables := by
  obtain ⟨s, hs, hagain, hchains, hrules⟩ := runPolicyProgram_spec hready hfits
  refine ⟨s, hs, ?_, hagain⟩
  intro p hp
  rw [checkChain_ok_iff, hchains]
  obtain ⟨q, hq, hserves⟩ := exists_part hp
  by_cases hin : p.chain ∈ (tables p.family).chains
  · have hin' := hserves.mem_iff.mpr hin
    have hstart := hstand q hq hin'
    have hleft := arrange_of_restorable hstart.foreignBelow (h.restorable q hq hin')
    rw [presentOf, foreignOf, List.takeWhile_append_dropWhile, hrules q hq hin',
      Option.some.injEq] at hleft
    have hforb : ∀ o ∈ p.forbidden, o.rule ∉ foreignOf q.order (q.rules tables) := by
      intro o ho hmem
      refine h.noForbidden p hp hin o ho ?_
      rw [← hserves.rules]
      exact (List.dropWhile_sublist _).subset hmem
    refine Or.inl ⟨hin, ?_⟩
    rw [← hserves.rules, hleft]
    have hacc := accepts_on_top allowed hp hforb
    rw [← hserves.order] at hacc
    exact hacc
  · refine Or.inr ⟨hin, ?_⟩
    have hdu := hready.dockerUser
    have hinput := hready.input
    simp only [policies, List.mem_cons, List.not_mem_nil, or_false] at hp
    rcases hp with rfl | rfl | rfl | rfl
    · exact absurd hdu hin
    · exact absurd (hinput _) hin
    · exact absurd (hinput _) hin
    · rfl

/-- **The policy program and its read-back agree** exactly from chains that let the run
reach the policy's order. -/
theorem policyProgram_agrees_iff (allowed : List Str) (hready : Ready l host tables)
    (hfits : host.Fits l variant)
    (hstand : ∀ q ∈ chainPrograms l variant, q.chain ∈ (tables q.tool).chains →
      Standing q.order (q.rules tables)) :
    Agree l variant host allowed tables ↔ CanReach l variant tables :=
  ⟨canReach_of_agree hready hfits hstand, agree_of_canReach hready hfits hstand⟩

def bareTables : Tables := fun _ => { chains := [dockerUserChain, inputChain] }

/-- On a bare host the two agree if the run can reach the order, as it can. -/
theorem policyProgram_agrees_bare :
    Agree shippedLiterals .standard applicationHost [] bareTables ↔
      CanReach shippedLiterals .standard bareTables :=
  policyProgram_agrees_iff []
    ⟨fun _ => rfl, by decide, by decide, fun _ => by simp [bareTables]⟩
    ⟨rfl, by decide, by decide⟩
    fun _ _ _ => ⟨List.nil_sublist _, by simp [foreignOf, ChainProgram.rules, bareTables]⟩

theorem not_restorable_of_top_alone {top : Rule} {mid low : List Rule} (hlow : low ≠ [])
    (htop : top ∉ low) : ¬Restorable top mid low [top] := by
  rintro (⟨ms, horder, _⟩ | ⟨ms, rest, hpresent, hpre, horder, _⟩)
  · have hlast := congrArg List.getLast? horder
    rw [← List.cons_append, List.getLast?_append_of_ne_nil _ hlow, List.getLast?_concat] at hlast
    exact htop (List.mem_of_getLast? hlast)
  · obtain rfl : rest = [] := by simpa using hpresent
    have hlen := congrArg List.length horder
    have hle := hpre.length_le
    have hpos := List.length_pos_iff.mpr hlow
    simp only [List.length_append, List.length_nil] at hlen
    omega

theorem standing_nil (order : List Rule) : Standing order [] :=
  ⟨List.nil_sublist order, by simp [foreignOf]⟩

theorem presentOf_top_alone (top : Rule) (rest : List Rule) :
    presentOf (top :: rest) [top] = [top] := by
  simp [presentOf]

theorem standing_top_alone (top : Rule) (rest : List Rule) : Standing (top :: rest) [top] := by
  refine ⟨?_, by simp [foreignOf]⟩
  rw [presentOf_top_alone]
  simp

/-- A host on which only the established-traffic accept is left in `DOCKER-USER`. -/
def acceptOnlyTables : Tables := fun tool => {
  chains := [dockerUserChain, inputChain]
  rules := fun chain =>
    if tool = .iptables ∧ chain = dockerUserChain then [conntrackAccept] else [] }

theorem policyProgram_disagrees_acceptOnly :
    Ready shippedLiterals applicationHost acceptOnlyTables ∧
      applicationHost.Fits shippedLiterals .standard ∧
      (∀ q ∈ chainPrograms shippedLiterals .standard, Standing q.order (q.rules acceptOnlyTables)) ∧
      ¬Agree shippedLiterals .standard applicationHost [] acceptOnlyTables := by
  have hready : Ready shippedLiterals applicationHost acceptOnlyTables :=
    ⟨fun _ => rfl, by decide, by decide, fun _ => by simp [acceptOnlyTables]⟩
  have hfits : applicationHost.Fits shippedLiterals .standard :=
    ⟨rfl, by decide, by decide⟩
  have hne : inputChain ≠ dockerUserChain := by decide
  have hstand : ∀ q ∈ chainPrograms shippedLiterals .standard,
      Standing q.order (q.rules acceptOnlyTables) := by
    intro q hq
    simp only [chainPrograms, List.mem_cons, List.not_mem_nil, or_false] at hq
    rcases hq with rfl | rfl | rfl | rfl
    · exact standing_top_alone _ _
    · simpa [ChainProgram.rules, acceptOnlyTables, inputPart, hne] using standing_nil _
    · simpa [ChainProgram.rules, acceptOnlyTables, bridgeForwardPart] using standing_nil _
    · simpa [ChainProgram.rules, acceptOnlyTables, inputPart, hne] using standing_nil _
  refine ⟨hready, hfits, hstand, fun hagree => ?_⟩
  have hreach := canReach_of_agree hready hfits (fun q hq _ => hstand q hq) hagree
  have hrestore := hreach.restorable (dockerUserPart shippedLiterals .standard)
    (by simp [chainPrograms]) hready.dockerUser
  have hpresent : presentOf (dockerUserPart shippedLiterals .standard).order
      ((dockerUserPart shippedLiterals .standard).rules acceptOnlyTables) =
        [conntrackAccept] := presentOf_top_alone _ _
  rw [hpresent] at hrestore
  refine not_restorable_of_top_alone ?_ ?_ hrestore
  · simp [dockerUserPart]
  · intro hmem
    have hstates : ∀ rule ∈ (dockerUserPart shippedLiterals .standard).low, rule.ctstate = ∅ := by
      simp [dockerUserPart, databaseRules, databaseAccept, subnetDrop, metadataDrop]
    exact conntrackStates_ne_empty (hstates conntrackAccept hmem)

end Agreement

end SharedInfra.Firewall
