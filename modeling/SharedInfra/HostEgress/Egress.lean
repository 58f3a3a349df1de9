import SharedInfra.HostEgress.Routes

/-!
# Egress of a private-only host

`branchleft_host_egress.sh`: a run on a host reads the one candidate route, sets the default route
through its gateway and device, and writes the resolver head.  A run does what it is for exactly on
the hosts where the candidate is a route to a network and no default route through the same gateway
has a device whose name extends its own (`egress_exactly`).
-/

namespace SharedInfra.HostEgress

open Python

/-- What a run finds and leaves on a host: the global addresses, `resolvconf`, the main table, the
resolver head, and how often `resolvconf -u` was run. -/
structure Host where
  addresses : List Nat
  resolvconf : Bool
  routes : List Route
  head : Option Str
  refreshes : Nat
deriving DecidableEq

/-- Which of the commands that change something succeed. -/
structure Fates where
  replace : Bool
  mktemp : Bool
  install : Bool
  refresh : Bool
deriving DecidableEq

inductive Outcome where
  | noop
  | noResolvconf
  | noCandidate
  | several
  | incomplete
  | replaceFailed
  | fileFailed
  | refreshFailed
  | configured
deriving DecidableEq

/-- `exit 0`. -/
def Outcome.succeeds (o : Outcome) : Bool := decide (o = .noop ∨ o = .configured)

/-- The errors in front of the route step. -/
def Outcome.beforeRoute (o : Outcome) : Bool :=
  decide (o = .noResolvconf ∨ o = .noCandidate ∨ o = .several ∨ o = .incomplete)

def hasPublicInterface (addresses : List Nat) : Bool :=
  addresses.any fun address => !isPrivateV4 (ipv4Text address)

def candidateRoutes (routes : List Route) : List Str := (routeLines routes).filter isCandidate

def defaults (routes : List Route) : List Route :=
  routes.filter fun r => decide (r.dest = .default)

/-- `ip -4 route show default`. -/
def currentDefault (routes : List Route) : Str := joinWith ['\n'] (routeLines (defaults routes))

def defaultVia (gateway iface : Str) : Str :=
  "default via ".toList ++ (gateway ++ (" dev ".toList ++ iface))

/-- A default route of metric 0 takes the place of the one there is, or stands before the others. -/
def putDefault (new : Route) : List Route → List Route
  | [] => [new]
  | r :: rest =>
    if r.dest = .default then
      if r.metric = 0 then new :: rest else new :: r :: rest
    else r :: putDefault new rest

def newDefault (value : Nat) (iface : Str) : Route where
  kind := .unicast
  dest := .default
  lead := []
  hop := ⟨some (.v4 value), some iface⟩
  more := []
  nexthops := []
  metric := 0

/-- `ip route replace default via "$gateway" dev "$iface"`, which takes an address for a gateway. -/
def replaceDefault (gateway iface : Str) (routes : List Route) : Option (List Route) :=
  (ipv4Value gateway).map fun value => putDefault (newDefault value iface) routes

def setRoute (fates : Fates) (gateway iface : Str) (host : Host) : Option Host :=
  if startsWith (currentDefault host.routes) (defaultVia gateway iface) then some host
  else if fates.replace then
    (replaceDefault gateway iface host.routes).map fun routes => { host with routes := routes }
  else none

/-- The resolver head of `NAMESERVER_1` and `NAMESERVER_2`. -/
def nameservers : Str :=
  "nameserver 185.12.64.1\nnameserver 185.12.64.2\n".toList

def setResolver (fates : Fates) (host : Host) : Outcome × Host :=
  if !fates.mktemp then (.fileFailed, host)
  else if host.head = some nameservers then (.configured, host)
  else if !fates.install then (.fileFailed, host)
  else
    (if fates.refresh then .configured else .refreshFailed,
      { host with head := some nameservers, refreshes := host.refreshes + 1 })

def configure (fates : Fates) (route : Str) (host : Host) : Outcome × Host :=
  let gateway := gatewayWord route
  let iface := deviceWord route
  if gateway = [] ∨ iface = [] then (.incomplete, host)
  else
    match setRoute fates gateway iface host with
    | none => (.replaceFailed, host)
    | some host => setResolver fates host

def run (fates : Fates) (host : Host) : Outcome × Host :=
  if hasPublicInterface host.addresses then (.noop, host)
  else if !host.resolvconf then (.noResolvconf, host)
  else
    match candidateRoutes host.routes with
    | [] => (.noCandidate, host)
    | [route] => configure fates route host
    | _ => (.several, host)

/-- The only default route in effect goes one way out. -/
def Served (routes : List Route) (hop : Hop) : Prop :=
  ∃ r, (∀ other, InEffect routes other ↔ other = r) ∧ r.kind = .unicast ∧ r.hop = hop ∧
    r.nexthops = []

/-- A host as its commands show it. -/
structure Host.Printed (host : Host) : Prop where
  addresses : ∀ address ∈ host.addresses, address < 2 ^ 32
  table : PrintedTable host.routes

/-- No address outside the private, loopback and link-local ranges. -/
def Host.IsPrivate (host : Host) : Prop := ∀ address ∈ host.addresses, IsLocal address

/-- What the script is for. -/
structure Meets (host : Host) : Prop where
  untouched : ∀ fates, ¬ host.IsPrivate → (run fates host).2 = host
  served : ∀ fates, host.IsPrivate → (run fates host).1.succeeds = true →
    ∃ value dev, gateways host.routes = [⟨some (.v4 value), some dev⟩] ∧
      Served (run fates host).2.routes ⟨some (.v4 value), some dev⟩ ∧
      (run fates host).2.head = some nameservers
  stopped : ∀ fates, (run fates host).1.beforeRoute = true → (run fates host).2 = host
  again : ∀ fates fates', (run fates host).1.succeeds = true →
    (run fates' (run fates host).2).2 = (run fates host).2

def candidates (routes : List Route) : List (Route × Hop × Str) :=
  (printed routes).filter fun x => isCandidate x.2.2

/-- On a private-only host the one candidate is of a route to a network, and the first default
route does not go through its gateway by a device whose name only begins with that of its own. -/
def Safe (host : Host) : Prop :=
  host.IsPrivate → host.resolvconf = true → ∀ x value dev, candidates host.routes = [x] →
    x.2.1 = ⟨some (.v4 value), some dev⟩ → x.1.isSubnet = true ∧
    ∀ r device, (defaults host.routes).head? = some r → r.kind = .unicast → r.lead = [] →
      r.hop = ⟨some (.v4 value), some device⟩ → dev <+: device → device = dev

section Prefixes

variable {p line rest word q : Str} {words : List Str}

theorem prefix_of_line (hp : '\n' ∉ p) (h : p <+: line ++ '\n' :: rest) : p <+: line := by
  obtain h | ⟨t, ht⟩ := List.prefix_or_prefix_of_prefix h (List.prefix_append line _)
  · exact h
  · obtain ⟨u, hu⟩ := h
    rw [← ht, List.append_assoc] at hu
    have htail : t ++ u = '\n' :: rest := List.append_cancel_left hu
    cases t with
    | nil =>
      rw [List.append_nil] at ht
      rw [ht]
    | cons c t =>
      obtain ⟨rfl, -⟩ := List.cons.inj htail
      exact absurd (ht ▸ List.mem_append_right _ List.mem_cons_self) hp

theorem joinWith_first (line : Str) (lines : List Str) :
    ∃ rest, joinWith ['\n'] (line :: lines) = line ++ rest ∧ (rest = [] ∨
      ∃ t, rest = '\n' :: t) := by
  cases lines with
  | nil => exact ⟨[], (List.append_nil _).symm, Or.inl rfl⟩
  | cons next lines =>
    refine ⟨'\n' :: joinWith ['\n'] (next :: lines), ?_, Or.inr ⟨_, rfl⟩⟩
    rw [joinWith_cons_cons, List.append_assoc]
    rfl

theorem word_prefix (hword : ' ' ∉ word) (hwords : ∀ w ∈ words, IsField w)
    (h : word ++ ' ' :: q <+: lineOf words) :
    ∃ others, words = word :: others ∧ q <+: lineOf others ∧ ∀ w ∈ others, IsField w := by
  obtain ⟨t, ht⟩ := h
  cases words with
  | nil =>
    have hlength := congrArg List.length ht
    simp at hlength
  | cons first others =>
    obtain ⟨⟨-, hfirst⟩, hothers⟩ := List.forall_mem_cons.mp hwords
    have hblank : ' ' ∉ first := fun hmem => (hfirst _ hmem).1 rfl
    rw [lineOf_cons, List.append_assoc, List.cons_append] at ht
    obtain ⟨hsame, hrest⟩ := first_unique ht hword hblank
    exact ⟨others, by rw [hsame], ⟨t, hrest⟩, hothers⟩

theorem prefix_first (hword : word ≠ [] ∧ ' ' ∉ word) (h : word <+: lineOf words) :
    ∃ first others, words = first :: others ∧ word <+: first := by
  cases words with
  | nil => exact absurd (List.prefix_nil.mp h) hword.1
  | cons first others =>
    refine ⟨first, others, rfl, ?_⟩
    rw [lineOf_cons] at h
    obtain h | ⟨t, ht⟩ := List.prefix_or_prefix_of_prefix h (List.prefix_append first _)
    · exact h
    · cases t with
      | nil =>
        rw [List.append_nil] at ht
        rw [ht]
      | cons c t =>
        obtain ⟨u, hu⟩ := h
        rw [← ht, List.append_assoc] at hu
        obtain ⟨rfl, -⟩ := List.cons.inj (List.append_cancel_left hu)
        exact absurd (ht ▸ List.mem_append_right _ List.mem_cons_self) hword.2

end Prefixes

section Tables

variable {routes : List Route} {r new : Route} {x : Route × Hop × Str} {hop : Hop}
  {gateway iface : Str} {value : Nat}

theorem defaultVia_eq (gateway iface : Str) :
    defaultVia gateway iface = "default".toList ++ ' ' :: ("via".toList ++ ' ' ::
      (gateway ++ ' ' :: ("dev".toList ++ ' ' :: iface))) := by
  unfold defaultVia
  simp only [toList_literal]
  simp only [List.cons_append, List.nil_append]

theorem hop_of_words {device : Str} {behind : List Str} (hr : r.Printed)
    (hwords : r.front ++ (r.hop.words ++ r.more) =
      "default".toList :: "via".toList :: gateway :: "dev".toList :: device :: behind) :
    r.kind = .unicast ∧ r.lead = [] ∧ ∃ value, gateway = ipv4Text value ∧
      r.hop = ⟨some (.v4 value), some device⟩ := by
  have hkind : r.kind = .unicast := by
    cases hk : r.kind with
    | unicast => rfl
    | _ =>
      rw [Route.front, hk] at hwords
      exact absurd (List.cons.inj hwords).1 (by decide)
  rw [Route.front, hkind] at hwords
  have hwords : r.lead ++ (r.hop.words ++ r.more) =
      "via".toList :: gateway :: "dev".toList :: device :: behind := (List.cons.inj hwords).2
  have hlead : r.lead = [] := by
    cases hl : r.lead with
    | nil => rfl
    | cons word lead =>
      rw [hl] at hwords
      obtain ⟨hvia, -⟩ := List.cons.inj hwords
      exact absurd hvia (hr.lead word (hl ▸ List.mem_cons_self)).2.1
  rw [hlead, List.nil_append, Hop.words] at hwords
  refine ⟨hkind, hlead, ?_⟩
  have hbehind : ∀ name others, r.more = name :: others →
      name ≠ "via".toList ∧ name ≠ "dev".toList := fun name others hmore =>
    (hr.more.1 name (hmore ▸ List.mem_cons_self)).2
  cases hg : r.hop.gateway with
  | none =>
    rw [hg] at hwords
    cases hd : r.hop.dev with
    | none =>
      rw [hd] at hwords
      exact absurd rfl (hbehind _ _ hwords).1
    | some dev =>
      rw [hd] at hwords
      exact absurd (List.cons.inj hwords).1 (by decide)
  | some via =>
    have hshape := hr.hop.2 via hg
    rw [hg] at hwords
    cases via with
    | v4 value =>
      obtain ⟨-, hwords⟩ := List.cons.inj hwords
      obtain ⟨hvalue, hwords⟩ := List.cons.inj hwords
      refine ⟨value, hvalue.symm, ?_⟩
      cases hd : r.hop.dev with
      | none =>
        rw [hd] at hwords
        exact absurd rfl (hbehind _ _ hwords).2
      | some dev =>
        rw [hd] at hwords
        obtain ⟨-, hwords⟩ := List.cons.inj hwords
        obtain ⟨hdev, -⟩ := List.cons.inj hwords
        rw [← hg, ← hdev, ← hd]
    | v6 text =>
      obtain ⟨-, hwords⟩ := List.cons.inj hwords
      obtain ⟨-, hwords⟩ := List.cons.inj hwords
      exact absurd (List.cons.inj hwords).1 hshape.2

theorem routeLines_cons (r : Route) (others : List Route) :
    routeLines (r :: others) = r.line :: (r.nexthops.map nexthopLine ++ routeLines others) := by
  rw [routeLines, printed, List.flatMap_cons, Route.printed, List.cons_append, List.map_cons,
    List.map_append, List.map_map]
  rfl

theorem startsWith_currentDefault (hprinted : ∀ r ∈ routes, r.Printed) (hgateway : IsField gateway)
    (hiface : IsField iface) :
    startsWith (currentDefault routes) (defaultVia gateway iface) = true ↔
      ∃ r value device, (defaults routes).head? = some r ∧ r.kind = .unicast ∧ r.lead = [] ∧
        r.hop = ⟨some (.v4 value), some device⟩ ∧ gateway = ipv4Text value ∧ iface <+: device := by
  rw [startsWith_iff]
  cases hd : defaults routes with
  | nil =>
    refine iff_of_false (fun h => ?_) ?_
    · rw [currentDefault, hd] at h
      exact absurd (List.prefix_nil.mp h) (List.cons_ne_nil _ _)
    · rintro ⟨r, value, device, hhead, -⟩
      cases hhead
  | cons r others =>
    have hr : r ∈ defaults routes := by
      rw [hd]
      exact List.mem_cons_self
    obtain ⟨hr, hdest⟩ := List.mem_filter.mp hr
    have hshape := hprinted r hr
    have hdest : r.dest = .default := of_decide_eq_true hdest
    have hfields := Route.isField_words hshape
    have htext : ∃ rest, currentDefault routes = r.line ++ rest ∧ (rest = [] ∨
        ∃ t, rest = '\n' :: t) := by
      rw [currentDefault, hd, routeLines_cons]
      exact joinWith_first _ _
    obtain ⟨rest, htext, hrest⟩ := htext
    rw [htext]
    have hpattern := defaultVia_eq gateway iface
    constructor
    · intro h
      have hnewline : '\n' ∉ defaultVia gateway iface := by
        have hg : '\n' ∉ gateway := fun hmem => (hgateway.2 _ hmem).2.2 rfl
        have hi : '\n' ∉ iface := fun hmem => (hiface.2 _ hmem).2.2 rfl
        simp [hpattern, hg, hi]
      have hline : defaultVia gateway iface <+: r.line := by
        obtain rfl | ⟨t, rfl⟩ := hrest
        · rw [List.append_nil] at h
          exact h
        · exact prefix_of_line hnewline h
      rw [hpattern, Route.line] at hline
      obtain ⟨behind, hwords, hline, hfields⟩ := word_prefix (by decide) hfields hline
      obtain ⟨behind, rfl, hline, hfields⟩ := word_prefix (by decide) hfields hline
      obtain ⟨behind, rfl, hline, hfields⟩ :=
        word_prefix (fun hmem => (hgateway.2 _ hmem).1 rfl) hfields hline
      obtain ⟨behind, rfl, hline, hfields⟩ := word_prefix (by decide) hfields hline
      obtain ⟨device, behind, rfl, hbegin⟩ :=
        prefix_first ⟨hiface.1, fun hmem => (hiface.2 _ hmem).1 rfl⟩ hline
      obtain ⟨hkind, hlead, value, rfl, hhop⟩ := hop_of_words hshape hwords
      exact ⟨r, value, device, rfl, hkind, hlead, hhop, rfl, hbegin⟩
    · rintro ⟨r', value, device, hhead, hkind, hlead, hhop, rfl, t, rfl⟩
      obtain rfl := Option.some.inj hhead
      refine ⟨t ++ ' ' :: (lineOf r.more ++ rest), ?_⟩
      rw [hpattern, Route.line, Route.front, hkind, hdest, hlead, hhop]
      simp [Dest.word, Hop.words, Gateway.words, lineOf]

theorem inEffect_iff (h : PrintedTable routes) :
    InEffect routes r ↔ (defaults routes).head? = some r := by
  have hordered : (defaults routes).Pairwise fun r r' => r.metric ≤ r'.metric := h.ordered
  constructor
  · rintro ⟨before, after, hsplit, hbefore, -⟩
    have hsplit : defaults routes = before ++ r :: after := hsplit
    rw [hsplit] at hordered ⊢
    cases before with
    | nil => rfl
    | cons other before =>
      have hle : other.metric ≤ r.metric :=
        (List.pairwise_cons.mp hordered).1 r (List.mem_append_right _ List.mem_cons_self)
      have hlt := hbefore other List.mem_cons_self
      omega
  · intro hhead
    cases hd : defaults routes with
    | nil =>
      rw [hd] at hhead
      cases hhead
    | cons first others =>
      rw [hd] at hhead hordered
      obtain rfl := Option.some.inj hhead
      exact ⟨[], others, hd, fun other hmem => absurd hmem List.not_mem_nil,
        (List.pairwise_cons.mp hordered).1⟩

theorem defaults_cons_pos (h : r.dest = .default) :
    defaults (r :: routes) = r :: defaults routes :=
  List.filter_cons_of_pos (decide_eq_true h)

theorem defaults_cons_neg (h : r.dest ≠ .default) : defaults (r :: routes) = defaults routes :=
  List.filter_cons_of_neg fun hdefault => h (of_decide_eq_true hdefault)

theorem defaults_putDefault (hnew : new.dest = .default) :
    ∃ others, defaults (putDefault new routes) = new :: others ∧ others <:+ defaults routes := by
  induction routes with
  | nil => exact ⟨[], defaults_cons_pos hnew, List.suffix_rfl⟩
  | cons r rest ih =>
    rw [putDefault]
    split_ifs with hdefault hmetric
    · refine ⟨defaults rest, defaults_cons_pos hnew, ?_⟩
      rw [defaults_cons_pos hdefault]
      exact List.suffix_cons _ _
    · exact ⟨defaults (r :: rest), defaults_cons_pos hnew, List.suffix_rfl⟩
    · obtain ⟨others, hothers, hsuffix⟩ := ih
      rw [defaults_cons_neg hdefault, defaults_cons_neg hdefault]
      exact ⟨others, hothers, hsuffix⟩

theorem head_putDefault (hnew : new.dest = .default) :
    (defaults (putDefault new routes)).head? = some new := by
  obtain ⟨others, hothers, -⟩ := defaults_putDefault hnew
  rw [hothers]
  rfl

theorem mem_putDefault (h : r ∈ putDefault new routes) : r = new ∨ r ∈ routes := by
  induction routes with
  | nil => exact Or.inl (List.mem_singleton.mp h)
  | cons first rest ih =>
    rw [putDefault] at h
    split_ifs at h
    · exact (List.mem_cons.mp h).imp_right (List.mem_cons_of_mem _)
    · exact List.mem_cons.mp h
    · obtain rfl | h := List.mem_cons.mp h
      · exact Or.inr List.mem_cons_self
      · exact (ih h).imp_right (List.mem_cons_of_mem _)

theorem newDefault_printed (hvalue : value < 2 ^ 32) (hiface : IsField iface) :
    (newDefault value iface).Printed where
  dest := trivial
  lead := fun word h => absurd h List.not_mem_nil
  hop := by
    refine ⟨fun dev hdev => ?_, fun gateway hgateway => ?_⟩
    · obtain rfl := Option.some.inj hdev
      exact hiface
    · obtain rfl := Option.some.inj hgateway
      exact hvalue
  more := ⟨fun word h => absurd h List.not_mem_nil, fun word h => (by cases h)⟩
  nexthops := fun n h => absurd h List.not_mem_nil
  special := fun h => absurd rfl h
  several := fun h => absurd rfl h

theorem printedTable_putDefault (h : PrintedTable routes) (hvalue : value < 2 ^ 32)
    (hiface : IsField iface) : PrintedTable (putDefault (newDefault value iface) routes) where
  each := fun r hr => by
    obtain rfl | hr := mem_putDefault hr
    · exact newDefault_printed hvalue hiface
    · exact h.each r hr
  ordered := by
    have hothers : ∃ others, defaults (putDefault (newDefault value iface) routes) =
        newDefault value iface :: others ∧ others <:+ defaults routes := defaults_putDefault rfl
    obtain ⟨others, hothers, hsuffix⟩ := hothers
    have hpairs : others.Pairwise fun r r' => r.metric ≤ r'.metric :=
      h.ordered.sublist hsuffix.sublist
    change (defaults (putDefault (newDefault value iface) routes)).Pairwise _
    rw [hothers]
    exact List.pairwise_cons.mpr ⟨fun other _ => Nat.zero_le _, hpairs⟩

theorem candidates_cons (r : Route) (routes : List Route) :
    candidates (r :: routes) =
      r.printed.filter (fun x => isCandidate x.2.2) ++ candidates routes := by
  rw [candidates, printed, List.flatMap_cons, List.filter_append]
  rfl

theorem candidates_putDefault (hnew : new.printed.filter (fun x => isCandidate x.2.2) = [])
    (hold : ∀ x ∈ candidates routes, x.1.dest ≠ .default) :
    candidates (putDefault new routes) = candidates routes := by
  induction routes with
  | nil =>
    rw [putDefault, candidates_cons, hnew]
    rfl
  | cons r rest ih =>
    rw [candidates_cons] at hold
    obtain ⟨hfirst, hrest⟩ := List.forall_mem_append.mp hold
    rw [putDefault]
    split_ifs with hdefault hmetric
    · have hnone : r.printed.filter (fun x => isCandidate x.2.2) = [] := by
        refine List.eq_nil_iff_forall_not_mem.mpr fun x hx => hfirst x hx ?_
        obtain ⟨hx, -⟩ := List.mem_filter.mp hx
        obtain rfl | hx := List.mem_cons.mp hx
        · exact hdefault
        · obtain ⟨n, -, rfl⟩ := List.mem_map.mp hx
          exact hdefault
      rw [candidates_cons, candidates_cons, hnew, hnone]
    · rw [candidates_cons new, hnew]
      rfl
    · rw [candidates_cons, candidates_cons, ih hrest]

theorem newDefault_no_candidate (value : Nat) (iface : Str) :
    (newDefault value iface).printed.filter (fun x => isCandidate x.2.2) = [] := by
  have hstart : startsWith (newDefault value iface).line "default ".toList = true :=
    startsWith_iff.mpr ⟨_, rfl⟩
  have hnone : isCandidate (newDefault value iface).line = false := by
    rw [isCandidate, hstart, Bool.not_true, Bool.and_false, Bool.false_and]
  exact List.filter_cons_of_neg (Bool.eq_false_iff.mp hnone)

theorem candidateRoutes_eq (routes : List Route) :
    candidateRoutes routes = (candidates routes).map fun x => x.2.2 := by
  rw [candidateRoutes, routeLines, List.filter_map]
  rfl

theorem gateways_eq (hprinted : ∀ r ∈ routes, r.Printed) :
    gateways routes = ((candidates routes).filter
      fun x => x.1.isSubnet && x.2.1.gateway.isSome).map fun x => x.2.1 := by
  rw [gateways, candidates, List.filter_filter]
  refine congrArg _ (List.filter_congr fun x hx => ?_)
  rw [Bool.eq_iff_iff, Bool.and_eq_true, Bool.and_eq_true, Bool.and_eq_true]
  constructor
  · rintro ⟨hsubnet, hgateway⟩
    exact ⟨⟨hsubnet, hgateway⟩, isCandidate_of_gateway hprinted hx hsubnet hgateway⟩
  · exact And.left

end Tables

section Runs

variable {host after : Host} {fates fates' : Fates} {x : Route × Hop × Str} {value : Nat}
  {gateway iface dev : Str}

theorem hasPublicInterface_iff (h : host.Printed) :
    hasPublicInterface host.addresses = true ↔ ¬host.IsPrivate := by
  rw [hasPublicInterface, List.any_eq_true, Host.IsPrivate, not_forall]
  constructor
  · rintro ⟨address, hmem, hpublic⟩
    rw [Bool.not_eq_true'] at hpublic
    refine ⟨address, fun hlocal => ?_⟩
    rw [(isPrivateV4_iff (h.addresses address hmem)).mpr (hlocal hmem)] at hpublic
    cases hpublic
  · rintro ⟨address, hpublic⟩
    obtain ⟨hmem, hpublic⟩ := Classical.not_imp.mp hpublic
    refine ⟨address, hmem, ?_⟩
    rw [Bool.not_eq_true', Bool.eq_false_iff]
    exact fun hlocal => hpublic ((isPrivateV4_iff (h.addresses address hmem)).mp hlocal)

theorem run_public (h : hasPublicInterface host.addresses = true) :
    run fates host = (.noop, host) := if_pos h

theorem run_private (hprivate : hasPublicInterface host.addresses = false)
    (hresolvconf : host.resolvconf = true) (hx : candidates host.routes = [x]) :
    run fates host = configure fates x.2.2 host := by
  have hroutes : candidateRoutes host.routes = [x.2.2] := by
    rw [candidateRoutes_eq, hx]
    rfl
  rw [run, hprivate, hresolvconf, hroutes]
  rfl

theorem run_succeeds (hprivate : hasPublicInterface host.addresses = false)
    (h : (run fates host).1.succeeds = true) :
    host.resolvconf = true ∧ ∃ x after, candidates host.routes = [x] ∧ gatewayWord x.2.2 ≠ [] ∧
      deviceWord x.2.2 ≠ [] ∧ setRoute fates (gatewayWord x.2.2) (deviceWord x.2.2) host =
        some after ∧ run fates host = setResolver fates after := by
  rw [run, hprivate, if_neg Bool.false_ne_true] at h ⊢
  cases hresolvconf : host.resolvconf with
  | false =>
    rw [hresolvconf] at h
    cases h
  | true =>
    rw [hresolvconf, Bool.not_true, if_neg Bool.false_ne_true, candidateRoutes_eq] at h
    rw [Bool.not_true, if_neg Bool.false_ne_true, candidateRoutes_eq]
    refine ⟨rfl, ?_⟩
    cases hlines : candidates host.routes with
    | nil =>
      rw [hlines] at h
      cases h
    | cons x others =>
      rw [hlines] at h
      cases others with
      | cons y others => cases h
      | nil =>
        simp only [List.map_cons, List.map_nil, configure] at h ⊢
        by_cases hempty : gatewayWord x.2.2 = [] ∨ deviceWord x.2.2 = []
        · rw [if_pos hempty] at h
          cases h
        · rw [if_neg hempty] at h ⊢
          obtain ⟨hgateway, hdevice⟩ := not_or.mp hempty
          cases hset : setRoute fates (gatewayWord x.2.2) (deviceWord x.2.2) host with
          | none =>
            rw [hset] at h
            cases h
          | some after => exact ⟨x, after, rfl, hgateway, hdevice, hset, rfl⟩

theorem run_stopped (h : (run fates host).1.beforeRoute = true) : (run fates host).2 = host := by
  have hresolver : ∀ after, (setResolver fates after).1.beforeRoute = false := by
    intro after
    rw [setResolver]
    split_ifs <;> rfl
  rw [run] at h ⊢
  split_ifs at h ⊢
  · rfl
  · rfl
  · cases hroutes : candidateRoutes host.routes with
    | nil => rfl
    | cons route others =>
      rw [hroutes] at h
      cases others with
      | cons other others => rfl
      | nil =>
        simp only [configure] at h ⊢
        split_ifs at h ⊢
        · rfl
        · cases hset : setRoute fates (gatewayWord route) (deviceWord route) host with
          | none => rfl
          | some after =>
            rw [hset] at h
            exact absurd (hresolver after) (ne_of_eq_of_ne h (by decide))

theorem setResolver_succeeds (h : (setResolver fates host).1.succeeds = true) :
    (setResolver fates host).2.addresses = host.addresses ∧
      (setResolver fates host).2.resolvconf = host.resolvconf ∧
      (setResolver fates host).2.routes = host.routes ∧
      (setResolver fates host).2.head = some nameservers := by
  rw [setResolver] at h ⊢
  split_ifs at h ⊢ with hmktemp hhead hinstall
  · cases h
  · exact ⟨rfl, rfl, rfl, hhead⟩
  · cases h
  · exact ⟨rfl, rfl, rfl, rfl⟩
  · cases h

theorem setResolver_again (h : host.head = some nameservers) :
    (setResolver fates host).2 = host := by
  rw [setResolver, if_pos h]
  split_ifs <;> rfl

theorem setRoute_cases (h : setRoute fates gateway iface host = some after) :
    startsWith (currentDefault host.routes) (defaultVia gateway iface) = true ∧ after = host ∨
      startsWith (currentDefault host.routes) (defaultVia gateway iface) = false ∧
        ∃ value, ipv4Value gateway = some value ∧
          after = { host with routes := putDefault (newDefault value iface) host.routes } := by
  rw [setRoute] at h
  split_ifs at h with hstart hreplace
  · exact Or.inl ⟨hstart, (Option.some.inj h).symm⟩
  · obtain ⟨routes, hroutes, rfl⟩ := Option.map_eq_some_iff.mp h
    obtain ⟨value, hvalue, rfl⟩ := Option.map_eq_some_iff.mp hroutes
    exact Or.inr ⟨Bool.eq_false_iff.mpr hstart, value, hvalue, rfl⟩

variable (hprinted : host.Printed)
include hprinted

theorem words_of_candidate (hx : x ∈ candidates host.routes) (hgateway : gatewayWord x.2.2 ≠ [])
    (hdevice : deviceWord x.2.2 ≠ []) :
    x ∈ printed host.routes ∧ IsField (gatewayWord x.2.2) ∧ IsField (deviceWord x.2.2) := by
  obtain ⟨hx, -⟩ := List.mem_filter.mp hx
  exact ⟨hx, isField_after hprinted.table.each hx hgateway,
    isField_after hprinted.table.each hx hdevice⟩

theorem startsWith_words (hx : x ∈ candidates host.routes) (hgateway : gatewayWord x.2.2 ≠ [])
    (hdevice : deviceWord x.2.2 ≠ []) :
    startsWith (currentDefault host.routes) (defaultVia (gatewayWord x.2.2) (deviceWord x.2.2)) =
      true ↔ ∃ r value device, (defaults host.routes).head? = some r ∧ r.kind = .unicast ∧
        r.lead = [] ∧ r.hop = ⟨some (.v4 value), some device⟩ ∧
          gatewayWord x.2.2 = ipv4Text value ∧ deviceWord x.2.2 <+: device := by
  obtain ⟨-, hgateway, hdevice⟩ := words_of_candidate hprinted hx hgateway hdevice
  exact startsWith_currentDefault hprinted.table.each hgateway hdevice

theorem mem_of_head {r : Route} (h : (defaults host.routes).head? = some r) :
    r.Printed ∧ r.dest = .default := by
  obtain ⟨hr, hdest⟩ := List.mem_filter.mp (List.mem_of_mem_head? h)
  exact ⟨hprinted.table.each r hr, of_decide_eq_true hdest⟩

theorem setRoute_hop (hx : x ∈ candidates host.routes) (hgateway : gatewayWord x.2.2 ≠ [])
    (hdevice : deviceWord x.2.2 ≠ [])
    (hset : setRoute fates (gatewayWord x.2.2) (deviceWord x.2.2) host = some after) :
    ∃ value dev, x.2.1 = ⟨some (.v4 value), some dev⟩ ∧ value < 2 ^ 32 ∧ IsField dev ∧
      gatewayWord x.2.2 = ipv4Text value ∧ deviceWord x.2.2 = dev := by
  obtain ⟨hmem, hfield, hdevfield⟩ := words_of_candidate hprinted hx hgateway hdevice
  have hvalue : ∃ value, ipv4Value (gatewayWord x.2.2) = some value := by
    obtain ⟨hstart, -⟩ | ⟨-, value, hvalue, -⟩ := setRoute_cases hset
    · obtain ⟨r, value, device, hhead, -, -, hhop, hword, -⟩ :=
        (startsWith_words hprinted hx hgateway hdevice).mp hstart
      obtain ⟨hr, -⟩ := mem_of_head hprinted hhead
      have hlt : value < 2 ^ 32 := hr.hop.2 (.v4 value) (by rw [hhop]; rfl)
      exact ⟨value, by rw [hword, ipv4Value_ipv4Text hlt]⟩
    · exact ⟨value, hvalue⟩
  obtain ⟨value, hvalue⟩ := hvalue
  have hhop := gateway_of_word hprinted.table.each hmem hvalue
  obtain ⟨hgatewayWord, hdeviceWord⟩ := words_v4 hprinted.table.each hmem hhop
  cases hd : x.2.1.dev with
  | none =>
    rw [hd] at hdeviceWord
    exact absurd hdeviceWord hdevice
  | some dev =>
    rw [hd] at hdeviceWord
    have hdev : deviceWord x.2.2 = dev := hdeviceWord
    exact ⟨value, dev, by rw [← hhop, ← hd], ipv4Value_lt hvalue, hdev ▸ hdevfield,
      hgatewayWord, hdev⟩

end Runs

section Egress

variable {host after : Host} {fates : Fates} {x : Route × Hop × Str} {value : Nat} {dev : Str}
  {routes : List Route} {r : Route}

theorem served_of_head (h : PrintedTable routes) (hhead : (defaults routes).head? = some r)
    (hkind : r.kind = .unicast) (hhop : r.hop = ⟨some (.v4 value), some dev⟩) :
    Served routes ⟨some (.v4 value), some dev⟩ := by
  have hr : r.Printed := h.each r (List.mem_filter.mp (List.mem_of_mem_head? hhead)).1
  refine ⟨r, fun other => ?_, hkind, hhop, ?_⟩
  · rw [inEffect_iff h, hhead, Option.some.injEq]
    exact eq_comm
  · by_contra hnexthops
    have hnone := hr.several hnexthops
    rw [hhop] at hnone
    cases hnone

theorem setRoute_left (hprinted : host.Printed) (hx : candidates host.routes = [x])
    (hhop : x.2.1 = ⟨some (.v4 value), some dev⟩) (hsubnet : x.1.isSubnet = true)
    (hdevice : ∀ r device, (defaults host.routes).head? = some r → r.kind = .unicast →
      r.lead = [] → r.hop = ⟨some (.v4 value), some device⟩ → dev <+: device → device = dev)
    (hvalue : value < 2 ^ 32) (hdev : IsField dev)
    (hset : setRoute fates (ipv4Text value) dev host = some after) :
    after.addresses = host.addresses ∧ after.resolvconf = host.resolvconf ∧
      candidates after.routes = [x] ∧ Served after.routes ⟨some (.v4 value), some dev⟩ ∧
      startsWith (currentDefault after.routes) (defaultVia (ipv4Text value) dev) = true := by
  have htable := hprinted.table
  have hgateway := isField_ipv4Text value
  obtain ⟨hstart, rfl⟩ | ⟨-, other, hother, rfl⟩ := setRoute_cases hset
  · obtain ⟨r, other, device, hhead, hkind, hlead, hdefault, hsame, hprefix⟩ :=
      (startsWith_currentDefault htable.each hgateway hdev).mp hstart
    obtain ⟨hr, -⟩ := mem_of_head hprinted hhead
    have hlt : other < 2 ^ 32 := hr.hop.2 (.v4 other) (by rw [hdefault]; rfl)
    have heq : some value = some other := by
      rw [← ipv4Value_ipv4Text hvalue, ← ipv4Value_ipv4Text hlt, hsame]
    obtain rfl := Option.some.inj heq
    obtain rfl := hdevice r device hhead hkind hlead hdefault hprefix
    exact ⟨rfl, rfl, hx, served_of_head htable hhead hkind hdefault, hstart⟩
  · rw [ipv4Value_ipv4Text hvalue] at hother
    obtain rfl := Option.some.inj hother
    have hleft := printedTable_putDefault htable hvalue hdev
    have hhead : (defaults (putDefault (newDefault value dev) host.routes)).head? =
        some (newDefault value dev) := head_putDefault rfl
    have hcandidates : ∀ y ∈ candidates host.routes, y.1.dest ≠ .default := by
      intro y hy
      rw [hx] at hy
      rw [List.mem_singleton.mp hy]
      exact (of_decide_eq_true hsubnet).1
    refine ⟨rfl, rfl, ?_, served_of_head hleft hhead rfl rfl, ?_⟩
    · exact (candidates_putDefault (newDefault_no_candidate value dev) hcandidates).trans hx
    · exact (startsWith_currentDefault hleft.each hgateway hdev).mpr
        ⟨_, value, dev, hhead, rfl, rfl, rfl, rfl, List.prefix_rfl⟩

theorem gateways_of_candidate (hprinted : host.Printed) (hx : candidates host.routes = [x])
    (hgateway : x.2.1.gateway.isSome = true) :
    gateways host.routes = if x.1.isSubnet then [x.2.1] else [] := by
  rw [gateways_eq hprinted.table.each, hx]
  cases hsubnet : x.1.isSubnet with
  | false => rw [List.filter_cons_of_neg (by rw [hsubnet]; exact Bool.false_ne_true)]; rfl
  | true => rw [List.filter_cons_of_pos (by rw [hsubnet, hgateway]; rfl)]; rfl

theorem run_left (hprinted : host.Printed) (hsafe : Safe host) (hprivate : host.IsPrivate)
    (h : (run fates host).1.succeeds = true) :
    ∃ x value dev, x.2.1 = ⟨some (.v4 value), some dev⟩ ∧ x.1.isSubnet = true ∧
      gatewayWord x.2.2 = ipv4Text value ∧ deviceWord x.2.2 = dev ∧ IsField dev ∧
      candidates host.routes = [x] ∧ (run fates host).2.addresses = host.addresses ∧
      (run fates host).2.resolvconf = true ∧ candidates (run fates host).2.routes = [x] ∧
      Served (run fates host).2.routes ⟨some (.v4 value), some dev⟩ ∧
      startsWith (currentDefault (run fates host).2.routes) (defaultVia (ipv4Text value) dev) =
        true ∧ (run fates host).2.head = some nameservers := by
  have hpublic : hasPublicInterface host.addresses = false := by
    rw [Bool.eq_false_iff]
    exact fun hpublic => (hasPublicInterface_iff hprinted).mp hpublic hprivate
  obtain ⟨hresolvconf, x, after, hx, hgateway, hdevice, hset, hrun⟩ := run_succeeds hpublic h
  have hmem : x ∈ candidates host.routes := by
    rw [hx]
    exact List.mem_singleton_self x
  obtain ⟨value, dev, hhop, hvalue, hdev, hvia, hiface⟩ :=
    setRoute_hop hprinted hmem hgateway hdevice hset
  obtain ⟨hsubnet, hdevices⟩ := hsafe hprivate hresolvconf x value dev hx hhop
  rw [hvia, hiface] at hset
  obtain ⟨haddresses, hinstalled, hcandidates, hserved, hstart⟩ :=
    setRoute_left hprinted hx hhop hsubnet hdevices hvalue hdev hset
  rw [hrun] at h ⊢
  obtain ⟨haddresses', hinstalled', hroutes, hhead⟩ := setResolver_succeeds h
  refine ⟨x, value, dev, hhop, hsubnet, hvia, hiface, hdev, hx, haddresses'.trans haddresses,
    hinstalled'.trans (hinstalled.trans hresolvconf), ?_, ?_, ?_, hhead⟩
  · rw [hroutes]
    exact hcandidates
  · rw [hroutes]
    exact hserved
  · rw [hroutes]
    exact hstart

theorem meets_of_safe (hprinted : host.Printed) (hsafe : Safe host) : Meets host where
  untouched := fun fates hpublic => by
    rw [run_public ((hasPublicInterface_iff hprinted).mpr hpublic)]
  served := fun fates hprivate h => by
    obtain ⟨x, value, dev, hhop, hsubnet, -, -, -, hx, -, -, -, hserved, -, hhead⟩ :=
      run_left hprinted hsafe hprivate h
    have hgateway : x.2.1.gateway.isSome = true := by
      rw [hhop]
      rfl
    refine ⟨value, dev, ?_, hserved, hhead⟩
    rw [gateways_of_candidate hprinted hx hgateway, if_pos hsubnet, hhop]
  stopped := fun fates h => run_stopped h
  again := fun fates fates' h => by
    by_cases hprivate : host.IsPrivate
    · have hpublic : hasPublicInterface host.addresses = false := by
        rw [Bool.eq_false_iff]
        exact fun hpublic => (hasPublicInterface_iff hprinted).mp hpublic hprivate
      obtain ⟨x, value, dev, -, -, hvia, hiface, hdev, -, haddresses, hresolvconf, hx, -, hstart,
        hhead⟩ := run_left hprinted hsafe hprivate h
      rw [← haddresses] at hpublic
      have hset : setRoute fates' (ipv4Text value) dev (run fates host).2 =
          some (run fates host).2 := if_pos hstart
      rw [run_private hpublic hresolvconf hx]
      simp only [configure, hvia, hiface, hset]
      rw [if_neg (not_or.mpr ⟨(isField_ipv4Text value).1, hdev.1⟩)]
      exact setResolver_again hhead
    · have hnoop : ∀ fates, run fates host = (.noop, host) := fun fates =>
        run_public ((hasPublicInterface_iff hprinted).mpr hprivate)
      rw [hnoop fates, hnoop fates']

theorem run_configured (hprinted : host.Printed) (hprivate : host.IsPrivate)
    (hresolvconf : host.resolvconf = true) (hx : candidates host.routes = [x])
    (hhop : x.2.1 = ⟨some (.v4 value), some dev⟩) :
    value < 2 ^ 32 ∧ IsField dev ∧ ∃ after,
      setRoute ⟨true, true, true, true⟩ (ipv4Text value) dev host = some after ∧
        run ⟨true, true, true, true⟩ host = setResolver ⟨true, true, true, true⟩ after ∧
          (run ⟨true, true, true, true⟩ host).1 = .configured := by
  have hmem : x ∈ printed host.routes := by
    have hkept : x ∈ candidates host.routes := by
      rw [hx]
      exact List.mem_singleton_self x
    exact (List.mem_filter.mp hkept).1
  obtain ⟨-, -, -, -, -, -, -, hshape⟩ := fields_printed hprinted.table.each hmem
  have hvalue : value < 2 ^ 32 := hshape.2 (.v4 value) (by rw [hhop]; rfl)
  have hdev : IsField dev := hshape.1 dev (by rw [hhop]; rfl)
  obtain ⟨hvia, hiface⟩ := words_v4 hprinted.table.each hmem (by rw [hhop])
  have hiface : deviceWord x.2.2 = dev := by
    rw [hiface, hhop]
    rfl
  have hset : ∃ after, setRoute ⟨true, true, true, true⟩ (ipv4Text value) dev host =
      some after := by
    rw [setRoute]
    by_cases hstart : startsWith (currentDefault host.routes) (defaultVia (ipv4Text value) dev)
    · exact ⟨host, if_pos hstart⟩
    · refine ⟨{ host with routes := putDefault (newDefault value dev) host.routes }, ?_⟩
      rw [if_neg hstart, replaceDefault, ipv4Value_ipv4Text hvalue]
      rfl
  obtain ⟨after, hset⟩ := hset
  have hpublic : hasPublicInterface host.addresses = false := by
    rw [Bool.eq_false_iff]
    exact fun hpublic => (hasPublicInterface_iff hprinted).mp hpublic hprivate
  have hrun : run ⟨true, true, true, true⟩ host = setResolver ⟨true, true, true, true⟩ after := by
    rw [run_private hpublic hresolvconf hx]
    simp only [configure, hvia, hiface, hset]
    exact if_neg (not_or.mpr ⟨(isField_ipv4Text value).1, hdev.1⟩)
  refine ⟨hvalue, hdev, after, hset, hrun, ?_⟩
  rw [hrun, setResolver]
  by_cases hhead : after.head = some nameservers
  · rw [if_pos hhead]
    rfl
  · rw [if_neg hhead]
    rfl

theorem safe_of_meets (hprinted : host.Printed) (hmeets : Meets host) : Safe host := by
  intro hprivate hresolvconf x value dev hx hhop
  obtain ⟨hvalue, hdev, after, hset, hrun, hconfigured⟩ :=
    run_configured hprinted hprivate hresolvconf hx hhop
  have hsucceeds : (run ⟨true, true, true, true⟩ host).1.succeeds = true := by
    rw [hconfigured]
    rfl
  have hgateway : x.2.1.gateway.isSome = true := by
    rw [hhop]
    rfl
  obtain ⟨other, otherDev, hgateways, ⟨served, honly, -, hserved, -⟩, -⟩ :=
    hmeets.served _ hprivate hsucceeds
  rw [gateways_of_candidate hprinted hx hgateway] at hgateways
  cases hsubnet : x.1.isSubnet with
  | false =>
    rw [hsubnet] at hgateways
    cases hgateways
  | true =>
    rw [hsubnet, if_pos rfl, List.singleton_inj, hhop] at hgateways
    refine ⟨rfl, fun r device hhead hkind hlead hdefault hprefix => ?_⟩
    have hstart : startsWith (currentDefault host.routes) (defaultVia (ipv4Text value) dev) =
        true :=
      (startsWith_currentDefault hprinted.table.each (isField_ipv4Text value) hdev).mpr
        ⟨r, value, device, hhead, hkind, hlead, hdefault, rfl, hprefix⟩
    -- the route step leaves the table, so the first default route stays in effect
    have hafter : after = host := by
      rw [setRoute, if_pos hstart] at hset
      exact (Option.some.inj hset).symm
    rw [hrun] at hsucceeds honly
    obtain ⟨-, -, hroutes, -⟩ := setResolver_succeeds hsucceeds
    rw [hroutes, hafter] at honly
    have hr : r = served := (honly r).mp ((inEffect_iff hprinted.table).mpr hhead)
    rw [← hr, hdefault, ← hgateways] at hserved
    exact Option.some.inj (Hop.mk.inj hserved).2

/-- The script does what it is for on a private-only host exactly where its candidate is of a route
to a network and the text of no default route extends the one it looks for. -/
theorem egress_exactly (hprinted : host.Printed) : Meets host ↔ Safe host :=
  ⟨safe_of_meets hprinted, meets_of_safe hprinted⟩

def privateHost (iface : Str) : Host where
  addresses := [10 * 2 ^ 24 + 20 * 2 ^ 16 + 2]
  resolvconf := true
  routes :=
    [{ newDefault (10 * 2 ^ 24 + 20 * 2 ^ 16 + 1) iface with metric := 100 },
      { newDefault (10 * 2 ^ 24 + 20 * 2 ^ 16 + 1) "eth0".toList with
        dest := .net (10 * 2 ^ 24 + 20 * 2 ^ 16) 16 }]
  head := none
  refreshes := 0

theorem egress_exactly_vlan : Meets (privateHost "eth0.4000".toList) ↔
    Safe (privateHost "eth0.4000".toList) := by
  have heth0 : IsField "eth0".toList := ⟨by decide, by simp⟩
  have hvlan : IsField "eth0.4000".toList := ⟨by decide, by simp⟩
  have hgateway : 10 * 2 ^ 24 + 20 * 2 ^ 16 + 1 < 2 ^ 32 := by decide
  have hdefault := newDefault_printed hgateway hvlan
  have hnet := newDefault_printed hgateway heth0
  refine egress_exactly ⟨?_, ?_, ?_⟩
  · exact List.forall_mem_singleton.mpr (by decide)
  · refine List.forall_mem_cons.mpr ⟨?_, List.forall_mem_singleton.mpr ?_⟩
    · exact ⟨trivial, hdefault.lead, hdefault.hop, hdefault.more, hdefault.nexthops,
        hdefault.special, hdefault.several⟩
    · exact ⟨⟨by decide, by decide, by decide⟩, hnet.lead, hnet.hop, hnet.more, hnet.nexthops,
        hnet.special, hnet.several⟩
  · exact List.pairwise_singleton _ _

/-- A default route by a device whose name extends the wanted one is left in effect. -/
theorem vlan_default_stays : ¬ Meets (privateHost "eth0.4000".toList) := by
  intro h
  have hprivate : (privateHost "eth0.4000".toList).IsPrivate :=
    List.forall_mem_singleton.mpr (by decide)
  have hrun : (run ⟨true, true, true, true⟩ (privateHost "eth0.4000".toList)).1 = .configured ∧
      (run ⟨true, true, true, true⟩ (privateHost "eth0.4000".toList)).2.routes =
        (privateHost "eth0.4000".toList).routes := by
    decide +kernel
  have hgateways : gateways (privateHost "eth0.4000".toList).routes =
      [⟨some (.v4 (10 * 2 ^ 24 + 20 * 2 ^ 16 + 1)), some "eth0".toList⟩] := by
    decide +kernel
  obtain ⟨value, dev, hway, ⟨r, honly, -, hhop, -⟩, -⟩ :=
    h.served ⟨true, true, true, true⟩ hprivate (by rw [hrun.1]; rfl)
  rw [hgateways, List.singleton_inj] at hway
  rw [hrun.2] at honly
  have hfirst : InEffect (privateHost "eth0.4000".toList).routes
      { newDefault (10 * 2 ^ 24 + 20 * 2 ^ 16 + 1) "eth0.4000".toList with metric := 100 } :=
    ⟨[], [], rfl, fun other hmem => absurd hmem List.not_mem_nil,
      fun other hmem => absurd hmem List.not_mem_nil⟩
  have hr := (honly _).mp hfirst
  rw [← hr, ← hway] at hhop
  have hdev := Option.some.inj (Hop.mk.inj hhop).2
  exact absurd hdev (by decide)

end Egress

end SharedInfra.HostEgress
