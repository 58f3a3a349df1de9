import SharedInfra.Edge.Routes

/-!
# Where a rendered edge sends a hostname

Whether every hostname of a rendered Caddyfile has one place to go (`RoutedOnce`)
comes down to four things the renderer does not check about its registry
(`Consistent`): that no two live redirects start at one hostname, that none leads
to another, that an upstream's host is a name of the address plan, and, where the
general throttle is on, that the names the zones are built from differ.
-/

namespace SharedInfra.Edge

open Python Effects

namespace Route

def upstreams (route : Route) : List Str :=
  route.clauses.filterMap fun
    | .proxy upstream => some upstream
    | _ => none

def targets (route : Route) : List Str :=
  route.clauses.filterMap fun
    | .redir target => some target
    | _ => none

def zones (route : Route) : List Str :=
  route.clauses.filterMap fun
    | .zone zone => some zone
    | _ => none

end Route

/-- An entry of the registry that blocks are rendered for. -/
inductive Owner where
  | edge (entry : EdgeSite)
  | static (entry : StaticSite)

def Owner.hostnames : Owner → List Str
  | edge entry => entry.hostnames
  | static entry => [entry.hostname]

def Owner.Serves (owner : Owner) (route : Route) : Prop :=
  ∃ address ∈ route.addresses, address ∈ owner.hostnames

/-- The names the entry's zones are built from. -/
def Owner.stems (redirects : List HostRedirect) : Owner → List Str
  | edge entry =>
    (if serving redirects entry = [] then [] else [entry.name]) ++
      if redirectsOf redirects entry = [] then [] else [entry.name ++ "_redirect".toList]
  | static entry => [entry.name]

def owners (sites : List EdgeSite) (staticSites : List StaticSite) : List Owner :=
  (servableSites sites).map Owner.edge ++ staticSites.map Owner.static

/-- The hostname is in one proxy block, which leads to the site's own host and port. -/
def ProxiedOnce (site : EdgeSite) (hostname : Str) (routes : List Route) : Prop :=
  routes.countP (fun route => hostname ∈ route.addresses ∧ route.upstreams ≠ []) = 1 ∧
    ∀ route ∈ routes, hostname ∈ route.addresses → route.upstreams ≠ [] →
      ∃ upstream address, site.privateUpstream = some upstream ∧
        (upstream.host, address) ∈ addressPlan ∧
        route.upstreams = [address ++ ':' :: upstream.port.text]

/-- The hostname is the source of one redirect block. -/
def RedirectedOnce (hostname : Str) (routes : List Route) : Prop :=
  routes.countP (fun route => hostname ∈ route.addresses ∧ route.targets ≠ []) = 1

structure RoutedOnce (sites : List EdgeSite) (staticSites : List StaticSite)
    (routes : List Route) : Prop where
  addresses : routes.Pairwise fun a b => ∀ address ∈ a.addresses, address ∉ b.addresses
  hostnames : ∀ site ∈ servableSites sites, ∀ hostname ∈ site.hostnames,
    ProxiedOnce site hostname routes ∨ RedirectedOnce hostname routes
  upstreams : routes.Pairwise fun a b => ∀ upstream ∈ a.upstreams, upstream ∉ b.upstreams
  targets : ∀ route ∈ routes, ∀ target ∈ route.targets,
    ∃ proxy ∈ routes, target ∈ proxy.addresses ∧ proxy.upstreams ≠ []
  zones : ∀ owner ∈ owners sites staticSites, ∀ other ∈ owners sites staticSites, owner ≠ other →
    ∀ a ∈ routes, ∀ b ∈ routes, owner.Serves a → other.Serves b →
      ∀ zone ∈ a.zones, zone ∈ b.zones → zone = membersMagicLinkZone

structure Consistent (sites : List EdgeSite) (hostRedirects : List HostRedirect)
    (posture : EdgePosture) (staticSites : List StaticSite) : Prop where
  sources : ((liveRedirects (servableSites sites) hostRedirects).map (·.source)).Nodup
  unchained : ∀ redirect ∈ liveRedirects (servableSites sites) hostRedirects,
    ∀ other ∈ liveRedirects (servableSites sites) hostRedirects, redirect.target ≠ other.source
  hosts : ∀ site ∈ servableSites sites,
    serving (liveRedirects (servableSites sites) hostRedirects) site ≠ [] →
      ∀ upstream, site.privateUpstream = some upstream →
        ∃ address, (upstream.host, address) ∈ addressPlan
  zones : posture.rateLimitEnforcing = true →
    ∀ owner ∈ owners sites staticSites, ∀ other ∈ owners sites staticSites, owner ≠ other →
      ∀ stem ∈ owner.stems (liveRedirects (servableSites sites) hostRedirects),
        stem ∈ other.stems (liveRedirects (servableSites sites) hostRedirects) →
          stem = "members_magic_link".toList

section Rendered

/-- What is known of the routes of a file that was rendered. -/
structure Rendered (servable : List EdgeSite) (redirects : List HostRedirect)
    (posture : EdgePosture) (staticSites : List StaticSite) (routes : List Route) : Prop where
  routes_eq : routes = servable.flatMap (siteRoutes posture redirects) ++
    staticSites.map (staticRoute posture) ++ ownRoutes posture
  checked : ∀ site ∈ servable, SiteChecked redirects site
  keys : servable.Pairwise fun a b => ∀ key, upstreamKey a = some key → upstreamKey b ≠ some key
  nodup : (servable.flatMap (·.hostnames)).Nodup
  statics : ∀ site ∈ staticSites, isHostname site.hostname = true ∧
    site.hostname ∉ servable.flatMap (·.hostnames)
  statics_ne : staticSites.Pairwise fun a b => a.hostname ≠ b.hostname

theorem rendered_of_blocks {page : Page} {sites : List EdgeSite} {hostRedirects : List HostRedirect}
    {posture : EdgePosture} {staticSites : List StaticSite} {blocks : List Block}
    (h : caddyBlocks page sites hostRedirects posture staticSites = .ok blocks) :
    Rendered (servableSites sites) (liveRedirects (servableSites sites) hostRedirects) posture
      staticSites (blocks.map Block.route) := by
  obtain ⟨⟨⟩, hupstreams, h⟩ := bind_eq_ok_iff.mp h
  obtain ⟨⟨⟩, hhostnames, h⟩ := bind_eq_ok_iff.mp h
  obtain ⟨⟨⟩, hstatic, h⟩ := bind_eq_ok_iff.mp h
  obtain ⟨sited, hsited, h⟩ := bind_eq_ok_iff.mp h
  obtain ⟨statics, hstatics, h⟩ := bind_eq_ok_iff.mp h
  cases h
  obtain ⟨hroutes, hchecked⟩ := mapM_blocksOf hsited
  obtain ⟨hstaticRoutes, hvalid⟩ := mapM_staticBlock hstatics
  obtain ⟨happart, hne⟩ := assertStatic_ok hstatic
  refine ⟨?_, hchecked, (assertUpstreams_ok hupstreams).2, (assertHostnames_ok hhostnames).1,
    fun site hsite => ⟨hvalid site hsite, (happart site hsite).1⟩, hne⟩
  rw [List.map_append, List.map_append, hroutes, hstaticRoutes, List.map_cons, List.map_cons,
    probeBlock_route, probeBlock_route]
  rfl

theorem resolved_of_plan {upstream : PrivateUpstream} {text address : Str}
    (hplan : (upstream.host, address) ∈ addressPlan)
    (h : resolvePrivateAddress upstream.host upstream.port = .ok text) :
    text = address ++ ':' :: upstream.port.text := by
  have hall : ∀ entry ∈ addressPlan, privateAddress entry.1 = some entry.2 := by decide
  have haddress : privateAddress upstream.host = some address := hall _ hplan
  rw [resolvePrivateAddress] at h
  split_ifs at h
  rw [haddress] at h
  dsimp only at h
  split at h
  · split_ifs at h
    cases h
    simp [*]
  · cases h

theorem takeWhile_colon {address port : Str} (h : ':' ∉ address) :
    (address ++ ':' :: port).takeWhile (· ≠ ':') = address := by
  have hall : ∀ c ∈ address, decide (c ≠ ':') = true := by
    intro c hc
    rw [decide_eq_true_eq]
    rintro rfl
    exact h hc
  rw [List.takeWhile_append_of_pos hall]
  simp

theorem key_of_address {host host' address address' port port' : Str}
    (hplan : (host, address) ∈ addressPlan) (hplan' : (host', address') ∈ addressPlan)
    (h : address ++ ':' :: port = address' ++ ':' :: port') :
    host ++ ':' :: port = host' ++ ':' :: port' := by
  have hcolon : ∀ entry ∈ addressPlan, ':' ∉ entry.2 := by decide
  have hinj : ∀ entry ∈ addressPlan, ∀ other ∈ addressPlan, entry.2 = other.2 → entry.1 = other.1 := by
    decide
  have haddress : address = address' := by
    have hfirst : (address ++ ':' :: port).takeWhile (· ≠ ':') = address :=
      takeWhile_colon (hcolon _ hplan)
    rw [← hfirst, h]
    exact takeWhile_colon (hcolon _ hplan')
  subst haddress
  obtain rfl : host = host' := hinj _ hplan _ hplan' rfl
  rw [List.append_cancel_left h]

variable {servable : List EdgeSite} {redirects : List HostRedirect} {posture : EdgePosture}
  {staticSites : List StaticSite} {routes : List Route} {route : Route} {site : EdgeSite}

@[simp] theorem proxyRoute_upstreams :
    (proxyRoute posture redirects site).upstreams = [resolved site] := by
  rw [Route.upstreams, proxyRoute, generalZone, magicLinkZone]
  split_ifs <;> rfl

@[simp] theorem proxyRoute_targets : (proxyRoute posture redirects site).targets = [] := by
  rw [Route.targets, proxyRoute, generalZone, magicLinkZone]
  split_ifs <;> rfl

@[simp] theorem redirectRoute_upstreams {redirect : HostRedirect} :
    (redirectRoute posture site redirect).upstreams = [] := by
  rw [Route.upstreams, redirectRoute, generalZone]
  split_ifs <;> rfl

@[simp] theorem redirectRoute_targets {redirect : HostRedirect} :
    (redirectRoute posture site redirect).targets = [redirect.target] := by
  rw [Route.targets, redirectRoute, generalZone]
  split_ifs <;> rfl

theorem answered_here (h : (∃ entry ∈ staticSites, route = staticRoute posture entry) ∨
    route ∈ ownRoutes posture) : route.upstreams = [] ∧ route.targets = [] := by
  rcases h with ⟨entry, -, rfl⟩ | hown
  · rw [Route.upstreams, Route.targets, staticRoute, generalZone]
    split_ifs <;> exact ⟨rfl, rfl⟩
  · simp only [ownRoutes, List.mem_cons, List.not_mem_nil, or_false] at hown
    rcases hown with rfl | rfl | rfl
    all_goals
      rw [Route.upstreams, Route.targets]
      cases hrate : posture.rateLimitEnforcing <;>
        cases hmagic : posture.membersMagicLinkRateLimitEnforcing <;>
          simp [generalZone, magicLinkZone, hrate, hmagic]

theorem mem_siteRoutes : route ∈ siteRoutes posture redirects site ↔
    (serving redirects site ≠ [] ∧ route = proxyRoute posture redirects site) ∨
      ∃ redirect ∈ redirectsOf redirects site, route = redirectRoute posture site redirect := by
  rw [siteRoutes, List.mem_append, List.mem_map]
  refine or_congr ?_ (exists_congr fun redirect => and_congr_right fun _ => eq_comm)
  split_ifs with hnone <;> simp [hnone]

theorem mem_routes (h : Rendered servable redirects posture staticSites routes) :
    route ∈ routes ↔ (∃ site ∈ servable, route ∈ siteRoutes posture redirects site) ∨
      (∃ entry ∈ staticSites, route = staticRoute posture entry) ∨ route ∈ ownRoutes posture := by
  rw [h.routes_eq, List.mem_append, List.mem_append, List.mem_flatMap, List.mem_map, or_assoc]
  simp only [eq_comm]

theorem colon_not_mem {hostname : Str} (h : isHostname hostname = true) : ':' ∉ hostname := by
  rw [isHostname, Bool.and_eq_true] at h
  have hlabels : ∀ label ∈ splitOnChar '.' hostname, ∀ c ∈ label, c ≠ ':' := by
    rintro label hlabel c hc rfl
    have hlabel := List.all_eq_true.mp h.2 label hlabel
    simp only [isLabel, Bool.and_eq_true, List.all_eq_true] at hlabel
    exact absurd (hlabel.1.1.2 ':' hc) (by decide)
  have hall : ∀ c ∈ hostname, c ≠ ':' := chars_of_pieces (by decide) hlabels
  exact fun hmem => hall ':' hmem rfl

theorem colon_mem_own {address : Str} (hown : route ∈ ownRoutes posture)
    (haddress : address ∈ route.addresses) : ':' ∈ address := by
  simp only [ownRoutes, List.mem_cons, List.not_mem_nil, or_false] at hown
  rcases hown with rfl | rfl | rfl <;>
    (rw [List.mem_singleton.mp haddress]; decide)

theorem mem_serving {hostname : Str} : hostname ∈ serving redirects site ↔
    hostname ∈ site.hostnames ∧ hostname ∉ redirects.map (·.source) := by
  simp [serving]

theorem mem_redirectsOf {redirect : HostRedirect} : redirect ∈ redirectsOf redirects site ↔
    redirect ∈ redirects ∧ redirect.source ∈ site.hostnames := by
  simp [redirectsOf]

theorem addresses_of_site (hroute : route ∈ siteRoutes posture redirects site) {address : Str}
    (haddress : address ∈ route.addresses) : address ∈ site.hostnames := by
  rcases mem_siteRoutes.mp hroute with ⟨-, rfl⟩ | ⟨redirect, hredirect, rfl⟩
  · exact (mem_serving.mp haddress).1
  · rw [List.mem_singleton.mp haddress]
    exact (mem_redirectsOf.mp hredirect).2

theorem isHostname_of_mem (h : Rendered servable redirects posture staticSites routes)
    (hsite : site ∈ servable) {hostname : Str} (hmem : hostname ∈ site.hostnames) :
    isHostname hostname = true := by
  by_cases hsource : hostname ∈ redirects.map (·.source)
  · obtain ⟨redirect, hredirect, rfl⟩ := List.mem_map.mp hsource
    exact (h.checked site hsite).sources redirect (mem_redirectsOf.mpr ⟨hredirect, hmem⟩)
  · exact (h.checked site hsite).hostnames hostname (mem_serving.mpr ⟨hmem, hsource⟩)

theorem site_of_hostname (h : Rendered servable redirects posture staticSites routes)
    {other : EdgeSite} (hsite : site ∈ servable) (hother : other ∈ servable) {hostname : Str}
    (hmem : hostname ∈ site.hostnames) (hmem' : hostname ∈ other.hostnames) : site = other := by
  by_contra hne
  have hsymm : Std.Symm fun a b : EdgeSite => List.Disjoint a.hostnames b.hostnames :=
    ⟨fun _ _ hdisjoint => hdisjoint.symm⟩
  have hpairs : servable.Pairwise fun a b => List.Disjoint a.hostnames b.hostnames :=
    (List.nodup_flatMap.mp h.nodup).2
  exact hpairs.forall hsite hother hne hmem hmem'

/-- The sources of a site's redirects, and then those of all live ones, are told apart by the
addresses of their blocks. -/
theorem sources_of_addresses (h : Rendered servable redirects posture staticSites routes)
    (hlive : ∀ redirect ∈ redirects, redirect.source ∈ servable.flatMap (·.hostnames))
    (haddresses : routes.Pairwise fun a b => ∀ address ∈ a.addresses, address ∉ b.addresses) :
    (redirects.map (·.source)).Nodup := by
  rw [h.routes_eq, List.pairwise_append, List.pairwise_append, List.pairwise_flatMap] at haddresses
  rw [List.Nodup, List.pairwise_map, List.pairwise_iff_forall_sublist]
  intro a b hsublist heq
  obtain ⟨site, hsite, hmem⟩ :=
    List.mem_flatMap.mp (hlive a (hsublist.subset (List.mem_cons_self ..)))
  have hsite' := haddresses.1.1.1 site hsite
  rw [siteRoutes, List.pairwise_append, List.pairwise_map] at hsite'
  have hboth : [a, b].Sublist (redirectsOf redirects site) := by
    have hfilter := hsublist.filter fun redirect => decide (redirect.source ∈ site.hostnames)
    have hkept : [a, b].filter (fun redirect => decide (redirect.source ∈ site.hostnames)) =
        [a, b] := by
      simp [hmem, ← heq]
    rwa [hkept] at hfilter
  exact List.pairwise_iff_forall_sublist.mp hsite'.2.1 hboth _ (List.mem_singleton_self _) (heq ▸ List.mem_singleton_self _)

theorem not_proxied (h : Rendered servable redirects posture staticSites routes)
    {redirect : HostRedirect} (hredirect : redirect ∈ redirects) (hroute : route ∈ routes)
    (haddress : redirect.source ∈ route.addresses) : route.upstreams = [] := by
  rcases (mem_routes h).mp hroute with ⟨site, -, hsited⟩ | hother
  · rcases mem_siteRoutes.mp hsited with ⟨-, rfl⟩ | ⟨_, -, rfl⟩
    · exact absurd (List.mem_map_of_mem hredirect) (mem_serving.mp haddress).2
    · exact redirectRoute_upstreams
  · exact (answered_here hother).1

theorem redirectRoute_mem (h : Rendered servable redirects posture staticSites routes)
    {redirect : HostRedirect} (hredirect : redirect ∈ redirects)
    (hsource : redirect.source ∈ servable.flatMap (·.hostnames)) :
    ∃ site ∈ servable, redirect.source ∈ site.hostnames ∧
      redirectRoute posture site redirect ∈ routes := by
  obtain ⟨site, hsite, hmem⟩ := List.mem_flatMap.mp hsource
  exact ⟨site, hsite, hmem, (mem_routes h).mpr (.inl ⟨site, hsite,
    mem_siteRoutes.mpr (.inr ⟨redirect, mem_redirectsOf.mpr ⟨hredirect, hmem⟩, rfl⟩)⟩)⟩

theorem proxyRoute_mem (h : Rendered servable redirects posture staticSites routes)
    (hsite : site ∈ servable) (hserving : serving redirects site ≠ []) :
    proxyRoute posture redirects site ∈ routes :=
  (mem_routes h).mpr (.inl ⟨site, hsite, mem_siteRoutes.mpr (.inl ⟨hserving, rfl⟩)⟩)

theorem redirect_of_targets (h : Rendered servable redirects posture staticSites routes)
    (hroute : route ∈ routes) (htargets : route.targets ≠ []) :
    ∃ redirect ∈ redirects, ∃ site, route = redirectRoute posture site redirect := by
  rcases (mem_routes h).mp hroute with ⟨site, -, hsited⟩ | hother
  · rcases mem_siteRoutes.mp hsited with ⟨-, rfl⟩ | ⟨redirect, hredirect, rfl⟩
    · exact absurd proxyRoute_targets htargets
    · exact ⟨redirect, (mem_redirectsOf.mp hredirect).1, site, rfl⟩
  · exact absurd (answered_here hother).2 htargets

theorem site_of_upstreams (h : Rendered servable redirects posture staticSites routes)
    (hroute : route ∈ routes) (hupstreams : route.upstreams ≠ []) :
    ∃ site ∈ servable, serving redirects site ≠ [] ∧ route = proxyRoute posture redirects site := by
  rcases (mem_routes h).mp hroute with ⟨site, hsite, hsited⟩ | hother
  · rcases mem_siteRoutes.mp hsited with ⟨hserving, rfl⟩ | ⟨redirect, -, rfl⟩
    · exact ⟨site, hsite, hserving, rfl⟩
    · exact absurd redirectRoute_upstreams hupstreams
  · exact absurd (answered_here hother).1 hupstreams

theorem mem_zones_proxy {zone : Str} : zone ∈ (proxyRoute posture redirects site).zones ↔
    (posture.rateLimitEnforcing = true ∧ zone = site.name ++ "_per_ip".toList) ∨
      (posture.membersMagicLinkRateLimitEnforcing = true ∧ zone = membersMagicLinkZone) := by
  cases hrate : posture.rateLimitEnforcing <;>
    cases hmagic : posture.membersMagicLinkRateLimitEnforcing <;>
      simp [Route.zones, proxyRoute, generalZone, magicLinkZone, hrate, hmagic]

theorem mem_zones_redirect {redirect : HostRedirect} {zone : Str} :
    zone ∈ (redirectRoute posture site redirect).zones ↔
      posture.rateLimitEnforcing = true ∧ zone = site.name ++ "_redirect_per_ip".toList := by
  cases hrate : posture.rateLimitEnforcing <;>
    simp [Route.zones, redirectRoute, generalZone, hrate]

theorem mem_zones_static {entry : StaticSite} {zone : Str} :
    zone ∈ (staticRoute posture entry).zones ↔
      posture.rateLimitEnforcing = true ∧ zone = entry.name ++ "_per_ip".toList := by
  cases hrate : posture.rateLimitEnforcing <;>
    simp [Route.zones, staticRoute, generalZone, hrate]

/-- What an entry's stem gives its zones. -/
def zoneOf (stem : Str) : Str := stem ++ "_per_ip".toList

theorem zoneOf_redirect (name : Str) :
    name ++ "_redirect_per_ip".toList = zoneOf (name ++ "_redirect".toList) := by
  rw [zoneOf, List.append_assoc]
  rfl

theorem name_mem_stems (h : serving redirects site ≠ []) :
    site.name ∈ (Owner.edge site).stems redirects := by
  rw [Owner.stems, if_neg h]
  exact List.mem_append_left _ (List.mem_singleton_self _)

theorem redirect_mem_stems (h : redirectsOf redirects site ≠ []) :
    site.name ++ "_redirect".toList ∈ (Owner.edge site).stems redirects := by
  rw [Owner.stems, if_neg h]
  exact List.mem_append_right _ (List.mem_singleton_self _)

theorem zone_of_serves {sites : List EdgeSite} {owner : Owner} {zone : Str}
    (h : Rendered (servableSites sites) redirects posture staticSites routes)
    (howner : owner ∈ owners sites staticSites) (hroute : route ∈ routes)
    (hserves : owner.Serves route) (hzone : zone ∈ route.zones) :
    zone = membersMagicLinkZone ∨ posture.rateLimitEnforcing = true ∧
      ∃ stem ∈ owner.stems redirects, zone = zoneOf stem := by
  obtain ⟨address, haddress, hown⟩ := hserves
  rw [owners, List.mem_append, List.mem_map, List.mem_map] at howner
  rcases (mem_routes h).mp hroute with ⟨site, hsite, hsited⟩ | ⟨entry, hentry, rfl⟩ | hours
  · rcases howner with ⟨other, hother, rfl⟩ | ⟨entry, hentry, rfl⟩
    · obtain rfl := site_of_hostname h hsite hother (addresses_of_site hsited haddress) hown
      rcases mem_siteRoutes.mp hsited with ⟨hserving, rfl⟩ | ⟨redirect, hredirect, rfl⟩
      · rcases mem_zones_proxy.mp hzone with ⟨hrate, rfl⟩ | ⟨-, rfl⟩
        · exact .inr ⟨hrate, _, name_mem_stems hserving, rfl⟩
        · exact .inl rfl
      · obtain ⟨hrate, rfl⟩ := mem_zones_redirect.mp hzone
        exact .inr ⟨hrate, _, redirect_mem_stems (List.ne_nil_of_mem hredirect),
          zoneOf_redirect site.name⟩
    · obtain rfl := List.mem_singleton.mp hown
      exact absurd (List.mem_flatMap.mpr ⟨site, hsite, addresses_of_site hsited haddress⟩)
        (h.statics entry hentry).2
  · obtain rfl := List.mem_singleton.mp haddress
    rcases howner with ⟨other, hother, rfl⟩ | ⟨other, hother, rfl⟩
    · exact absurd (List.mem_flatMap.mpr ⟨other, hother, hown⟩) (h.statics entry hentry).2
    · have hsame : entry = other := by
        by_contra hne
        have hsymm : Std.Symm fun a b : StaticSite => a.hostname ≠ b.hostname :=
          ⟨fun _ _ hab => hab.symm⟩
        exact h.statics_ne.forall hentry hother hne (List.mem_singleton.mp hown)
      obtain ⟨hrate, rfl⟩ := mem_zones_static.mp hzone
      exact .inr ⟨hrate, entry.name, hsame ▸ List.mem_singleton_self _, rfl⟩
  · have hcolon := colon_mem_own hours haddress
    rcases howner with ⟨other, hother, rfl⟩ | ⟨other, hother, rfl⟩
    · exact absurd hcolon (colon_not_mem (isHostname_of_mem h hother hown))
    · rw [List.mem_singleton.mp hown] at hcolon
      exact absurd hcolon (colon_not_mem (h.statics other hother).1)

theorem serves_of_stem {sites : List EdgeSite} {owner : Owner} {stem : Str}
    (h : Rendered (servableSites sites) redirects posture staticSites routes)
    (howner : owner ∈ owners sites staticSites) (hrate : posture.rateLimitEnforcing = true)
    (hstem : stem ∈ owner.stems redirects) :
    ∃ route ∈ routes, owner.Serves route ∧ zoneOf stem ∈ route.zones := by
  rw [owners, List.mem_append, List.mem_map, List.mem_map] at howner
  rcases howner with ⟨site, hsite, rfl⟩ | ⟨entry, hentry, rfl⟩
  · rw [Owner.stems, List.mem_append] at hstem
    rcases hstem with hstem | hstem
    · split_ifs at hstem with hnone
      · cases hstem
      · obtain rfl := List.mem_singleton.mp hstem
        obtain ⟨hostname, hhostname⟩ := List.exists_mem_of_ne_nil _ hnone
        exact ⟨_, proxyRoute_mem h hsite hnone, ⟨hostname, hhostname, (mem_serving.mp hhostname).1⟩,
          mem_zones_proxy.mpr (.inl ⟨hrate, rfl⟩)⟩
    · split_ifs at hstem with hnone
      · cases hstem
      · obtain rfl := List.mem_singleton.mp hstem
        obtain ⟨redirect, hredirect⟩ := List.exists_mem_of_ne_nil _ hnone
        refine ⟨redirectRoute posture site redirect, (mem_routes h).mpr (.inl ⟨site, hsite,
          mem_siteRoutes.mpr (.inr ⟨redirect, hredirect, rfl⟩)⟩),
          ⟨redirect.source, List.mem_singleton_self _, (mem_redirectsOf.mp hredirect).2⟩, ?_⟩
        exact mem_zones_redirect.mpr ⟨hrate, (zoneOf_redirect site.name).symm⟩
  · obtain rfl := List.mem_singleton.mp hstem
    exact ⟨_, (mem_routes h).mpr (.inr (.inl ⟨entry, hentry, rfl⟩)),
      ⟨entry.hostname, List.mem_singleton_self _, List.mem_singleton_self _⟩,
      mem_zones_static.mpr ⟨hrate, rfl⟩⟩

section Directions

variable {sites : List EdgeSite} {hostRedirects : List HostRedirect}

theorem consistent_of_routedOnce
    (h : Rendered (servableSites sites) (liveRedirects (servableSites sites) hostRedirects) posture
      staticSites routes)
    (honce : RoutedOnce sites staticSites routes) :
    Consistent sites hostRedirects posture staticSites := by
  have hsources : ∀ redirect ∈ liveRedirects (servableSites sites) hostRedirects,
      redirect.source ∈ (servableSites sites).flatMap (·.hostnames) := by
    intro redirect hredirect
    exact (of_decide_eq_true (List.mem_filter.mp hredirect).2).1
  refine ⟨sources_of_addresses h hsources honce.addresses, ?_, ?_, ?_⟩
  · intro redirect hredirect other hother heq
    obtain ⟨site, -, -, hroute⟩ := redirectRoute_mem h hredirect (hsources redirect hredirect)
    obtain ⟨proxy, hproxy, haddress, hupstreams⟩ := honce.targets _ hroute redirect.target
      (by rw [redirectRoute_targets]; exact List.mem_singleton_self _)
    rw [heq] at haddress
    exact hupstreams (not_proxied h hother hproxy haddress)
  · intro site hsite hserving upstream hupstream
    obtain ⟨hostname, hhostname⟩ := List.exists_mem_of_ne_nil _ hserving
    have hroute := proxyRoute_mem h hsite hserving
    rcases honce.hostnames site hsite hostname (mem_serving.mp hhostname).1 with
      ⟨-, hproxied⟩ | hredirected
    · obtain ⟨upstream', address, hupstream', hplan, -⟩ := hproxied _ hroute hhostname
        (by rw [proxyRoute_upstreams]; exact List.cons_ne_nil _ _)
      rw [hupstream] at hupstream'
      cases hupstream'
      exact ⟨address, hplan⟩
    · have hpos : 0 < routes.countP fun route => hostname ∈ route.addresses ∧ route.targets ≠ [] := by
        rw [hredirected]
        exact Nat.one_pos
      obtain ⟨route, hmem, hroute⟩ := List.countP_pos_iff.mp hpos
      obtain ⟨haddress, htargets⟩ := of_decide_eq_true hroute
      obtain ⟨redirect, hredirect, owner, rfl⟩ := redirect_of_targets h hmem htargets
      exact absurd (List.mem_map_of_mem hredirect)
        (List.mem_singleton.mp haddress ▸ (mem_serving.mp hhostname).2)
  · intro hrate owner howner other hother hne stem hstem hstem'
    obtain ⟨a, ha, hserves, hzone⟩ := serves_of_stem h howner hrate hstem
    obtain ⟨b, hb, hserves', hzone'⟩ := serves_of_stem h hother hrate hstem'
    have hmagic := honce.zones owner howner other hother hne a ha b hb hserves hserves' _ hzone hzone'
    exact List.append_cancel_right (show stem ++ _ = "members_magic_link".toList ++ _ from hmagic)

theorem countP_eq_one {p : Route → Bool} {address : Str}
    (hpairs : routes.Pairwise fun a b => ∀ address ∈ a.addresses, address ∉ b.addresses)
    (hp : ∀ route, p route = true → address ∈ route.addresses) (hmem : route ∈ routes)
    (hroute : p route = true) : routes.countP p = 1 := by
  induction hpairs with
  | nil => cases hmem
  | cons hfirst hrest ih =>
    rename_i first rest
    by_cases hpfirst : p first = true
    · have hnone : rest.countP p = 0 := by
        rw [List.countP_eq_zero]
        exact fun other hother hpother =>
          hfirst other hother address (hp first hpfirst) (hp other hpother)
      rw [List.countP_cons_of_pos hpfirst, hnone]
    · rw [List.countP_cons_of_neg hpfirst]
      refine ih ((List.mem_cons.mp hmem).resolve_left ?_)
      rintro rfl
      exact hpfirst hroute

theorem siteRoutes_pairwise (hsources : (redirects.map (·.source)).Nodup) :
    (siteRoutes posture redirects site).Pairwise
      fun a b => ∀ address ∈ a.addresses, address ∉ b.addresses := by
  rw [siteRoutes, List.pairwise_append, List.pairwise_map]
  refine ⟨by split_ifs <;> simp, ?_, fun a ha b hb address haddress haddress' => ?_⟩
  · have hfiltered : (redirectsOf redirects site).Pairwise fun a b => a.source ≠ b.source := by
      rw [List.Nodup, List.pairwise_map] at hsources
      exact hsources.filter _
    refine hfiltered.imp fun hne address haddress haddress' => hne ?_
    exact (List.mem_singleton.mp haddress).symm.trans (List.mem_singleton.mp haddress')
  · split_ifs at ha with hserving
    · cases ha
    · obtain rfl := List.mem_singleton.mp ha
      obtain ⟨redirect, hredirect, rfl⟩ := List.mem_map.mp hb
      rw [List.mem_singleton.mp haddress'] at haddress
      exact (mem_serving.mp haddress).2 (List.mem_map_of_mem (mem_redirectsOf.mp hredirect).1)

theorem ownRoutes_pairwise : (ownRoutes posture).Pairwise
    fun a b => ∀ address ∈ a.addresses, address ∉ b.addresses := by
  have haddresses : List.Pairwise (fun a b : List Str => ∀ address ∈ a, address ∉ b)
      [["http://edge-probe.invalid:8080"], [":8080"], [":9091"]] := by
    decide
  have hmap : (ownRoutes posture).map Route.addresses =
      ([["http://edge-probe.invalid:8080"], [":8080"], [":9091"]] : List (List Str)) := rfl
  rw [← hmap, List.pairwise_map] at haddresses
  exact haddresses

theorem addresses_pairwise (h : Rendered servable redirects posture staticSites routes)
    (hsources : (redirects.map (·.source)).Nodup) :
    routes.Pairwise fun a b => ∀ address ∈ a.addresses, address ∉ b.addresses := by
  rw [h.routes_eq, List.pairwise_append, List.pairwise_append, List.pairwise_flatMap,
    List.pairwise_map]
  refine ⟨⟨⟨fun site _ => siteRoutes_pairwise hsources, ?_⟩, ?_, ?_⟩, ownRoutes_pairwise, ?_⟩
  · refine (List.nodup_flatMap.mp h.nodup).2.imp fun hdisjoint a ha b hb address haddress haddress' => ?_
    exact hdisjoint (addresses_of_site ha haddress) (addresses_of_site hb haddress')
  · refine h.statics_ne.imp fun hne address haddress haddress' => hne ?_
    exact (List.mem_singleton.mp haddress).symm.trans (List.mem_singleton.mp haddress')
  · intro a ha b hb address haddress haddress'
    obtain ⟨site, hsite, ha⟩ := List.mem_flatMap.mp ha
    obtain ⟨entry, hentry, rfl⟩ := List.mem_map.mp hb
    rw [List.mem_singleton.mp haddress'] at haddress
    exact (h.statics entry hentry).2
      (List.mem_flatMap.mpr ⟨site, hsite, addresses_of_site ha haddress⟩)
  · intro a ha b hb address haddress haddress'
    refine absurd (colon_mem_own hb haddress') (colon_not_mem ?_)
    rcases List.mem_append.mp ha with ha | ha
    · obtain ⟨site, hsite, ha⟩ := List.mem_flatMap.mp ha
      exact isHostname_of_mem h hsite (addresses_of_site ha haddress)
    · obtain ⟨entry, hentry, rfl⟩ := List.mem_map.mp ha
      rw [List.mem_singleton.mp haddress]
      exact (h.statics entry hentry).1

theorem resolved_eq (h : Rendered servable redirects posture staticSites routes)
    (hhosts : ∀ site ∈ servable, serving redirects site ≠ [] →
      ∀ upstream, site.privateUpstream = some upstream →
        ∃ address, (upstream.host, address) ∈ addressPlan)
    (hsite : site ∈ servable) (hserving : serving redirects site ≠ []) :
    ∃ upstream address, site.privateUpstream = some upstream ∧
      (upstream.host, address) ∈ addressPlan ∧
      resolved site = address ++ ':' :: upstream.port.text := by
  obtain ⟨upstream, text, hupstream, htext, hresolved⟩ := (h.checked site hsite).upstream hserving
  obtain ⟨address, hplan⟩ := hhosts site hsite hserving upstream hupstream
  exact ⟨upstream, address, hupstream, hplan, hresolved.trans (resolved_of_plan hplan htext)⟩

theorem upstreams_pairwise (h : Rendered servable redirects posture staticSites routes)
    (hhosts : ∀ site ∈ servable, serving redirects site ≠ [] →
      ∀ upstream, site.privateUpstream = some upstream →
        ∃ address, (upstream.host, address) ∈ addressPlan) :
    routes.Pairwise fun a b => ∀ upstream ∈ a.upstreams, upstream ∉ b.upstreams := by
  have hsite : ∀ {site route upstream}, route ∈ siteRoutes posture redirects site →
      upstream ∈ route.upstreams → serving redirects site ≠ [] ∧ upstream = resolved site := by
    intro site route upstream hroute hupstream
    rcases mem_siteRoutes.mp hroute with ⟨hserving, rfl⟩ | ⟨redirect, -, rfl⟩
    · rw [proxyRoute_upstreams] at hupstream
      exact ⟨hserving, List.mem_singleton.mp hupstream⟩
    · rw [redirectRoute_upstreams] at hupstream
      cases hupstream
  have hother : ∀ {route upstream}, route ∈ staticSites.map (staticRoute posture) ++
      ownRoutes posture → upstream ∉ route.upstreams := by
    intro route upstream hroute
    have hhere : (∃ entry ∈ staticSites, route = staticRoute posture entry) ∨
        route ∈ ownRoutes posture := by
      refine (List.mem_append.mp hroute).imp_left fun hstatic => ?_
      obtain ⟨entry, hentry, heq⟩ := List.mem_map.mp hstatic
      exact ⟨entry, hentry, heq.symm⟩
    rw [(answered_here hhere).1]
    exact nofun
  rw [h.routes_eq, List.append_assoc, List.pairwise_append, List.pairwise_flatMap]
  refine ⟨⟨fun site _ => ?_, ?_⟩, ?_, ?_⟩
  · rw [siteRoutes, List.pairwise_append, List.pairwise_map]
    refine ⟨by split_ifs <;> simp, ?_, fun a _ b hb upstream _ => ?_⟩
    · refine List.pairwise_of_forall fun a b upstream hupstream => ?_
      rw [redirectRoute_upstreams] at hupstream
      cases hupstream
    · obtain ⟨redirect, -, rfl⟩ := List.mem_map.mp hb
      rw [redirectRoute_upstreams]
      exact nofun
  · refine h.keys.imp_of_mem fun {site other} hmem hmem' hkeys a ha b hb upstream hupstream hupstream' => ?_
    obtain ⟨hserving, rfl⟩ := hsite ha hupstream
    obtain ⟨hserving', heq⟩ := hsite hb hupstream'
    obtain ⟨u, address, hu, hplan, htext⟩ := resolved_eq h hhosts hmem hserving
    obtain ⟨v, address', hv, hplan', htext'⟩ := resolved_eq h hhosts hmem' hserving'
    rw [htext, htext'] at heq
    have hkey := key_of_address hplan hplan' heq
    exact hkeys (u.host ++ ':' :: u.port.text) (by rw [upstreamKey, hu]; rfl)
      (by rw [upstreamKey, hv, hkey]; rfl)
  · exact List.pairwise_of_forall_mem_list fun a ha b _ upstream hupstream =>
      absurd hupstream (hother ha)
  · exact fun a _ b hb upstream _ => hother hb

theorem routedOnce_of_consistent
    (h : Rendered (servableSites sites) (liveRedirects (servableSites sites) hostRedirects) posture
      staticSites routes)
    (hconsistent : Consistent sites hostRedirects posture staticSites) :
    RoutedOnce sites staticSites routes := by
  have haddresses := addresses_pairwise h hconsistent.sources
  refine ⟨haddresses, ?_, upstreams_pairwise h hconsistent.hosts, ?_, ?_⟩
  · intro site hsite hostname hhostname
    by_cases hsource : hostname ∈ (liveRedirects (servableSites sites) hostRedirects).map (·.source)
    · right
      obtain ⟨redirect, hredirect, rfl⟩ := List.mem_map.mp hsource
      obtain ⟨owner, -, -, hroute⟩ :=
        redirectRoute_mem h hredirect (List.mem_flatMap.mpr ⟨site, hsite, hhostname⟩)
      refine countP_eq_one haddresses (fun route hp => (of_decide_eq_true hp).1) hroute ?_
      rw [decide_eq_true_eq, redirectRoute_targets]
      exact ⟨List.mem_singleton_self _, List.cons_ne_nil _ _⟩
    · left
      have hmem := mem_serving.mpr ⟨hhostname, hsource⟩
      have hserving := List.ne_nil_of_mem hmem
      have hroute := proxyRoute_mem h hsite hserving
      refine ⟨countP_eq_one haddresses (fun route hp => (of_decide_eq_true hp).1) hroute ?_, ?_⟩
      · rw [decide_eq_true_eq, proxyRoute_upstreams]
        exact ⟨hmem, List.cons_ne_nil _ _⟩
      · intro route hroute' haddress hupstreams
        obtain ⟨other, hother, -, rfl⟩ := site_of_upstreams h hroute' hupstreams
        obtain rfl := site_of_hostname h hsite hother hhostname (mem_serving.mp haddress).1
        obtain ⟨upstream, address, hupstream, hplan, htext⟩ :=
          resolved_eq h hconsistent.hosts hsite hserving
        exact ⟨upstream, address, hupstream, hplan, by rw [proxyRoute_upstreams, htext]⟩
  · intro route hroute target htarget
    obtain ⟨redirect, hredirect, owner, rfl⟩ :=
      redirect_of_targets h hroute (List.ne_nil_of_mem htarget)
    rw [redirectRoute_targets] at htarget
    obtain rfl := List.mem_singleton.mp htarget
    have hlive := (of_decide_eq_true (List.mem_filter.mp hredirect).2).2
    obtain ⟨site, hsite, hmem⟩ := List.mem_flatMap.mp hlive
    have hnot : redirect.target ∉
        (liveRedirects (servableSites sites) hostRedirects).map (·.source) := by
      intro hsource
      obtain ⟨other, hother, heq⟩ := List.mem_map.mp hsource
      exact hconsistent.unchained redirect hredirect other hother heq.symm
    have hserving := mem_serving.mpr ⟨hmem, hnot⟩
    refine ⟨_, proxyRoute_mem h hsite (List.ne_nil_of_mem hserving), hserving, ?_⟩
    rw [proxyRoute_upstreams]
    exact List.cons_ne_nil _ _
  · intro owner howner other hother hne a ha b hb hserves hserves' zone hzone hzone'
    rcases zone_of_serves h howner ha hserves hzone with hmagic | ⟨hrate, stem, hstem, rfl⟩
    · exact hmagic
    · rcases zone_of_serves h hother hb hserves' hzone' with hmagic | ⟨-, stem', hstem', heq⟩
      · exact hmagic
      · obtain rfl : stem = stem' := List.append_cancel_right heq
        rw [hconsistent.zones hrate owner howner other hother hne stem hstem hstem']
        rfl

end Directions

end Rendered

theorem blocks_of_text {page : Page} {sites : List EdgeSite} {hostRedirects : List HostRedirect}
    {posture : EdgePosture} {staticSites : List StaticSite} {text : Str}
    (h : renderCaddyfile page sites hostRedirects posture staticSites = .ok text) :
    ∃ blocks, caddyBlocks page sites hostRedirects posture staticSites = .ok blocks ∧
      text = caddyfile blocks := by
  rw [renderCaddyfile] at h
  cases hblocks : caddyBlocks page sites hostRedirects posture staticSites with
  | error e =>
    rw [hblocks] at h
    cases h
  | ok blocks =>
    rw [hblocks] at h
    cases h
    exact ⟨blocks, rfl, rfl⟩

/-- A rendered file sends every hostname to one place exactly when the registry is consistent. -/
theorem renderCaddyfile_routedOnce_iff (page : Page) (sites : List EdgeSite)
    (hostRedirects : List HostRedirect) (posture : EdgePosture) (staticSites : List StaticSite)
    (text : Str) (h : renderCaddyfile page sites hostRedirects posture staticSites = .ok text) :
    ∃ blocks, caddyBlocks page sites hostRedirects posture staticSites = .ok blocks ∧
      text = caddyfile blocks ∧
      (RoutedOnce sites staticSites (blocks.map Block.route) ↔
        Consistent sites hostRedirects posture staticSites) := by
  obtain ⟨blocks, hblocks, htext⟩ := blocks_of_text h
  exact ⟨blocks, hblocks, htext, consistent_of_routedOnce (rendered_of_blocks hblocks),
    routedOnce_of_consistent (rendered_of_blocks hblocks)⟩

def blog : EdgeSite where
  name := "blog"
  hostnames := ["blog.test", "www.blog.test", "old.blog.test"]
  injectionWafPreviewOnly := true
  requestBodyMaxSize := some "64MiB"
  discardRoute := none
  privateUpstream := some ⟨"app1", .integer 8080⟩

def enforcing : EdgePosture := ⟨.enforcing, true, true⟩

def noPage : Page := ⟨[], []⟩

theorem blog_rendered {hostRedirects : List HostRedirect}
    (h : (renderCaddyfile noPage [blog] hostRedirects enforcing []).isOk = true) :
    ∃ text, renderCaddyfile noPage [blog] hostRedirects enforcing [] = .ok text := by
  cases hrender : renderCaddyfile noPage [blog] hostRedirects enforcing [] with
  | ok text => exact ⟨text, rfl⟩
  | error e =>
    rw [hrender] at h
    cases h

theorem renderCaddyfile_routedOnce_iff_blog :
    ∃ text, renderCaddyfile noPage [blog] [⟨"www.blog.test", "blog.test"⟩] enforcing [] = .ok text ∧
      ∃ blocks, caddyBlocks noPage [blog] [⟨"www.blog.test", "blog.test"⟩] enforcing [] = .ok blocks ∧
        text = caddyfile blocks ∧
        (RoutedOnce [blog] [] (blocks.map Block.route) ↔
          Consistent [blog] [⟨"www.blog.test", "blog.test"⟩] enforcing []) := by
  have hok : (renderCaddyfile noPage [blog] [⟨"www.blog.test", "blog.test"⟩] enforcing []).isOk =
      true := by
    decide
  obtain ⟨text, htext⟩ := blog_rendered hok
  exact ⟨text, htext, renderCaddyfile_routedOnce_iff noPage [blog] _ enforcing [] text htext⟩

def chainedRedirects : List HostRedirect :=
  [⟨"old.blog.test", "www.blog.test"⟩, ⟨"www.blog.test", "blog.test"⟩]

/-- A redirect that leads to the source of another one is rendered. -/
theorem chained_redirects_rendered :
    ∃ blocks, caddyBlocks noPage [blog] chainedRedirects enforcing [] = .ok blocks ∧
      ¬ RoutedOnce [blog] [] (blocks.map Block.route) := by
  have hok : (renderCaddyfile noPage [blog] chainedRedirects enforcing []).isOk = true := by decide
  obtain ⟨text, htext⟩ := blog_rendered hok
  obtain ⟨blocks, hblocks, -⟩ := blocks_of_text htext
  refine ⟨blocks, hblocks, fun honce => ?_⟩
  have hconsistent := consistent_of_routedOnce (rendered_of_blocks hblocks) honce
  exact hconsistent.unchained ⟨"old.blog.test", "www.blog.test"⟩ (by decide)
    ⟨"www.blog.test", "blog.test"⟩ (by decide) rfl

end SharedInfra.Edge
