import SharedInfra.Edge.Caddyfile
import SharedInfra.Effects.Moves
import SharedInfra.Python.Lines

/-!
# What the blocks of a Caddyfile do

The lines that decide where a block sends a request, and which counters it keeps,
are read back from its body (`Block.clauses`).  `caddyBlocks_routes` says what they
are for every block of a rendered file, from the registry alone.
-/

namespace SharedInfra.Edge

open Python Effects

/-- What stands between two texts on a line. -/
def fill (before after line : Str) : Option Str :=
  if startsWith line before && endsWith (line.drop before.length) after then
    some ((line.drop before.length).take ((line.drop before.length).length - after.length))
  else none

/-- A line that sends requests somewhere or counts them. -/
inductive Clause where
  | proxy (upstream : Str)
  | redir (target : Str)
  | zone (name : Str)
deriving DecidableEq

def clauseOf (line : Str) : Option Clause :=
  match fill "\treverse_proxy " [] line with
  | some upstream => some (.proxy upstream)
  | none =>
    match fill "\tredir https://" "\x7buri\x7d permanent" line with
    | some target => some (.redir target)
    | none => (fill "\t\tzone " " \x7b" line).map .zone

/-- What a block answers to and what it does. -/
structure Route where
  addresses : List Str
  clauses : List Clause

def Block.route (block : Block) : Route := ⟨block.addresses, block.body.filterMap clauseOf⟩

section Lines

variable {posture : EdgePosture} {zone : Str}

theorem fill_append (before text after : Str) :
    fill before after (before ++ text ++ after) = some text := by
  have hstart : startsWith (before ++ text ++ after) before = true := by
    rw [startsWith, List.isPrefixOf_iff_prefix, List.append_assoc]
    exact List.prefix_append _ _
  have hdrop : (before ++ text ++ after).drop before.length = text ++ after := by
    rw [List.append_assoc, List.drop_left]
  have hend : endsWith (text ++ after) after = true := by
    rw [endsWith, List.isSuffixOf_iff_suffix]
    exact List.suffix_append _ _
  rw [fill, hstart, hdrop, hend]
  simp

theorem clauseOf_proxy (upstream : Str) :
    clauseOf ("\treverse_proxy ".toList ++ upstream) = some (.proxy upstream) := by
  have hfill := fill_append "\treverse_proxy " upstream []
  rw [List.append_nil] at hfill
  rw [clauseOf, hfill]

theorem clauseOf_redir (target : Str) :
    clauseOf ("\tredir https://".toList ++ target ++ "\x7buri\x7d permanent".toList) =
      some (.redir target) := by
  have hproxy : fill "\treverse_proxy " []
      ("\tredir https://".toList ++ target ++ "\x7buri\x7d permanent".toList) = none := rfl
  rw [clauseOf, hproxy]
  simp only [fill_append]

theorem clauseOf_zone (zone : Str) :
    clauseOf ('\t' :: ("\tzone ".toList ++ zone ++ " \x7b".toList)) = some (.zone zone) := by
  have hline : '\t' :: ("\tzone ".toList ++ zone ++ " \x7b".toList) =
      "\t\tzone ".toList ++ zone ++ " \x7b".toList := rfl
  have hproxy : fill "\treverse_proxy " [] ("\t\tzone ".toList ++ zone ++ " \x7b".toList) = none := rfl
  have hredir : fill "\tredir https://" "\x7buri\x7d permanent"
      ("\t\tzone ".toList ++ zone ++ " \x7b".toList) = none := rfl
  rw [hline, clauseOf, hproxy]
  simp only [hredir, fill_append, Option.map_some]

def generalZone (posture : EdgePosture) (zone : Str) : List Clause :=
  if posture.rateLimitEnforcing then [.zone zone] else []

def magicLinkZone (posture : EdgePosture) : List Clause :=
  if posture.membersMagicLinkRateLimitEnforcing then [.zone membersMagicLinkZone] else []

theorem clauses_rateLimit (zone : Str) :
    (indent (rateLimitDirective zone)).filterMap clauseOf = [.zone zone] := by
  have hopen : clauseOf ('\t' :: "rate_limit \x7b".toList) = none := rfl
  rw [indent, rateLimitDirective, List.map_cons, List.filterMap_cons_none hopen, List.map_cons,
    List.filterMap_cons_some (clauseOf_zone zone)]
  exact congrArg (Clause.zone zone :: ·) (by decide)

theorem clauses_chain {appsec : Appsec} {magicLink : Bool} {beforeAppsec : List Str}
    (hbefore : (indent beforeAppsec).filterMap clauseOf = []) :
    (indent (protectionChain posture zone appsec magicLink beforeAppsec)).filterMap clauseOf =
      generalZone posture zone ++ if magicLink then magicLinkZone posture else [] := by
  have hgeneral : (indent (if posture.rateLimitEnforcing then rateLimitDirective zone else [])).filterMap
      clauseOf = generalZone posture zone := by
    rw [generalZone]
    split_ifs
    · exact clauses_rateLimit zone
    · rfl
  have hmagic : (indent (if posture.membersMagicLinkRateLimitEnforcing && magicLink then
      membersMagicLinkRateLimitDirective else [])).filterMap clauseOf =
        if magicLink then magicLinkZone posture else [] := by
    have hlines : (indent membersMagicLinkRateLimitDirective).filterMap clauseOf =
        [.zone membersMagicLinkZone] := by decide
    rw [magicLinkZone]
    cases posture.membersMagicLinkRateLimitEnforcing <;> cases magicLink <;>
      first | exact hlines | rfl
  have hcrowdsec : (indent (if posture.crowdsec = .enforcing then (["crowdsec"] : List Str) else [])).filterMap
      clauseOf = [] := by
    split_ifs <;> decide
  have happsec : (indent (appsecLines appsec)).filterMap clauseOf = [] := by
    cases appsec <;> decide
  rw [indent] at hgeneral hmagic hcrowdsec happsec hbefore
  rw [indent, protectionChain]
  simp only [List.map_append, List.filterMap_append, hgeneral, hmagic, hcrowdsec, happsec, hbefore,
    List.append_nil]

end Lines

section Built

variable {posture : EdgePosture} {zone : Str} {block : Block}

theorem clauses_discard {site : EdgeSite} {lines : List Str}
    (h : discardMatchers site = .ok lines) : lines.filterMap clauseOf = [] := by
  rw [discardMatchers] at h
  split at h
  · cases h
    rfl
  · rw [discardRouteMatchers] at h
    split_ifs at h
    cases h
    rfl

theorem clauses_requestBody {site : EdgeSite} {lines : List Str}
    (h : requestBodyDirective site = .ok lines) : (indent lines).filterMap clauseOf = [] := by
  rw [requestBodyDirective] at h
  split at h
  · cases h
  · split_ifs at h
    cases h
    rfl

theorem clauses_constant :
    (logDirective accessLog).filterMap clauseOf = [] ∧ tlsDirective.filterMap clauseOf = [] ∧
      openRoute.filterMap clauseOf = [] ∧ (indent hstsDirective).filterMap clauseOf = [] ∧
      ghostSetupMatcher.filterMap clauseOf = [] ∧ breakGlassStripMatcher.filterMap clauseOf = [] ∧
      ['\t' :: breakGlassStrip].filterMap clauseOf = [] ∧
      membersMagicLinkMatcher.filterMap clauseOf = [] := by
  refine ⟨?_, ?_, ?_, ?_, ?_, ?_, ?_, ?_⟩ <;> decide

theorem siteBlock_route {site : EdgeSite} {hostnames : List Str}
    (h : siteBlock site hostnames posture = .ok block) :
    ∃ upstream address, site.privateUpstream = some upstream ∧
      resolvePrivateAddress upstream.host upstream.port = .ok address ∧
      block.route = ⟨hostnames, generalZone posture (site.name ++ "_per_ip".toList) ++
        magicLinkZone posture ++ [.proxy address]⟩ := by
  rw [siteBlock] at h
  split at h
  · cases h
  · rename_i upstream hupstream
    obtain ⟨discard, hdiscard, h⟩ := bind_eq_ok_iff.mp h
    obtain ⟨requestBody, hbody, h⟩ := bind_eq_ok_iff.mp h
    obtain ⟨address, haddress, h⟩ := bind_eq_ok_iff.mp h
    cases h
    refine ⟨upstream, address, hupstream, haddress, ?_⟩
    obtain ⟨hlog, htls, hopen, hhsts, hghost, hmatcher, hstrip, hmagic⟩ := clauses_constant
    have hinspected : (inspectedMatcher site).filterMap clauseOf = [] := by
      rw [inspectedMatcher]
      split_ifs <;> decide
    have hmagic' : (if posture.membersMagicLinkRateLimitEnforcing then membersMagicLinkMatcher
        else []).filterMap clauseOf = [] := by
      split_ifs
      · exact hmagic
      · rfl
    have hresponses : (indent (if site.discardRoute = none then []
        else discardRouteResponses)).filterMap clauseOf = [] := by
      split_ifs <;> decide
    have hlast : (['\t' :: ghostSetupRefusal, "\treverse_proxy ".toList ++ address, "\x7d"] :
        List Str).filterMap clauseOf = [.proxy address] := by
      have hrefusal : clauseOf ('\t' :: ghostSetupRefusal) = none := by decide
      rw [List.filterMap_cons_none hrefusal, List.filterMap_cons_some (clauseOf_proxy address)]
      exact congrArg (Clause.proxy address :: ·) (by decide)
    simp only [Block.route, List.filterMap_append, hlog, htls, hopen, hhsts, hghost, hmatcher, hstrip,
      hinspected, hmagic', clauses_discard hdiscard, clauses_requestBody hbody,
      clauses_chain hresponses, hlast, List.nil_append, if_true]

theorem redirectBlock_route {redirect : HostRedirect}
    (h : redirectBlock redirect zone posture = .ok block) :
    isHostname redirect.source = true ∧
      block.route = ⟨[redirect.source], generalZone posture zone ++ [.redir redirect.target]⟩ := by
  obtain ⟨source, hsource, h⟩ := bind_eq_ok_iff.mp h
  obtain ⟨target, htarget, h⟩ := bind_eq_ok_iff.mp h
  cases h
  rw [assertHostname] at hsource htarget
  split_ifs at hsource with hok
  split_ifs at htarget
  cases hsource
  cases htarget
  obtain ⟨hlog, htls, hopen, hhsts, -⟩ := clauses_constant
  have hlast : (["\tredir https://".toList ++ redirect.target ++ "\x7buri\x7d permanent".toList,
      "\x7d"] : List Str).filterMap clauseOf = [.redir redirect.target] := by
    rw [List.filterMap_cons_some (clauseOf_redir redirect.target)]
    exact congrArg (Clause.redir redirect.target :: ·) (by decide)
  have hnothing : (indent []).filterMap clauseOf = [] := rfl
  refine ⟨hok, ?_⟩
  simp only [Block.route, List.filterMap_append, hlog, htls, hopen, hhsts, clauses_chain hnothing,
    hlast, List.nil_append, List.append_nil, Bool.false_eq_true, if_false]

theorem staticBlock_route {page : Page} {site : StaticSite}
    (h : staticBlock page site posture = .ok block) :
    isHostname site.hostname = true ∧
      block.route = ⟨[site.hostname], generalZone posture (site.name ++ "_per_ip".toList)⟩ := by
  obtain ⟨content, hcontent, h⟩ := bind_eq_ok_iff.mp h
  obtain ⟨hostname, hhostname, h⟩ := bind_eq_ok_iff.mp h
  cases h
  rw [assertHostname] at hhostname
  split_ifs at hhostname with hok
  cases hhostname
  obtain ⟨hlog, htls, hopen, hhsts, -⟩ := clauses_constant
  have hcsp : (indent (cspDirective content.csp)).filterMap clauseOf = [] := rfl
  have hbody : (indent ["request_body \x7b", "\tmax_size 1KiB", "\x7d"]).filterMap clauseOf = [] := by
    decide
  have hlast : (["\theader Content-Type \"text/html; charset=utf-8\"",
      "\trespond \"".toList ++ content.html ++ "\" 200".toList, "\x7d"] : List Str).filterMap
        clauseOf = [] := rfl
  have hnothing : (indent []).filterMap clauseOf = [] := rfl
  refine ⟨hok, ?_⟩
  simp only [Block.route, List.filterMap_append, hlog, htls, hopen, hhsts, hcsp, hbody,
    clauses_chain hnothing, hlast, List.nil_append, List.append_nil, Bool.false_eq_true, if_false]

theorem probeBlock_route {address marker : Str} :
    (probeBlock posture address zone marker).route =
      ⟨[address], generalZone posture zone ++ magicLinkZone posture⟩ := by
  obtain ⟨-, -, hopen, -, hghost, hmatcher, hstrip, hmagic⟩ := clauses_constant
  have hlog : (logDirective probeLog).filterMap clauseOf = [] := by decide
  have hmagic' : (if posture.membersMagicLinkRateLimitEnforcing then membersMagicLinkMatcher
      else []).filterMap clauseOf = [] := by
    split_ifs
    · exact hmagic
    · rfl
  have hlast : (['\t' :: ghostSetupRefusal, "\theader X-Edge-Probe ".toList ++ marker, "\trespond 204",
      "\x7d"] : List Str).filterMap clauseOf = [] := rfl
  have hnothing : (indent []).filterMap clauseOf = [] := rfl
  simp only [probeBlock, Block.route, List.filterMap_append, hlog, hopen, hghost, hmatcher, hstrip,
    hmagic', clauses_chain hnothing, hlast, List.nil_append, List.append_nil, if_true]

end Built

section Registries

variable {posture : EdgePosture} {redirects : List HostRedirect} {site : EdgeSite}
variable {blocks : List Block} {sites : List EdgeSite} {seen : List (Str × Str)}

/-- Where a site's requests go, when its upstream can be resolved. -/
def resolved (site : EdgeSite) : Str :=
  match site.privateUpstream with
  | none => []
  | some upstream => (resolvePrivateAddress upstream.host upstream.port).toOption.getD []

def proxyRoute (posture : EdgePosture) (redirects : List HostRedirect) (site : EdgeSite) : Route :=
  ⟨serving redirects site, generalZone posture (site.name ++ "_per_ip".toList) ++
    magicLinkZone posture ++ [.proxy (resolved site)]⟩

def redirectRoute (posture : EdgePosture) (site : EdgeSite) (redirect : HostRedirect) : Route :=
  ⟨[redirect.source], generalZone posture (site.name ++ "_redirect_per_ip".toList) ++
    [.redir redirect.target]⟩

def staticRoute (posture : EdgePosture) (site : StaticSite) : Route :=
  ⟨[site.hostname], generalZone posture (site.name ++ "_per_ip".toList)⟩

def siteRoutes (posture : EdgePosture) (redirects : List HostRedirect) (site : EdgeSite) :
    List Route :=
  (if serving redirects site = [] then [] else [proxyRoute posture redirects site]) ++
    (redirectsOf redirects site).map (redirectRoute posture site)

/-- The probes and the metrics. -/
def ownRoutes (posture : EdgePosture) : List Route :=
  [⟨["http://edge-probe.invalid:8080"], generalZone posture "probe_host_per_ip" ++
      magicLinkZone posture⟩,
    ⟨[":8080"], generalZone posture "probe_per_ip" ++ magicLinkZone posture⟩, ⟨[":9091"], []⟩]

/-- What the renderer has checked when it has built a site's blocks. -/
structure SiteChecked (redirects : List HostRedirect) (site : EdgeSite) : Prop where
  hostnames : ∀ hostname ∈ serving redirects site, isHostname hostname = true
  sources : ∀ redirect ∈ redirectsOf redirects site, isHostname redirect.source = true
  upstream : serving redirects site ≠ [] → ∃ upstream address,
    site.privateUpstream = some upstream ∧
      resolvePrivateAddress upstream.host upstream.port = .ok address ∧ resolved site = address

theorem mapM_assertHostname {hostnames checked : List Str}
    (h : hostnames.mapM assertHostname = .ok checked) :
    checked = hostnames ∧ ∀ hostname ∈ hostnames, isHostname hostname = true := by
  rw [mapM_eq_ok_iff] at h
  induction h with
  | nil => exact ⟨rfl, nofun⟩
  | cons hfirst _ ih =>
    obtain ⟨rfl, hall⟩ := ih
    rw [assertHostname] at hfirst
    split_ifs at hfirst with hok
    cases hfirst
    exact ⟨rfl, List.forall_mem_cons.mpr ⟨hok, hall⟩⟩

theorem mapM_redirectBlock {zone : Str} {found : List HostRedirect}
    (h : found.mapM (fun redirect => redirectBlock redirect zone posture) = .ok blocks) :
    blocks.map Block.route = found.map (fun redirect =>
        ⟨[redirect.source], generalZone posture zone ++ [.redir redirect.target]⟩) ∧
      ∀ redirect ∈ found, isHostname redirect.source = true := by
  rw [mapM_eq_ok_iff] at h
  induction h with
  | nil => exact ⟨rfl, nofun⟩
  | cons hfirst _ ih =>
    obtain ⟨hok, hroute⟩ := redirectBlock_route hfirst
    refine ⟨?_, List.forall_mem_cons.mpr ⟨hok, ih.2⟩⟩
    rw [List.map_cons, List.map_cons, hroute, ih.1]

theorem mapM_staticBlock {page : Page} {sites : List StaticSite}
    (h : sites.mapM (fun site => staticBlock page site posture) = .ok blocks) :
    blocks.map Block.route = sites.map (staticRoute posture) ∧
      ∀ site ∈ sites, isHostname site.hostname = true := by
  rw [mapM_eq_ok_iff] at h
  induction h with
  | nil => exact ⟨rfl, nofun⟩
  | cons hfirst _ ih =>
    obtain ⟨hok, hroute⟩ := staticBlock_route hfirst
    refine ⟨?_, List.forall_mem_cons.mpr ⟨hok, ih.2⟩⟩
    rw [List.map_cons, List.map_cons, hroute, ih.1]
    rfl

theorem blocksOf_routes (h : blocksOf posture redirects site = .ok blocks) :
    blocks.map Block.route = siteRoutes posture redirects site ∧ SiteChecked redirects site := by
  obtain ⟨hostnames, hhostnames, h⟩ := bind_eq_ok_iff.mp h
  obtain ⟨rfl, hvalid⟩ := mapM_assertHostname hhostnames
  obtain ⟨proxies, hproxies, h⟩ := bind_eq_ok_iff.mp h
  obtain ⟨redirecting, hredirecting, h⟩ := bind_eq_ok_iff.mp h
  cases h
  have hredirects := mapM_redirectBlock hredirecting
  have hproxy : proxies.map Block.route =
      (if serving redirects site = [] then [] else [proxyRoute posture redirects site]) ∧
        (serving redirects site ≠ [] → ∃ upstream address, site.privateUpstream = some upstream ∧
          resolvePrivateAddress upstream.host upstream.port = .ok address ∧
            resolved site = address) := by
    rw [proxyBlocks] at hproxies
    split_ifs at hproxies ⊢ with hnone
    · cases hproxies
      exact ⟨rfl, fun h => absurd hnone h⟩
    · obtain ⟨block, hblock, hproxies⟩ := bind_eq_ok_iff.mp hproxies
      cases hproxies
      obtain ⟨upstream, address, hupstream, haddress, hroute⟩ := siteBlock_route hblock
      have hresolved : resolved site = address := by
        rw [resolved, hupstream]
        simp [haddress, Except.toOption]
      refine ⟨?_, fun _ => ⟨upstream, address, hupstream, haddress, hresolved⟩⟩
      rw [List.map_singleton, hroute, proxyRoute, hresolved]
  refine ⟨?_, ⟨hvalid, hredirects.2, hproxy.2⟩⟩
  rw [List.map_append, hproxy.1, hredirects.1, siteRoutes]
  rfl

theorem mapM_blocksOf {blocks : List (List Block)}
    (h : sites.mapM (blocksOf posture redirects) = .ok blocks) :
    blocks.flatten.map Block.route = sites.flatMap (siteRoutes posture redirects) ∧
      ∀ site ∈ sites, SiteChecked redirects site := by
  rw [mapM_eq_ok_iff] at h
  induction h with
  | nil => exact ⟨rfl, nofun⟩
  | cons hfirst _ ih =>
    obtain ⟨hroutes, hchecked⟩ := blocksOf_routes hfirst
    refine ⟨?_, List.forall_mem_cons.mpr ⟨hchecked, ih.2⟩⟩
    rw [List.flatten_cons, List.map_append, hroutes, ih.1, List.flatMap_cons]

def upstreamKey (site : EdgeSite) : Option Str :=
  site.privateUpstream.map fun upstream => upstream.host ++ ':' :: upstream.port.text

theorem owner?_eq_none_iff {key : Str} :
    owner? seen key = none ↔ ∀ entry ∈ seen, entry.1 ≠ key := by
  simp [owner?, List.find?_eq_none]

theorem assertUpstreams_ok
    (h : assertUpstreamsAreDistinct seen sites = .ok ()) :
    (∀ entry ∈ seen, ∀ site ∈ sites, upstreamKey site ≠ some entry.1) ∧
      sites.Pairwise fun a b => ∀ key, upstreamKey a = some key → upstreamKey b ≠ some key := by
  induction sites generalizing seen with
  | nil => exact ⟨fun _ _ => nofun, .nil⟩
  | cons site sites ih =>
    rw [assertUpstreamsAreDistinct] at h
    split at h
    · rename_i hnone
      obtain ⟨hseen, hrest⟩ := ih h
      have hkey : upstreamKey site = none := by rw [upstreamKey, hnone]; rfl
      refine ⟨fun entry hentry => List.forall_mem_cons.mpr ⟨?_, hseen entry hentry⟩,
        List.pairwise_cons.mpr ⟨fun _ _ key hsome => ?_, hrest⟩⟩
      · rw [hkey]
        exact nofun
      · rw [hkey] at hsome
        cases hsome
    · rename_i upstream hupstream
      have hkey : upstreamKey site = some (upstream.host ++ ':' :: upstream.port.text) := by
        rw [upstreamKey, hupstream]
        rfl
      dsimp only at h
      split at h
      · cases h
      · rename_i hfresh
        obtain ⟨hseen, hrest⟩ := ih h
        have hown := hseen _ (List.mem_cons_self ..)
        refine ⟨fun entry hentry => List.forall_mem_cons.mpr
          ⟨?_, hseen entry (List.mem_cons_of_mem _ hentry)⟩,
          List.pairwise_cons.mpr ⟨fun other hother key hsome => ?_, hrest⟩⟩
        · rw [hkey]
          exact fun heq => owner?_eq_none_iff.mp hfresh entry hentry (Option.some.inj heq).symm
        · rw [hkey] at hsome
          cases hsome
          exact hown other hother

theorem claimHostnames_ok {name : Str} {hostnames : List Str} {seen claimed : List (Str × Str)}
    (h : claimHostnames name seen hostnames = .ok claimed) :
    hostnames.Nodup ∧ (∀ entry ∈ seen, entry.1 ∉ hostnames) ∧
      ∀ key, (∃ entry ∈ claimed, entry.1 = key) ↔ key ∈ hostnames ∨ ∃ entry ∈ seen, entry.1 = key := by
  induction hostnames generalizing seen with
  | nil =>
    cases h
    exact ⟨.nil, fun _ _ => nofun, fun key => by simp⟩
  | cons hostname hostnames ih =>
    rw [claimHostnames] at h
    split at h
    · cases h
    · rename_i hfresh
      rw [owner?_eq_none_iff] at hfresh
      obtain ⟨hnodup, hseen, hclaimed⟩ := ih h
      refine ⟨List.nodup_cons.mpr ⟨hseen _ (List.mem_cons_self ..), hnodup⟩, fun entry hentry => ?_,
        fun key => ?_⟩
      · rw [List.mem_cons, not_or]
        exact ⟨hfresh entry hentry, hseen entry (List.mem_cons_of_mem _ hentry)⟩
      · rw [hclaimed]
        simp only [List.mem_cons, exists_eq_or_imp, eq_comm (a := hostname)]
        tauto

theorem assertHostnames_ok
    (h : assertHostnamesAreDistinct seen sites = .ok ()) :
    (sites.flatMap (·.hostnames)).Nodup ∧
      ∀ entry ∈ seen, entry.1 ∉ sites.flatMap (·.hostnames) := by
  induction sites generalizing seen with
  | nil => exact ⟨.nil, fun _ _ => nofun⟩
  | cons site sites ih =>
    obtain ⟨claimed, hclaim, h⟩ := bind_eq_ok_iff.mp h
    obtain ⟨hnodup, hseen, hclaimed⟩ := claimHostnames_ok hclaim
    obtain ⟨hrest, hfresh⟩ := ih h
    have hapart : ∀ hostname, (hostname ∈ site.hostnames ∨ ∃ entry ∈ seen, entry.1 = hostname) →
        hostname ∉ sites.flatMap (·.hostnames) := by
      intro hostname hmem
      obtain ⟨entry, hentry, rfl⟩ := (hclaimed hostname).mpr hmem
      exact hfresh entry hentry
    rw [List.flatMap_cons]
    refine ⟨List.nodup_append.mpr ⟨hnodup, hrest, ?_⟩, fun entry hentry => ?_⟩
    · rintro a ha b hb rfl
      exact hapart a (.inl ha) hb
    · rw [List.mem_append, not_or]
      exact ⟨hseen entry hentry, hapart _ (.inr ⟨entry, hentry, rfl⟩)⟩

theorem assertStatic_ok {served seen : List Str} {sites : List StaticSite}
    (h : assertStaticHostnamesAreDistinct served seen sites = .ok ()) :
    (∀ site ∈ sites, site.hostname ∉ served ∧ site.hostname ∉ seen) ∧
      sites.Pairwise fun a b => a.hostname ≠ b.hostname := by
  induction sites generalizing seen with
  | nil => exact ⟨nofun, .nil⟩
  | cons site sites ih =>
    rw [assertStaticHostnamesAreDistinct] at h
    split_ifs at h with hserved hseen
    obtain ⟨hrest, hpairs⟩ := ih h
    refine ⟨List.forall_mem_cons.mpr ⟨⟨hserved, hseen⟩, fun other hother => ?_⟩,
      List.pairwise_cons.mpr ⟨fun other hother heq => ?_, hpairs⟩⟩
    · exact ⟨(hrest other hother).1, fun hmem =>
        (hrest other hother).2 (List.mem_cons_of_mem _ hmem)⟩
    · exact (hrest other hother).2 (heq ▸ List.mem_cons_self ..)

end Registries

end SharedInfra.Edge
