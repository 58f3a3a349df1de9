import SharedInfra.Python.Text

/-!
# The edge's Caddyfile

`renderCaddyfile` of `hetzner/edge/render.ts`: the registry of sites, redirects
and static sites and the posture on one side, the blocks of the file and its text
on the other.  The page of the one static site and the policy computed from it are
a parameter (`Page`).
-/

namespace SharedInfra.Edge

open Python

/-- A JavaScript number: an integer below the size that is printed with an exponent, or any other
by its text. -/
inductive JsNumber where
  | integer (value : Int)
  | other (text : Str)
deriving DecidableEq

/-- `String(n)`. -/
def JsNumber.text : JsNumber → Str
  | integer (.ofNat n) => decimal n
  | integer (.negSucc n) => '-' :: decimal (n + 1)
  | other text => text

structure PrivateUpstream where
  host : Str
  port : JsNumber
deriving DecidableEq

structure EdgeSite where
  name : Str
  hostnames : List Str
  injectionWafPreviewOnly : Bool
  requestBodyMaxSize : Option Str
  discardRoute : Option Str
  privateUpstream : Option PrivateUpstream
deriving DecidableEq

structure HostRedirect where
  source : Str
  target : Str
deriving DecidableEq

structure StaticSite where
  name : Str
  hostname : Str
deriving DecidableEq

inductive CrowdsecPosture where
  | detectOnly
  | inbandOnly
  | enforcing
deriving DecidableEq

structure EdgePosture where
  crowdsec : CrowdsecPosture
  rateLimitEnforcing : Bool
  membersMagicLinkRateLimitEnforcing : Bool

/-- The page of the holding site, and what `staticSiteCsp` computes from it. -/
structure Page where
  html : Str
  csp : Str

inductive RenderError where
  | notABackend (host : Str)
  | portNotPublished (host : Str) (port : JsNumber)
  | unknownHost (host : Str)
  | badPort (host : Str)
  | notAHostname (hostname : Str)
  | noUpstream (name : Str)
  | noBodySize (name : Str)
  | badBodySize (name size : Str)
  | badDiscardRoute (path : Str)
  | noPageContent (name : Str)
  | sharedUpstream (owner name address : Str)
  | sharedHostname (owner name hostname : Str)
  | staticIsServed (name hostname : Str)
  | staticTwice (hostname : Str)

/-- The hosts of the estate address plan, `{ ...HOST_IPS, ...APP_HOST_IPS }`. -/
def addressPlan : List (Str × Str) :=
  [("edge1", "10.20.1.10"), ("db1", "10.20.1.20"), ("mon1", "10.20.1.30"), ("ops1", "10.20.1.50"),
    ("app1", "10.20.1.100"), ("app2", "10.20.1.101"), ("app3", "10.20.1.102")]

/-- What every JavaScript object inherits, by name, as text. -/
def objectPrototype : List (Str × Str) :=
  ("constructor", "function Object() \x7b [native code] \x7d") ::
    ("__proto__", "[object Object]") ::
      (["__defineGetter__", "__defineSetter__", "__lookupGetter__", "__lookupSetter__",
        "hasOwnProperty", "isPrototypeOf", "propertyIsEnumerable", "toLocaleString", "toString",
        "valueOf"] : List Str).map fun name =>
        (name, "function ".toList ++ name ++ "() \x7b [native code] \x7d".toList)

/-- `PRIVATE_ADDRESSES[host]`: an entry of the plan, else what the object inherits. -/
def privateAddress (host : Str) : Option Str :=
  ((addressPlan ++ objectPrototype).find? (·.1 == host)).map (·.2)

def notAnUpstream : List Str := ["mx1"]

def edgeHost : Str := "edge1"

def edgeHostAllowedPorts : List JsNumber := [.integer 2586]

def resolvePrivateAddress (host : Str) (port : JsNumber) : Except RenderError Str :=
  if host ∈ notAnUpstream then .error (.notABackend host)
  else if host = edgeHost ∧ port ∉ edgeHostAllowedPorts then
    .error (.portNotPublished host port)
  else
    match privateAddress host with
    | none => .error (.unknownHost host)
    | some address =>
      match port with
      | .integer value =>
        if value < 1 ∨ 65535 < value then .error (.badPort host)
        else .ok (address ++ ':' :: port.text)
      | .other _ => .error (.badPort host)

def isHostnameChar (c : Char) : Bool :=
  ('a' ≤ c && c ≤ 'z') || ('0' ≤ c && c ≤ '9') || c == '-'

/-- `(?!-)[a-z0-9-]{1,63}(?<!-)`. -/
def isLabel (label : Str) : Bool :=
  label ≠ [] && label.length ≤ 63 && label.all isHostnameChar &&
    label.head? != some '-' && label.getLast? != some '-'

/-- `HOSTNAME.test`: two labels or more. -/
def isHostname (hostname : Str) : Bool :=
  2 ≤ (splitOnChar '.' hostname).length && (splitOnChar '.' hostname).all isLabel

def assertHostname (hostname : Str) : Except RenderError Str :=
  if isHostname hostname then .ok hostname else .error (.notAHostname hostname)

/-- `BINARY_SIZE.test`. -/
def isBinarySize (size : Str) : Bool :=
  (["KiB", "MiB", "GiB"] : List Str).any fun unit =>
    endsWith size unit &&
      match size.take (size.length - 3) with
      | [] => false
      | c :: digits => ('1' ≤ c && c ≤ '9') && digits.all fun d => '0' ≤ d && d ≤ '9'

def isDiscardChar (c : Char) : Bool :=
  ('A' ≤ c && c ≤ 'Z') || ('a' ≤ c && c ≤ 'z') || ('0' ≤ c && c ≤ '9') ||
    c == '_' || c == '-' || c == '/'

/-- A plain literal path below the root. -/
def isDiscardPath : Str → Bool
  | '/' :: path => path ≠ [] && path.all isDiscardChar
  | _ => false

structure Block where
  addresses : List Str
  body : List Str
deriving DecidableEq

def openRoute : List Str := ["route \x7b"]

/-- One more level of indentation. -/
def indent (lines : List Str) : List Str := lines.map ('\t' :: ·)

def breakGlassParam : Str := "bl_break_glass"

/-- A hex digit of a percent form, in either case. -/
def spellDigit (digit : Char) : Str :=
  if 'A' ≤ digit ∧ digit ≤ 'F' then ['[', digit, digit.toLower, ']'] else [digit]

def paramNamePattern : Str :=
  breakGlassParam.flatMap fun c =>
    "(?:".toList ++ c :: "|%".toList ++
      ((Nat.toDigits 16 c.toNat).map Char.toUpper).flatMap spellDigit ++ [')']

def breakGlassLogFields : List Str :=
  ["request>uri", "request>headers>Referer", "resp_headers>Location"]

def accessLog : Str := "/var/log/caddy/access.log"

def probeLog : Str := "/var/log/caddy/probe.log"

def logDirective (path : Str) : List Str :=
  (["log \x7b", "\toutput file ".toList ++ path ++ " \x7b".toList, "\t\troll_size 100MiB",
    "\t\troll_keep 31", "\t\troll_keep_for 720h", "\t\troll_at 00:00", "\t\x7d",
    "\tformat filter \x7b", "\t\twrap json"] : List Str) ++
    breakGlassLogFields.map (fun field =>
      "\t\t".toList ++ field ++ " regexp \"(?i)([?&]".toList ++ paramNamePattern ++
        ")[^&#]*\" \"$1=REDACTED\"".toList) ++
    (["\t\x7d", "\x7d"] : List Str)

def tlsDirective : List Str := ["tls \x7b", "\tprotocols tls1.2 tls1.3", "\x7d"]

def hstsDirective : List Str :=
  ["header Strict-Transport-Security \"max-age=31536000; includeSubDomains\""]

def cspDirective (value : Str) : List Str :=
  ["header Content-Security-Policy \"".toList ++ value ++ ['"']]

def rateLimitDirective (zone : Str) : List Str :=
  ["rate_limit \x7b", "\tzone ".toList ++ zone ++ " \x7b".toList, 
    "\t\tkey \x7bhttp.request.remote.host\x7d", "\t\twindow 60s", "\t\tevents 200", "\t\x7d", "\x7d"]

def membersMagicLinkMatcher : List Str :=
  ["@members_magic_link \x7b", "\tmethod POST",
    "\tpath /members/api/send-magic-link /members/api/send-magic-link/", "\x7d"]

def ghostSetupMatcher : List Str :=
  ["@ghost_setup \x7b", "\tmethod POST PUT",
    "\tpath ".toList ++ joinWith " " ["/ghost/api/admin/authentication/setup",
      "/ghost/api/admin/authentication/setup/*", "/ghost/api/*/admin/authentication/setup",
      "/ghost/api/*/admin/authentication/setup/*"], "\x7d"]

def ghostSetupRefusal : Str := "respond @ghost_setup 403"

def breakGlassStripMatcher : List Str :=
  let origUri : Str := "\x7bhttp.request.orig_uri\x7d"
  let hasToken : Str := "^[^?]*[?](?:[^&]*&)*".toList ++ paramNamePattern ++ "(?:=|&|$)".toList
  ["@break_glass_strip expression \x60".toList ++ origUri ++ ".matches('".toList ++ hasToken ++
    "') && (!".toList ++ origUri ++ ".matches('^/ghost(?:[/?]|$)') || ".toList ++ origUri ++
    ".matches('^[^?]*(?:[.]|%2[Ee])(?:[.]|%2[Ee])'))\x60".toList]

def breakGlassStrip : Str := "uri @break_glass_strip query -".toList ++ breakGlassParam

def membersMagicLinkZone : Str := "members_magic_link_per_ip"

def membersMagicLinkRateLimitDirective : List Str :=
  ["rate_limit @members_magic_link \x7b",
    "\tzone ".toList ++ membersMagicLinkZone ++ " \x7b".toList,
    "\t\tkey \x7bhttp.request.remote.host\x7d", "\t\twindow 60s", "\t\tevents 5", "\t\x7d", "\x7d"]

inductive Appsec where
  | none
  | all
  | exceptAuthoring

def appsecLines : Appsec → List Str
  | .none => []
  | .all => ["appsec"]
  | .exceptAuthoring => ["appsec @inspected"]

def protectionChain (posture : EdgePosture) (zone : Str) (appsec : Appsec)
    (membersMagicLink : Bool) (beforeAppsec : List Str) : List Str :=
  (if posture.rateLimitEnforcing then rateLimitDirective zone else []) ++
    (if posture.membersMagicLinkRateLimitEnforcing && membersMagicLink then
      membersMagicLinkRateLimitDirective else []) ++
    (if posture.crowdsec = .enforcing then (["crowdsec"] : List Str) else []) ++
    beforeAppsec ++ appsecLines appsec

def requestBodyDirective (site : EdgeSite) : Except RenderError (List Str) :=
  match site.requestBodyMaxSize with
  | none => .error (.noBodySize site.name)
  | some size =>
    if isBinarySize size then .ok ["request_body \x7b", "\tmax_size ".toList ++ size, "\x7d"]
    else .error (.badBodySize site.name size)

def discardRouteMatchers (path : Str) : Except RenderError (List Str) :=
  if isDiscardPath path then
    .ok ["@discard \x7b", "\tpath ".toList ++ path, "\x7d", "@discard_post \x7b", "\tmethod POST",
      "\tpath ".toList ++ path, "\x7d"]
  else .error (.badDiscardRoute path)

def discardRouteResponses : List Str :=
  ["header @discard Allow POST", "respond @discard_post 204", "respond @discard 405"]

def discardMatchers (site : EdgeSite) : Except RenderError (List Str) :=
  match site.discardRoute with
  | none => .ok []
  | some path => discardRouteMatchers path

/-- The matcher of a site with an authoring interface. -/
def inspectedMatcher (site : EdgeSite) : List Str :=
  if site.injectionWafPreviewOnly then ["@inspected not path /ghost/api/*"] else []

def siteBlock (site : EdgeSite) (hostnames : List Str) (posture : EdgePosture) :
    Except RenderError Block := do
  match site.privateUpstream with
  | none => .error (.noUpstream site.name)
  | some upstream =>
    let discard ← discardMatchers site
    let requestBody ← requestBodyDirective site
    let address ← resolvePrivateAddress upstream.host upstream.port
    return {
      addresses := hostnames
      body := logDirective accessLog ++ tlsDirective ++ inspectedMatcher site ++ discard ++
        (if posture.membersMagicLinkRateLimitEnforcing then membersMagicLinkMatcher else []) ++
        ghostSetupMatcher ++ breakGlassStripMatcher ++ openRoute ++ indent hstsDirective ++
        ['\t' :: breakGlassStrip] ++ indent requestBody ++
        indent (protectionChain posture (site.name ++ "_per_ip".toList)
          (if site.injectionWafPreviewOnly then .exceptAuthoring else .all) true
          (if site.discardRoute = none then [] else discardRouteResponses)) ++
        (['\t' :: ghostSetupRefusal, "\treverse_proxy ".toList ++ address, "\x7d"] : List Str) }

def redirectBlock (redirect : HostRedirect) (zone : Str) (posture : EdgePosture) :
    Except RenderError Block := do
  let source ← assertHostname redirect.source
  let target ← assertHostname redirect.target
  return {
    addresses := [source]
    body := logDirective accessLog ++ tlsDirective ++ openRoute ++ indent hstsDirective ++
      indent (protectionChain posture zone .none false []) ++
      (["\tredir https://".toList ++ target ++ "\x7buri\x7d permanent".toList, "\x7d"] : List Str) }

/-- `STATIC_SITE_CONTENT[site.name]`.  What the object inherits is not text, and throws as well. -/
def staticSiteContent (page : Page) (site : StaticSite) : Except RenderError Page :=
  if site.name = "publicpress-holding".toList then .ok page else .error (.noPageContent site.name)

def staticBlock (page : Page) (site : StaticSite) (posture : EdgePosture) :
    Except RenderError Block := do
  let content ← staticSiteContent page site
  let hostname ← assertHostname site.hostname
  return {
    addresses := [hostname]
    body := logDirective accessLog ++ tlsDirective ++ openRoute ++ indent hstsDirective ++
      indent (cspDirective content.csp) ++
      indent ["request_body \x7b", "\tmax_size 1KiB", "\x7d"] ++
      indent (protectionChain posture (site.name ++ "_per_ip".toList) .all false []) ++
      (["\theader Content-Type \"text/html; charset=utf-8\"",
        "\trespond \"".toList ++ content.html ++ "\" 200".toList, "\x7d"] : List Str) }

def probeBlock (posture : EdgePosture) (address generalZone marker : Str) : Block where
  addresses := [address]
  body := logDirective probeLog ++
    (if posture.membersMagicLinkRateLimitEnforcing then membersMagicLinkMatcher else []) ++
    ghostSetupMatcher ++ breakGlassStripMatcher ++ openRoute ++ ['\t' :: breakGlassStrip] ++
    indent (protectionChain posture generalZone .all true []) ++
    (['\t' :: ghostSetupRefusal, "\theader X-Edge-Probe ".toList ++ marker, "\trespond 204",
      "\x7d"] : List Str)

def metricsBlock : Block where
  addresses := [":9091"]
  body := ["metrics"]

def generatedBanner : List Str :=
  ["# Generated from sites.ts and hetzner/edge/posture.ts.",
    "# Regenerate with \x60npm run render\x60 in hetzner/. Hand edits are overwritten."]

def globalOptions : List Str :=
  ["\x7b", "\temail \x7benv.ACME_EMAIL\x7d",
    "\tacme_ca https://acme-v02.api.letsencrypt.org/directory", "\tservers \x7b",
    "\t\tprotocols h1 h2", "\t\tmetrics", "\t\x7d", "\tcrowdsec \x7b",
    "\t\tapi_url http://crowdsec:8080",
    "\t\tapi_key \x7benv.CROWDSEC_BOUNCER_KEY\x7d", "\t\tticker_interval 15s",
    "\t\tappsec_url http://crowdsec:7422", "\t\tappsec_max_body_bytes 65536",
    "\t\tappsec_timeout 1s", "\t\tappsec_fail_open", "\t\x7d", "\x7d"]

def renderBlock (block : Block) : List Str :=
  (joinWith ", " block.addresses ++ " \x7b".toList) :: indent block.body ++ (["\x7d"] : List Str)

def servableSites (sites : List EdgeSite) : List EdgeSite :=
  sites.filter fun site => site.privateUpstream ≠ none

/-- The first entry of a `Map` under the key. -/
def owner? (seen : List (Str × Str)) (key : Str) : Option Str :=
  (seen.find? (·.1 == key)).map (·.2)

def assertUpstreamsAreDistinct (seen : List (Str × Str)) :
    List EdgeSite → Except RenderError Unit
  | [] => .ok ()
  | site :: sites =>
    match site.privateUpstream with
    | none => assertUpstreamsAreDistinct seen sites
    | some upstream =>
      let address := upstream.host ++ ':' :: upstream.port.text
      match owner? seen address with
      | some owner => .error (.sharedUpstream owner site.name address)
      | none => assertUpstreamsAreDistinct ((address, site.name) :: seen) sites

/-- The inner loop of `assertHostnamesAreDistinct`. -/
def claimHostnames (name : Str) (seen : List (Str × Str)) :
    List Str → Except RenderError (List (Str × Str))
  | [] => .ok seen
  | hostname :: hostnames =>
    match owner? seen hostname with
    | some owner => .error (.sharedHostname owner name hostname)
    | none => claimHostnames name ((hostname, name) :: seen) hostnames

def assertHostnamesAreDistinct (seen : List (Str × Str)) :
    List EdgeSite → Except RenderError Unit
  | [] => .ok ()
  | site :: sites => do
    let claimed ← claimHostnames site.name seen site.hostnames
    assertHostnamesAreDistinct claimed sites

def assertStaticHostnamesAreDistinct (servableHostnames : List Str) (seen : List Str) :
    List StaticSite → Except RenderError Unit
  | [] => .ok ()
  | site :: sites =>
    if site.hostname ∈ servableHostnames then .error (.staticIsServed site.name site.hostname)
    else if site.hostname ∈ seen then .error (.staticTwice site.hostname)
    else assertStaticHostnamesAreDistinct servableHostnames (site.hostname :: seen) sites

/-- The redirects that are rendered: both ends are hostnames of servable sites. -/
def liveRedirects (servable : List EdgeSite) (hostRedirects : List HostRedirect) :
    List HostRedirect :=
  hostRedirects.filter fun redirect =>
    redirect.source ∈ servable.flatMap (·.hostnames) ∧
      redirect.target ∈ servable.flatMap (·.hostnames)

def serving (redirects : List HostRedirect) (site : EdgeSite) : List Str :=
  site.hostnames.filter fun hostname => hostname ∉ redirects.map (·.source)

def redirectsOf (redirects : List HostRedirect) (site : EdgeSite) : List HostRedirect :=
  redirects.filter fun redirect => redirect.source ∈ site.hostnames

def proxyBlocks (site : EdgeSite) (hostnames : List Str) (posture : EdgePosture) :
    Except RenderError (List Block) :=
  if hostnames = [] then .ok []
  else do
    let block ← siteBlock site hostnames posture
    return [block]

def blocksOf (posture : EdgePosture) (redirects : List HostRedirect) (site : EdgeSite) :
    Except RenderError (List Block) := do
  let hostnames ← (serving redirects site).mapM assertHostname
  let proxies ← proxyBlocks site hostnames posture
  let redirecting ← (redirectsOf redirects site).mapM fun redirect =>
    redirectBlock redirect (site.name ++ "_redirect_per_ip".toList) posture
  return proxies ++ redirecting

def caddyBlocks (page : Page) (sites : List EdgeSite) (hostRedirects : List HostRedirect)
    (posture : EdgePosture) (staticSites : List StaticSite) : Except RenderError (List Block) := do
  let servable := servableSites sites
  assertUpstreamsAreDistinct [] servable
  assertHostnamesAreDistinct [] servable
  assertStaticHostnamesAreDistinct (servable.flatMap (·.hostnames)) [] staticSites
  let sited ← servable.mapM (blocksOf posture (liveRedirects servable hostRedirects))
  let statics ← staticSites.mapM fun site => staticBlock page site posture
  return sited.flatten ++ statics ++
    [probeBlock posture "http://edge-probe.invalid:8080" "probe_host_per_ip" "host-routed",
      probeBlock posture ":8080" "probe_per_ip" "bare-port", metricsBlock]

def caddyfile (blocks : List Block) : Str :=
  joinWith "\n" (generatedBanner ++ globalOptions ++
    blocks.flatMap fun block => [] :: renderBlock block) ++ ['\n']

def renderCaddyfile (page : Page) (sites : List EdgeSite) (hostRedirects : List HostRedirect)
    (posture : EdgePosture) (staticSites : List StaticSite) : Except RenderError Str :=
  caddyfile <$> caddyBlocks page sites hostRedirects posture staticSites

end SharedInfra.Edge
