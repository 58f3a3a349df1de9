import SharedInfra.Alerting.RouteTree
import SharedInfra.Python.Integers
import SharedInfra.Python.Replace

/-!
# Rendering the monitoring secrets

`render_alertmanager_config.py`: the placeholders, the checks of the pager's
credentials, the substitution (`render`) and the locked configuration of the
pager (`lockNtfyConfig`), with the two templates it is run on.  The files that
are written, their modes and the Prometheus password are left out.
-/

namespace SharedInfra.Alerting

open Python

abbrev Env := Str → Option Str

def placeholders : List (Str × Str) :=
  [("__SMTP_USERNAME__".toList, "SMTP_USERNAME".toList),
    ("__SMTP_PASSWORD__".toList, "SMTP_PASSWORD".toList),
    ("__HEALTHCHECKS_PING_URL__".toList, "HEALTHCHECKS_PING_URL".toList),
    ("__ALERT_RECIPIENT_EMAIL__".toList, "ALERT_RECIPIENT_EMAIL".toList),
    ("__MAILHOST_PING_URL__".toList, "MAILHOST_PING_URL".toList)]

def ntfyPlaceholders : List (Str × Str) :=
  [("__NTFY_PAGER_TOKEN__".toList, "NTFY_PAGER_TOKEN".toList),
    ("__NTFY_WATCHER_TOKEN__".toList, "NTFY_WATCHER_TOKEN".toList),
    ("__NTFY_OWNER_PASSWORD_HASH__".toList, "NTFY_OWNER_PASSWORD_HASH".toList),
    ("__NTFY_MACHINE_PASSWORD_HASH__".toList, "NTFY_MACHINE_PASSWORD_HASH".toList)]

def ntfyDisabledValue : Str := "ntfy-not-configured".toList

/-- `not env.get(var)` -/
def isUnset (env : Env) (var : Str) : Bool :=
  match env var with
  | none => true
  | some value => value.isEmpty

/-- `env[var]`, of a variable that is there. -/
def valueOf (env : Env) (var : Str) : Str := (env var).getD []

/-- `NTFY_TOKEN_PATTERN.fullmatch` -/
def isToken (s : Str) : Bool :=
  startsWith s "tk_".toList && (s.drop 3).length == 29 &&
    (s.drop 3).all fun c => c.isLower || c.isDigit

/-- `NTFY_HASH_PATTERN.fullmatch`; a digit of the cost is any decimal one. -/
def isHash : Str → Bool
  | '$' :: '2' :: kind :: '$' :: tens :: units :: '$' :: digest =>
    (kind == 'a' || kind == 'b' || kind == 'y') && isDecimal tens && isDecimal units &&
      digest.length == 53 && digest.all fun c => c == '.' || c == '/' || c.isAlphanum
  | _ => false

def ntfyTokenVars : List Str := ["NTFY_PAGER_TOKEN".toList, "NTFY_WATCHER_TOKEN".toList]

def ntfyHashVars : List Str :=
  ["NTFY_OWNER_PASSWORD_HASH".toList, "NTFY_MACHINE_PASSWORD_HASH".toList]

def ntfyProblems (env : Env) : List Str :=
  let unset := ((ntfyPlaceholders.map Prod.snd).filter (isUnset env)).map
    (· ++ " is not set".toList)
  if unset ≠ [] then unset
  else
    (ntfyTokenVars.filter fun v => !isToken (valueOf env v)).map
        (· ++ " is malformed (a token is tk_ plus 29 lowercase letters or digits)".toList) ++
      (ntfyHashVars.filter fun v => !isHash (valueOf env v)).map
        (· ++ " is malformed (it must be a bcrypt hash from \x60ntfy user hash\x60, ".toList ++
          "never the password)".toList) ++
      (if valueOf env "NTFY_PAGER_TOKEN".toList = valueOf env "NTFY_WATCHER_TOKEN".toList then
        ["NTFY_PAGER_TOKEN and NTFY_WATCHER_TOKEN must differ".toList] else []) ++
      if valueOf env "NTFY_OWNER_PASSWORD_HASH".toList =
          valueOf env "NTFY_MACHINE_PASSWORD_HASH".toList then
        ["NTFY_OWNER_PASSWORD_HASH and NTFY_MACHINE_PASSWORD_HASH must differ".toList] else []

/-- The placeholders with what is put in for them, in the order of the replacements. -/
def stages (env : Env) : List (Str × Str) :=
  placeholders.map (fun entry => (entry.1, valueOf env entry.2)) ++
    ntfyPlaceholders.map fun entry =>
      (entry.1, if ntfyProblems env = [] then valueOf env entry.2 else ntfyDisabledValue)

/-- The loops of `render`. -/
def replaceAll (stages : List (Str × Str)) (text : Str) : Str :=
  stages.foldl (fun text stage => replace text stage.1 stage.2) text

/-- `render`; the message is that of a `ValueError`. -/
def render (template : Str) (env : Env) : Except Str Str :=
  let missing := (placeholders.map Prod.snd).filter (isUnset env)
  if missing ≠ [] then
    .error ("missing required environment variable(s): ".toList ++ joinWith ", ".toList missing ++
      " -- set them in /etc/branchleft/monitoring.env".toList)
  else .ok (replaceAll (stages env) template)

def ntfyAuthKeys : List Str :=
  ["auth-users:".toList, "auth-access:".toList, "auth-tokens:".toList]

/-- The loop of `lock_ntfy_config`. -/
def lockLines : Bool → List Str → List Str
  | _, [] => []
  | dropping, line :: lines =>
    if ntfyAuthKeys.any (startsWith line) then lockLines true lines
    else if dropping && (startsWith line [' '] || startsWith line ['-']) then
      lockLines true lines
    else line :: lockLines false lines

def lockNtfyConfig (template : Str) : Str :=
  joinWith ['\n'] (lockLines false (splitOnChar '\n' template))

/-- The text that `main` writes for the pager. -/
def ntfyConfig (template : Str) (env : Env) : Except Str Str :=
  render (if ntfyProblems env = [] then template else lockNtfyConfig template) env

def pageRegister : List PageRegisterEntry :=
  [⟨some "TierTwoSafetyMatch".toList, .alertmanager, false⟩,
    ⟨some "TenantFailedUnsafe".toList, .alertmanager, false⟩,
    ⟨some "AppealLatencyBreach".toList, .alertmanager, true⟩,
    ⟨some "ReadersCannotRead".toList, .alertmanager, false⟩,
    ⟨none, .healthchecks, false⟩]

/-- The lines of the template behind the route tree. -/
def receiverLines : List Str :=
  ["inhibit_rules:".toList,
    "  - source_matchers:".toList,
    "      - alertname = \"HostOrServiceDown\"".toList,
    "    target_matchers:".toList,
    "      - alertname = \"ServiceFlapping\"".toList,
    "    equal: ['instance']".toList,
    "  - source_matchers:".toList,
    "      - alertname = \"MySQLUnreachable\"".toList,
    "    target_matchers:".toList,
    "      - alertname = \"MySQLConnectionsHigh\"".toList,
    "    equal: ['instance']".toList,
    "  - source_matchers:".toList,
    "      - alertname = \"ReplicaTunnelDown\"".toList,
    "    target_matchers:".toList,
    "      - alertname =~ \"^(HostOrServiceDown|ServiceFlapping)$\"".toList,
    "    equal: ['instance']".toList,
    "  - source_matchers:".toList,
    "      - alertname = \"MailHostDown\"".toList,
    "    target_matchers:".toList,
    "      - alertname =~ \"^(MailDeliveryFailureRatioHigh|MailDeliveryVolumeSpike|".toList ++
      "MailDeliveryMetricsMissing)$\"".toList,
    [],
    "receivers:".toList,
    "  - name: ".toList ++ pageReceiverName,
    "    webhook_configs:".toList,
    "      - url: 'http://ntfy:80/branchleft-pages".toList ++
      "?template=alertmanager&priority=5&tags=rotating_light'".toList,
    "        send_resolved: false".toList,
    "        http_config:".toList,
    "          authorization:".toList,
    "            type: Bearer".toList,
    "            credentials: '__NTFY_PAGER_TOKEN__'".toList,
    [],
    "  - name: email".toList,
    "    email_configs:".toList,
    "      - to: '__ALERT_RECIPIENT_EMAIL__'".toList,
    "        html: '\x7b\x7b template \"branchleft.email.html\" . \x7d\x7d'".toList,
    "        send_resolved: false".toList,
    [],
    "  - name: email-on-host".toList,
    "    email_configs:".toList,
    "      - to: 'rob@branchleft.co.uk'".toList,
    "        html: '\x7b\x7b template \"branchleft.email.html\" . \x7d\x7d'".toList,
    "        send_resolved: true".toList,
    [],
    "  - name: heartbeat".toList,
    "    webhook_configs:".toList,
    "      - url: '__HEALTHCHECKS_PING_URL__'".toList,
    "        send_resolved: false".toList,
    [],
    "  - name: mailhost-deadman".toList,
    "    webhook_configs:".toList,
    "      - url: '__MAILHOST_PING_URL__'".toList,
    "        send_resolved: false".toList,
    []]

/-- `alertmanager.yml.tmpl` -/
def alertmanagerTemplate : Str :=
  renderAlertmanagerTemplate pageRegister (joinWith ['\n'] receiverLines)

/-- The lines of `server.yml.tmpl`. -/
def ntfyLines : List Str :=
  ["# Rendered into server.yml by render_alertmanager_config.py before every".toList,
    "# start. This file is never read directly: its __TOKENS__ are secrets.".toList,
    "#".toList,
    "# The one pager for the owner's phone. Anonymous access is denied, there is".toList,
    "# one topic, and two machine publishers (Alertmanager and the scheduled".toList,
    "# upstream-release watcher) may write to it but not read it back; only the".toList,
    "# owner's login may read it.".toList,
    "base-url: https://ntfy.branchleft.co.uk".toList,
    "listen-http: ':80'".toList,
    [],
    "# Caddy on this host terminates TLS and sets X-Forwarded-For. Without this".toList,
    "# every visitor shares one rate-limit bucket.".toList,
    "behind-proxy: true".toList,
    "proxy-forwarded-header: X-Forwarded-For".toList,
    [],
    "cache-file: /var/lib/ntfy/cache.db".toList,
    "# Long enough that a phone switched off overnight still receives the page".toList,
    "# when it reconnects.".toList,
    "cache-duration: 48h".toList,
    [],
    "auth-file: /var/lib/ntfy/user.db".toList,
    "auth-default-access: deny-all".toList,
    "enable-login: true".toList,
    "enable-signup: false".toList,
    "# The two machine users authenticate by token only. ntfy insists every user".toList,
    "# carry a password hash, so they share the hash of a random password nobody".toList,
    "# ever kept.".toList,
    "auth-users:".toList,
    "  - 'owner:__NTFY_OWNER_PASSWORD_HASH__:user'".toList,
    "  - 'alertmanager:__NTFY_MACHINE_PASSWORD_HASH__:user'".toList,
    "  - 'watcher:__NTFY_MACHINE_PASSWORD_HASH__:user'".toList,
    "auth-access:".toList,
    "  - 'owner:branchleft-pages:read-only'".toList,
    "  - 'alertmanager:branchleft-pages:write-only'".toList,
    "  - 'watcher:branchleft-pages:write-only'".toList,
    "auth-tokens:".toList,
    "  - 'alertmanager:__NTFY_PAGER_TOKEN__:alertmanager'".toList,
    "  - 'watcher:__NTFY_WATCHER_TOKEN__:release-watcher'".toList,
    [],
    "# Deliberately absent: upstream-base-url. Setting it would forward a poll".toList,
    "# request for every message to a third-party server (ntfy.sh) for iOS push.".toList,
    "# Android needs no relay: the app holds its own connection to this server.".toList,
    "# No attachment-cache-dir either, so attachments are off.".toList,
    "log-level: info".toList,
    []]

/-- `server.yml.tmpl` -/
def ntfyTemplate : Str := joinWith ['\n'] ntfyLines

end SharedInfra.Alerting
