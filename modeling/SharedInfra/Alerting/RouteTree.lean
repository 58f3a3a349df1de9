import SharedInfra.Python.Lines

/-!
# Alertmanager's route tree

The meaning Alertmanager gives a tree of routes: the matchers of a route all
hold of the labels of an alert, an absent label being the empty string, and
children are tried in order, up to the first one that matches and does not go
on.  A route whose children all fail takes the alert itself.
-/

namespace SharedInfra.Alerting

open Python

/-- The labels of an alert; an absent one is the empty string. -/
abbrev Labels := Str → Str

/-- What a matcher asks of a label; a regular expression is anchored and here a choice of words. -/
inductive Test where
  | equal (value : Str)
  | notEqual (value : Str)
  | oneOf (values : List Str)
  | noneOf (values : List Str)
  deriving DecidableEq, Repr

def Test.holds : Test → Str → Bool
  | equal value, s => s == value
  | notEqual value, s => s != value
  | oneOf values, s => values.contains s
  | noneOf values, s => !values.contains s

structure Matcher where
  label : Str
  test : Test
  deriving DecidableEq, Repr

def Matcher.holds (m : Matcher) (labels : Labels) : Bool := m.test.holds (labels m.label)

inductive Route where
  | node (matchers : List Matcher) (receiver : Str) (continues : Bool) (routes : List Route)

namespace Route

def continues : Route → Bool
  | node _ _ continues _ => continues

mutual

def receivers (labels : Labels) : Route → List Str
  | node matchers receiver _ routes =>
    if matchers.all (·.holds labels) then
      match walk labels routes with
      | [] => [receiver]
      | reached => reached
    else []

/-- The receivers an alert reaches through the children of a route. -/
def walk (labels : Labels) : List Route → List Str
  | [] => []
  | route :: routes =>
    match receivers labels route with
    | [] => walk labels routes
    | reached => if route.continues then reached ++ walk labels routes else reached

end

end Route

/-!
# The routes as text

A reader of the routes of an Alertmanager configuration in the block style of
the generated template: one line a key, matchers as plain scalars, and regular
expressions that are a choice of words between anchors.  What is not of this
form is not read.
-/

/-- What follows a front. -/
def after (front : Str) (s : Str) : Option Str :=
  if front.isPrefixOf s then some (s.drop front.length) else none

/-- What stands before an end. -/
def upTo (last : Str) (s : Str) : Option Str :=
  if last.isSuffixOf s then some (s.take (s.length - last.length)) else none

/-- The letters of an identifier, which stand for themselves in a regular expression. -/
def isWordChar (c : Char) : Bool := c.isAlphanum || c == '_' || c == ':'

/-- A regular expression that is a choice of words between anchors. -/
def readWords (pattern : Str) : Option (List Str) := do
  let inner ← (after "^(".toList pattern).bind (upTo ")$".toList)
  let words := splitOnChar '|' inner
  if words.all fun word => word.all isWordChar then some words else none

/-- A quoted value without escapes. -/
def readQuoted (s : Str) : Option Str := do
  let value ← (after ['"'] s).bind (upTo ['"'])
  if value.any fun c => c == '"' || c == '\\' then none else some value

def readMatcher (s : Str) : Option Matcher :=
  let label := s.takeWhile isWordChar
  let rest := s.dropWhile isWordChar
  match after " = ".toList rest, after " != ".toList rest, after " =~ ".toList rest,
      after " !~ ".toList rest with
  | some quoted, _, _, _ => (readQuoted quoted).map fun value => ⟨label, .equal value⟩
  | _, some quoted, _, _ => (readQuoted quoted).map fun value => ⟨label, .notEqual value⟩
  | _, _, some quoted, _ =>
    ((readQuoted quoted).bind readWords).map fun words => ⟨label, .oneOf words⟩
  | _, _, _, some quoted =>
    ((readQuoted quoted).bind readWords).map fun words => ⟨label, .noneOf words⟩
  | _, _, _, _ => none

/-- The routes read from the last line up, and the keys of the one being read. -/
structure Reading where
  matchers : List Matcher
  receiver : Option Str
  continues : Bool
  routes : List Route

def Reading.between (routes : List Route) : Reading := ⟨[], none, false, routes⟩

/-- One line of the routes, read before those that follow it. -/
def readLine (line : Str) (r : Reading) : Option Reading :=
  if line = "    - matchers:".toList then do
    let receiver ← r.receiver
    some (.between (.node r.matchers receiver r.continues [] :: r.routes))
  else
    match after "        - ".toList line, after "      receiver: ".toList line with
    | some text, _ => (readMatcher text).map fun m => { r with matchers := m :: r.matchers }
    | _, some receiver => some { r with receiver := some receiver }
    | _, _ =>
      if line = "      continue: true".toList then some { r with continues := true }
      -- The timers and the grouping of a route say nothing about who is reached.
      else if (after "      group_".toList line).isSome ∨ (after "      repeat_".toList line).isSome
      then some r
      else none

def readLines (lines : List Str) (r : Reading) : Option Reading :=
  lines.foldr (fun line r => r.bind (readLine line)) (some r)

def readRoutes (lines : List Str) : Option (List Route) := do
  let r ← readLines lines (.between [])
  if r.matchers = [] ∧ r.receiver = none ∧ r.continues = false then some r.routes else none

/-- The route tree of a configuration: the root's receiver, and its children up to an empty line. -/
def readTree (text : Str) : Option Route := do
  let lines := (splitOnChar '\n' text).dropWhile (· ≠ "route:".toList)
  let receiver ← lines[1]?.bind (after "  receiver: ".toList)
  let routes ← readRoutes (((lines.dropWhile (· ≠ "  routes:".toList)).drop 1).takeWhile (· ≠ []))
  some (.node [] receiver false routes)

/-!
# The Alertmanager template

The page register and the route tree of the generated Alertmanager
configuration, as text.  The tree is the part up to the first empty line after
`routes:`; the inhibition rules and the receivers that follow are not modelled,
and stand for any text.
-/

/-- `PageRegisterDeliveryPath` -/
inductive DeliveryPath where
  | alertmanager
  | healthchecks
  deriving DecidableEq, Repr

/-- `PageRegisterEntry`, of which a route uses these fields. -/
structure PageRegisterEntry where
  alertName : Option Str
  deliveryPath : DeliveryPath
  dormant : Bool
  deriving DecidableEq, Repr

def pageAlertNames (register : List PageRegisterEntry) : List Str :=
  ((register.filter fun entry => entry.deliveryPath = .alertmanager ∧ !entry.dormant).map
    (·.alertName)).filterMap id

def pageReceiverName : Str := "ntfy-page".toList

def renderPageRoute (register : List PageRegisterEntry) : Str :=
  let names := pageAlertNames register
  if names = [] then []
  else joinWith ['\n']
    ["    - matchers:".toList,
      "        - severity = \"page\"".toList,
      "        - alertname =~ \"^(".toList ++ joinWith ['|'] names ++ ")$\"".toList,
      "      receiver: ".toList ++ pageReceiverName,
      "      group_by: ['tenant']".toList]

/-- `GENERATED_BANNER` and the lines of the template before the routes. -/
def headLines : List Str :=
  ["# Generated from sites.ts and hetzner/monitoring/render.ts.".toList,
    "# Regenerate with \x60npm run render\x60 in hetzner/. Hand edits are overwritten.".toList,
    "# Rendered into alertmanager.yml at container start by".toList,
    "# render_alertmanager_config.py. This file is never read directly.".toList,
    "templates:".toList,
    "  - '/etc/alertmanager/templates/*.gotmpl'".toList,
    "global:".toList,
    "  smtp_smarthost: 'mx1.branchleft.co.uk:587'".toList,
    "  smtp_from: 'alerts@branchleft.co.uk'".toList,
    "  smtp_auth_username: '__SMTP_USERNAME__'".toList,
    "  smtp_auth_password: '__SMTP_PASSWORD__'".toList,
    "  smtp_require_tls: true".toList,
    [],
    "route:".toList,
    "  receiver: email".toList,
    "  group_by: ['alertname']".toList,
    "  group_wait: 30s".toList,
    "  group_interval: 1h".toList,
    "  repeat_interval: 24h".toList,
    "  routes:".toList]

/-- The lines of the routes that do not depend on the register. -/
def fixedRouteLines : List Str :=
  ["    - matchers:".toList,
    "        - alertname = \"Watchdog\"".toList,
    "      receiver: heartbeat".toList,
    "      group_wait: 0s".toList,
    "      group_interval: 1m".toList,
    "      repeat_interval: 1m".toList,
    "    - matchers:".toList,
    "        - severity = \"critical\"".toList,
    "      receiver: ".toList ++ pageReceiverName,
    "      continue: true".toList,
    "    - matchers:".toList,
    "        - severity = \"critical\"".toList,
    "        - alertname !~ \"^(MailHostDown|AlertEmailDeliveryFailing)$\"".toList,
    "        - notify != \"on-host\"".toList,
    "      receiver: email".toList,
    "      continue: true".toList,
    "    - matchers:".toList,
    "        - severity = \"critical\"".toList,
    "        - alertname !~ \"^(MailHostDown|AlertEmailDeliveryFailing)$\"".toList,
    "        - notify != \"on-host\"".toList,
    "      receiver: email-on-host".toList,
    "    - matchers:".toList,
    "        - owner_action = \"true\"".toList,
    "        - severity != \"critical\"".toList,
    "      receiver: email".toList,
    "      continue: true".toList,
    "    - matchers:".toList,
    "        - notify = \"on-host\"".toList,
    "      receiver: email-on-host".toList,
    "    - matchers:".toList,
    "        - alertname =~ \"^(MailHostDown|AlertEmailDeliveryFailing)$\"".toList,
    "      receiver: mailhost-deadman".toList,
    "      continue: true".toList,
    "    - matchers:".toList,
    "        - alertname =~ \"^(MailHostDown|AlertEmailDeliveryFailing)$\"".toList,
    "      receiver: email".toList,
    "    - matchers:".toList,
    "        - severity = \"warning\"".toList,
    "      receiver: email-on-host".toList]

/-- `renderAlertmanagerTemplate`, with any text for what follows the route tree. -/
def renderAlertmanagerTemplate (register : List PageRegisterEntry) (rest : Str) : Str :=
  let pageRoute := renderPageRoute register
  joinWith ['\n']
    (headLines ++ fixedRouteLines ++ (if pageRoute = [] then [] else [pageRoute]) ++ [[], rest])

end SharedInfra.Alerting
