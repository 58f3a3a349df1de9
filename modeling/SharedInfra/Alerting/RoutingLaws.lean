import SharedInfra.Alerting.RouteTree

/-!
# Who is reached

The route tree that the generated template holds for a register
(`readTree_template`), and the laws of delivery (`laws_of_template`), for every
register whose alert names are identifiers and every set of labels.
-/

namespace SharedInfra.Alerting

open Python

def alertnameLabel : Str := "alertname".toList

def severityLabel : Str := "severity".toList

def notifyLabel : Str := "notify".toList

def ownerActionLabel : Str := "owner_action".toList

def emailName : Str := "email".toList

/-- The on-host mailbox. -/
def emailOnHostName : Str := "email-on-host".toList

/-- The dead-man hook of the mail host. -/
def deadmanName : Str := "mailhost-deadman".toList

def mailHostNames : List Str := ["MailHostDown".toList, "AlertEmailDeliveryFailing".toList]

/-- A Prometheus identifier. -/
structure IsIdentifier (name : Str) : Prop where
  ne : name ≠ []
  word : ∀ c ∈ name, isWordChar c = true
  start : ∀ c ∈ name.head?, c.isDigit = false

/-- The routes that do not depend on the register. -/
def fixedRoutes : List Route :=
  let critical : Matcher := ⟨severityLabel, .equal "critical".toList⟩
  let notMailHost : Matcher := ⟨alertnameLabel, .noneOf mailHostNames⟩
  let notOnHost : Matcher := ⟨notifyLabel, .notEqual "on-host".toList⟩
  let mailHost : Matcher := ⟨alertnameLabel, .oneOf mailHostNames⟩
  [.node [⟨alertnameLabel, .equal "Watchdog".toList⟩] "heartbeat".toList false [],
    .node [critical] pageReceiverName true [],
    .node [critical, notMailHost, notOnHost] emailName true [],
    .node [critical, notMailHost, notOnHost] emailOnHostName false [],
    .node [⟨ownerActionLabel, .equal "true".toList⟩,
      ⟨severityLabel, .notEqual "critical".toList⟩] emailName true [],
    .node [⟨notifyLabel, .equal "on-host".toList⟩] emailOnHostName false [],
    .node [mailHost] deadmanName true [],
    .node [mailHost] emailName false [],
    .node [⟨severityLabel, .equal "warning".toList⟩] emailOnHostName false []]

def pageRoutes (names : List Str) : List Route :=
  if names = [] then []
  else [.node [⟨severityLabel, .equal "page".toList⟩, ⟨alertnameLabel, .oneOf names⟩]
    pageReceiverName false []]

def templateTree (names : List Str) : Route :=
  .node [] emailName false (fixedRoutes ++ pageRoutes names)

section Reading

variable {names : List Str}

theorem after_append (front s : Str) : after front (front ++ s) = some s := by
  simp [after]

theorem upTo_append (u last : Str) : upTo last (u ++ last) = some u := by
  simp [upTo]

theorem wordChar_ne {c d : Char} (hc : isWordChar c = true) (hd : isWordChar d = false) :
    c ≠ d := by
  rintro rfl
  rw [hc] at hd
  cases hd

theorem word_of_mem_joined (h : ∀ name ∈ names, IsIdentifier name) {c : Char}
    (hc : c ∈ joinWith ['|'] names) : isWordChar c = true ∨ c = '|' := by
  induction names with
  | nil => cases hc
  | cons name names ih =>
    obtain ⟨hname, hnames⟩ := List.forall_mem_cons.mp h
    cases names with
    | nil => exact Or.inl (hname.word c hc)
    | cons other names =>
      rw [joinWith_cons_cons, List.mem_append, List.mem_append] at hc
      rcases hc with (hc | hc) | hc
      · exact Or.inl (hname.word c hc)
      · exact Or.inr (List.mem_singleton.mp hc)
      · exact ih hnames hc

theorem not_mem_joined (h : ∀ name ∈ names, IsIdentifier name) {d : Char}
    (hd : isWordChar d = false) (hbar : d ≠ '|') : d ∉ joinWith ['|'] names := by
  intro hmem
  rcases word_of_mem_joined h hmem with hword | rfl
  · rw [hword] at hd
    cases hd
  · exact hbar rfl

theorem readWords_names (hne : names ≠ []) (h : ∀ name ∈ names, IsIdentifier name) :
    readWords ("^(".toList ++ (joinWith ['|'] names ++ ")$".toList)) = some names := by
  have hsplit : splitOnChar '|' (joinWith ['|'] names) = names :=
    splitOnChar_joinWith hne fun name hname hbar =>
      wordChar_ne ((h name hname).word _ hbar) (by decide) rfl
  have hall : (names.all fun word => word.all isWordChar) = true :=
    List.all_eq_true.mpr fun name hname => List.all_eq_true.mpr (h name hname).word
  rw [readWords, after_append, Option.bind_some, upTo_append]
  simp only [Option.bind_eq_bind, Option.bind_some, hsplit, hall, if_true]

/-- The regular expression of the page route. -/
def namesPattern (names : List Str) : Str :=
  "^(".toList ++ (joinWith ['|'] names ++ ")$".toList)

theorem readQuoted_names (h : ∀ name ∈ names, IsIdentifier name) :
    readQuoted (['"'] ++ (namesPattern names ++ ['"'])) = some (namesPattern names) := by
  have hplain : (namesPattern names).any (fun c => c == '"' || c == '\\') = false := by
    have hquote := not_mem_joined h (d := '"') (by decide) (by decide)
    have hslash := not_mem_joined h (d := '\\') (by decide) (by decide)
    rw [List.any_eq_false]
    intro c hc hbad
    have hcases : c = '"' ∨ c = '\\' := by simpa using hbad
    simp only [namesPattern, List.mem_append] at hc
    rcases hc with hc | hc | hc
    · rcases hcases with rfl | rfl <;> exact absurd hc (by decide)
    · rcases hcases with rfl | rfl
      · exact hquote hc
      · exact hslash hc
    · rcases hcases with rfl | rfl <;> exact absurd hc (by decide)
  rw [readQuoted, after_append, Option.bind_some, upTo_append, Option.bind_eq_bind,
    Option.bind_some, hplain, if_neg Bool.false_ne_true]

theorem readMatcher_names (hne : names ≠ []) (h : ∀ name ∈ names, IsIdentifier name) :
    readMatcher ("alertname =~ ".toList ++ (['"'] ++ (namesPattern names ++ ['"']))) =
      some ⟨alertnameLabel, .oneOf names⟩ := by
  have hread : ((readQuoted (['"'] ++ (namesPattern names ++ ['"']))).bind readWords).map
      (fun words => (⟨alertnameLabel, .oneOf words⟩ : Matcher)) =
        some ⟨alertnameLabel, .oneOf names⟩ := by
    rw [readQuoted_names h, Option.bind_some, namesPattern, readWords_names hne h, Option.map_some]
  exact hread

def pageRouteLines (names : List Str) : List Str :=
  ["    - matchers:".toList,
    "        - severity = \"page\"".toList,
    "        - ".toList ++ ("alertname =~ ".toList ++ (['"'] ++ (namesPattern names ++ ['"']))),
    "      receiver: ".toList ++ pageReceiverName,
    "      group_by: ['tenant']".toList]

theorem readLine_names (hne : names ≠ []) (h : ∀ name ∈ names, IsIdentifier name) (r : Reading) :
    readLine ("        - ".toList ++
      ("alertname =~ ".toList ++ (['"'] ++ (namesPattern names ++ ['"'])))) r =
        some { r with matchers := ⟨alertnameLabel, .oneOf names⟩ :: r.matchers } := by
  have hread := congrArg
    (Option.map fun m => { r with matchers := m :: r.matchers }) (readMatcher_names hne h)
  exact hread

theorem readLines_append (a b : List Str) (r : Reading) :
    readLines (a ++ b) r = (readLines b r).bind (readLines a) := by
  rw [readLines, readLines, List.foldr_append]
  cases hb : readLines b r with
  | none =>
    rw [readLines] at hb
    rw [hb]
    induction a with
    | nil => rfl
    | cons line a ih => simpa using congrArg (·.bind (readLine line)) ih
  | some r' =>
    rw [readLines] at hb
    rw [hb]
    rfl

theorem readLines_pageRoute (hne : names ≠ []) (h : ∀ name ∈ names, IsIdentifier name) :
    readLines (pageRouteLines names) (.between []) = some (.between (pageRoutes names)) := by
  have hlast : readLines ["      receiver: ".toList ++ pageReceiverName,
      "      group_by: ['tenant']".toList] (.between []) =
        some ⟨[], some pageReceiverName, false, []⟩ := rfl
  have hmiddle := readLine_names hne h ⟨[], some pageReceiverName, false, []⟩
  have hfirst : readLines ["    - matchers:".toList, "        - severity = \"page\"".toList]
      ⟨[⟨alertnameLabel, .oneOf names⟩], some pageReceiverName, false, []⟩ =
        some (.between [.node [⟨severityLabel, .equal "page".toList⟩,
          ⟨alertnameLabel, .oneOf names⟩] pageReceiverName false []]) := rfl
  have hlines : pageRouteLines names =
      ["    - matchers:".toList, "        - severity = \"page\"".toList] ++
        (["        - ".toList ++ ("alertname =~ ".toList ++
          (['"'] ++ (namesPattern names ++ ['"'])))] ++
            ["      receiver: ".toList ++ pageReceiverName,
              "      group_by: ['tenant']".toList]) := rfl
  rw [pageRoutes, if_neg hne, hlines, readLines_append, readLines_append, hlast, Option.bind_some]
  have hsingle (line : Str) (r : Reading) : readLines [line] r = readLine line r := rfl
  rw [hsingle, hmiddle, Option.bind_some]
  exact hfirst

theorem readLines_fixed (routes : List Route) :
    readLines fixedRouteLines (.between routes) = some (.between (fixedRoutes ++ routes)) := by
  simp only [fixedRouteLines, toList_literal]
  rfl

theorem readRoutes_template (h : ∀ name ∈ names, IsIdentifier name) :
    readRoutes (fixedRouteLines ++ if names = [] then [] else pageRouteLines names) =
      some (fixedRoutes ++ pageRoutes names) := by
  have hpage : readLines (if names = [] then [] else pageRouteLines names) (.between []) =
      some (.between (pageRoutes names)) := by
    by_cases hne : names = []
    · rw [if_pos hne, pageRoutes, if_pos hne]
      rfl
    · rw [if_neg hne]
      exact readLines_pageRoute hne h
  rw [readRoutes, readLines_append, hpage, Option.bind_some, readLines_fixed]
  rfl

theorem split_joined {sep : Char} {pieces : List Str} (hne : pieces ≠ []) :
    splitOnChar sep (joinWith [sep] pieces) = pieces.flatMap (splitOnChar sep) := by
  induction pieces with
  | nil => exact absurd rfl hne
  | cons x pieces ih =>
    cases pieces with
    | nil => simp [joinWith]
    | cons y pieces =>
      rw [joinWith_cons_cons, List.append_assoc, List.singleton_append, splitOnChar_append,
        ih (by simp)]
      rfl

theorem split_lines {lines : List Str} (h : ∀ line ∈ lines, '\n' ∉ line) :
    lines.flatMap (splitOnChar '\n') = lines := by
  induction lines with
  | nil => rfl
  | cons line lines ih =>
    obtain ⟨hline, hlines⟩ := List.forall_mem_cons.mp h
    rw [List.flatMap_cons, splitOnChar_of_not_mem hline, ih hlines]
    rfl

theorem newline_not_in_pageRouteLines (h : ∀ name ∈ names, IsIdentifier name) :
    ∀ line ∈ pageRouteLines names, '\n' ∉ line := by
  have hjoined := not_mem_joined h (d := '\n') (by decide) (by decide)
  have hregex : '\n' ∉ "        - ".toList ++ ("alertname =~ ".toList ++
      (['"'] ++ (namesPattern names ++ ['"']))) := by
    simp only [namesPattern, List.mem_append, not_or]
    exact ⟨by decide, by decide, by decide, ⟨by decide, hjoined, by decide⟩, by decide⟩
  refine List.forall_mem_cons.mpr ⟨by decide, List.forall_mem_cons.mpr ⟨by decide,
    List.forall_mem_cons.mpr ⟨hregex, List.forall_mem_cons.mpr ⟨by decide, ?_⟩⟩⟩⟩
  exact List.forall_mem_singleton.mpr (by decide)

theorem newline_not_in_head : ∀ line ∈ headLines ++ fixedRouteLines, '\n' ∉ line := by
  simp only [headLines, fixedRouteLines, toList_literal]
  decide

end Reading

section Template

variable {register : List PageRegisterEntry} {names : List Str}

theorem renderPageRoute_eq (hne : pageAlertNames register ≠ []) : renderPageRoute register =
    joinWith ['\n'] (pageRouteLines (pageAlertNames register)) := by
  have hregex : "        - alertname =~ \"^(".toList ++ joinWith ['|'] (pageAlertNames register) ++
      ")$\"".toList = "        - ".toList ++ ("alertname =~ ".toList ++
        (['"'] ++ (namesPattern (pageAlertNames register) ++ ['"']))) := by
    have hfront : "        - alertname =~ \"^(".toList =
        "        - ".toList ++ ("alertname =~ ".toList ++ (['"'] ++ "^(".toList)) := rfl
    have hback : ")$\"".toList = ")$".toList ++ ['"'] := rfl
    rw [hfront, hback, namesPattern]
    simp only [List.append_assoc]
  rw [renderPageRoute]
  simp only [if_neg hne, pageRouteLines, hregex]

theorem renderPageRoute_nil (hnil : pageAlertNames register = []) :
    renderPageRoute register = [] := by
  rw [renderPageRoute]
  simp only [if_pos hnil]

theorem renderPageRoute_ne (hne : pageAlertNames register ≠ []) :
    renderPageRoute register ≠ [] := by
  rw [renderPageRoute_eq hne, pageRouteLines, joinWith_cons_cons, List.append_assoc]
  exact List.cons_ne_nil _ _

theorem lines_template (h : ∀ name ∈ pageAlertNames register, IsIdentifier name) (rest : Str) :
    splitOnChar '\n' (renderAlertmanagerTemplate register rest) = headLines ++ ((fixedRouteLines ++
        if pageAlertNames register = [] then [] else pageRouteLines (pageAlertNames register)) ++
          [] :: splitOnChar '\n' rest) := by
  have hpage : (if renderPageRoute register = [] then [] else [renderPageRoute register]).flatMap
      (splitOnChar '\n') =
        if pageAlertNames register = [] then [] else pageRouteLines (pageAlertNames register) := by
    by_cases hne : pageAlertNames register = []
    · rw [if_pos (renderPageRoute_nil hne), if_pos hne]
      rfl
    · rw [if_neg (renderPageRoute_ne hne), if_neg hne, List.flatMap_singleton,
        renderPageRoute_eq hne]
      exact splitOnChar_joinWith (List.cons_ne_nil _ _) (newline_not_in_pageRouteLines h)
  rw [renderAlertmanagerTemplate, split_joined (by simp), List.flatMap_append, List.flatMap_append,
    split_lines newline_not_in_head, hpage]
  simp only [List.append_assoc, List.flatMap_cons, List.flatMap_nil, splitOnChar, List.append_nil,
    List.singleton_append]

/-- The lines of the template from `route:` to `routes:`. -/
def routeHead : List Str :=
  ["route:".toList, "  receiver: email".toList, "  group_by: ['alertname']".toList,
    "  group_wait: 30s".toList, "  group_interval: 1h".toList, "  repeat_interval: 24h".toList,
    "  routes:".toList]

theorem drop_to_route (lines : List Str) :
    (headLines ++ lines).dropWhile (· ≠ "route:".toList) = routeHead ++ lines := by
  simp only [headLines, routeHead, toList_literal]
  rfl

theorem drop_to_routes (lines : List Str) :
    ((routeHead ++ lines).dropWhile (· ≠ "  routes:".toList)).drop 1 = lines := rfl

theorem root_receiver (lines : List Str) :
    (routeHead ++ lines)[1]?.bind (after "  receiver: ".toList) = some emailName := rfl

theorem take_to_empty {lines : List Str} (h : ∀ line ∈ lines, line ≠ []) (rest : List Str) :
    (lines ++ [] :: rest).takeWhile (· ≠ []) = lines := by
  rw [List.takeWhile_append_of_pos fun line hline => decide_eq_true (h line hline)]
  simp

theorem routeLines_ne :
    ∀ line ∈ fixedRouteLines ++ (if names = [] then [] else pageRouteLines names), line ≠ [] := by
  have hfixed : ∀ line ∈ fixedRouteLines, line ≠ [] := by
    simp only [fixedRouteLines, toList_literal]
    decide
  have hpage : ∀ line ∈ pageRouteLines names, line ≠ [] := by
    refine List.forall_mem_cons.mpr ⟨by decide, List.forall_mem_cons.mpr ⟨by decide,
      List.forall_mem_cons.mpr ⟨List.cons_ne_nil _ _, List.forall_mem_cons.mpr ⟨by decide, ?_⟩⟩⟩⟩
    exact List.forall_mem_singleton.mpr (by decide)
  refine List.forall_mem_append.mpr ⟨hfixed, ?_⟩
  split_ifs
  · exact fun _ hline => by cases hline
  · exact hpage

theorem readTree_template (h : ∀ name ∈ pageAlertNames register, IsIdentifier name) (rest : Str) :
    readTree (renderAlertmanagerTemplate register rest) =
      some (templateTree (pageAlertNames register)) := by
  rw [readTree, lines_template h, drop_to_route, root_receiver, drop_to_routes,
    take_to_empty routeLines_ne, readRoutes_template h]
  rfl

end Template

section Laws

variable {register : List PageRegisterEntry} {names : List Str} {labels : Labels}

theorem walk_leaf (matchers : List Matcher) (receiver : Str) (continues : Bool)
    (routes : List Route) :
    Route.walk labels (.node matchers receiver continues [] :: routes) =
      if matchers.all (·.holds labels) then
        if continues then receiver :: Route.walk labels routes else [receiver]
      else Route.walk labels routes := by
  rw [Route.walk, Route.receivers]
  split_ifs with hall hcont <;> simp_all [Route.walk, Route.continues]

/-- The facts about an alert that the routes ask for. -/
structure AlertKind where
  watchdog : Bool
  critical : Bool
  warning : Bool
  page : Bool
  mailHost : Bool
  onHost : Bool
  ownerAction : Bool
  registered : Bool
  deriving DecidableEq

def kindOf (names : List Str) (labels : Labels) : AlertKind where
  watchdog := labels alertnameLabel == "Watchdog".toList
  critical := labels severityLabel == "critical".toList
  warning := labels severityLabel == "warning".toList
  page := labels severityLabel == "page".toList
  mailHost := mailHostNames.contains (labels alertnameLabel)
  onHost := labels notifyLabel == "on-host".toList
  ownerAction := labels ownerActionLabel == "true".toList
  registered := names.contains (labels alertnameLabel)

/-- The receivers of an alert that is not the watchdog, by its kind. -/
def reachedBy (k : AlertKind) : List Str :=
  let warned := if k.warning then [emailOnHostName]
    else if k.page && k.registered then [pageReceiverName] else []
  let mailed := if k.mailHost then [deadmanName, emailName] else warned
  let owned := if k.onHost then [emailOnHostName] else mailed
  let acted := if k.ownerAction && !k.critical then emailName :: owned else owned
  let both := if k.critical && !k.mailHost && !k.onHost then [emailName, emailOnHostName] else acted
  if k.critical then pageReceiverName :: both else both

theorem walk_pageRoutes : Route.walk labels (pageRoutes names) =
    if labels severityLabel == "page".toList && names.contains (labels alertnameLabel) then
      [pageReceiverName]
    else [] := by
  by_cases hnil : names = []
  · rw [pageRoutes, if_pos hnil, hnil]
    simp [Route.walk]
  · rw [pageRoutes, if_neg hnil, walk_leaf]
    simp [Matcher.holds, Test.holds, Route.walk]

theorem walk_template (hwatchdog : (kindOf names labels).watchdog = false) :
    Route.walk labels (fixedRoutes ++ pageRoutes names) = reachedBy (kindOf names labels) := by
  simp only [kindOf] at hwatchdog
  simp only [fixedRoutes, List.cons_append, List.nil_append, walk_leaf, walk_pageRoutes,
    List.all_cons, List.all_nil, Matcher.holds, Test.holds, Bool.and_true, bne, hwatchdog, reachedBy,
    kindOf]
  generalize (labels severityLabel == "critical".toList) = critical
  generalize (labels severityLabel == "warning".toList) = warning
  generalize (labels severityLabel == "page".toList) = page
  generalize mailHostNames.contains (labels alertnameLabel) = mailHost
  generalize (labels notifyLabel == "on-host".toList) = onHost
  generalize (labels ownerActionLabel == "true".toList) = ownerAction
  generalize names.contains (labels alertnameLabel) = registered
  cases critical <;> cases mailHost <;> cases onHost <;> cases ownerAction <;>
    simp only [Bool.not_true, Bool.not_false, Bool.and_true, Bool.and_false, Bool.false_eq_true,
      if_true, if_false]

/-- The root's receiver takes what no child matches. -/
def orRoot : List Str → List Str
  | [] => [emailName]
  | reached => reached

theorem receivers_template (hwatchdog : (kindOf names labels).watchdog = false) :
    (templateTree names).receivers labels = orRoot (reachedBy (kindOf names labels)) := by
  rw [templateTree, Route.receivers, walk_template hwatchdog]
  rfl

/-- Severities exclude each other. -/
def AlertKind.OneSeverity (k : AlertKind) : Prop :=
  (k.critical = true → k.warning = false ∧ k.page = false) ∧ (k.warning = true → k.page = false)

structure KindLaws (k : AlertKind) (reached : List Str) : Prop where
  critical : k.critical = true →
    pageReceiverName ∈ reached ∧ (emailName ∈ reached ∨ emailOnHostName ∈ reached)
  both : k.critical = true → k.onHost = false → k.mailHost = false →
    emailName ∈ reached ∧ emailOnHostName ∈ reached
  onHost : k.onHost = true → emailName ∈ reached → k.ownerAction = true ∧ k.critical = false
  mailHost : k.mailHost = true → k.onHost = false → deadmanName ∈ reached ∧ emailName ∈ reached
  page : k.page = true → (k.registered = true → k.mailHost = false) →
    (pageReceiverName ∈ reached ↔ k.registered = true ∧ k.onHost = false)

theorem receivers_apart : emailName ≠ emailOnHostName ∧ pageReceiverName ≠ emailName ∧
    pageReceiverName ≠ emailOnHostName ∧ pageReceiverName ≠ deadmanName := by
  decide

theorem kindLaws (k : AlertKind) (h : k.OneSeverity) : KindLaws k (orRoot (reachedBy k)) := by
  obtain ⟨hmailbox, hemail, honHost, hdeadman⟩ := receivers_apart
  rcases k with ⟨watchdog, critical, warning, page, mailHost, onHost, ownerAction, registered⟩
  simp only [AlertKind.OneSeverity] at h
  constructor
  · rintro rfl
    cases mailHost <;> cases onHost <;> simp [reachedBy, orRoot]
  · rintro rfl rfl rfl
    simp [reachedBy, orRoot]
  · rintro rfl hreached
    cases critical <;> cases ownerAction <;> simp_all [reachedBy, orRoot]
  · rintro rfl rfl
    cases critical <;> cases ownerAction <;> simp [reachedBy, orRoot]
  · rintro rfl hmail
    cases critical <;> cases warning <;> cases mailHost <;> cases onHost <;> cases ownerAction <;>
      cases registered <;> simp_all [reachedBy, orRoot]

structure DeliveryLaws (register : List PageRegisterEntry) (labels : Labels)
    (reached : List Str) : Prop where
  /-- A critical alert reaches the pager and a mailbox. -/
  critical : labels severityLabel = "critical".toList →
    pageReceiverName ∈ reached ∧ (emailName ∈ reached ∨ emailOnHostName ∈ reached)
  /-- A critical alert that is neither on-host nor of the mail host reaches both mailboxes. -/
  both : labels severityLabel = "critical".toList → labels notifyLabel ≠ "on-host".toList →
    labels alertnameLabel ∉ mailHostNames → emailName ∈ reached ∧ emailOnHostName ∈ reached
  /-- An on-host alert leaves the host only for the owner, and never as a critical one. -/
  onHost : labels notifyLabel = "on-host".toList → emailName ∈ reached →
    labels ownerActionLabel = "true".toList ∧ labels severityLabel ≠ "critical".toList
  /-- An alert of the mail host reaches the dead-man hook and the off-host mailbox. -/
  mailHost : labels alertnameLabel ∈ mailHostNames → labels notifyLabel ≠ "on-host".toList →
    deadmanName ∈ reached ∧ emailName ∈ reached
  /-- A page reaches the pager if it is in the register and not on-host, and only then. -/
  page : labels severityLabel = "page".toList → (pageReceiverName ∈ reached ↔
    labels alertnameLabel ∈ pageAlertNames register ∧ labels notifyLabel ≠ "on-host".toList)

/-- An alert name that may stand in the register. -/
def MayPage (name : Str) : Prop :=
  IsIdentifier name ∧ name ≠ "Watchdog".toList ∧ name ∉ mailHostNames

theorem oneSeverity (names : List Str) (labels : Labels) : (kindOf names labels).OneSeverity := by
  have happart : "critical".toList ≠ "warning".toList ∧ "critical".toList ≠ "page".toList ∧
      "warning".toList ≠ "page".toList := by
    decide
  simp only [AlertKind.OneSeverity, kindOf, beq_iff_eq, beq_eq_false_iff_ne]
  refine ⟨fun hc => ?_, fun hw => ?_⟩
  · rw [hc]
    exact ⟨happart.1, happart.2.1⟩
  · rw [hw]
    exact happart.2.2

def oneEntry : List PageRegisterEntry := [⟨some "TenantFailedUnsafe".toList, .alertmanager, false⟩]

def tenantPage : Labels := fun label =>
  if label = alertnameLabel then "TenantFailedUnsafe".toList
  else if label = severityLabel then "page".toList else []

theorem mayPage_tenant : ∀ name ∈ pageAlertNames oneEntry, MayPage name := by
  have hnames : pageAlertNames oneEntry = ["TenantFailedUnsafe".toList] := rfl
  rw [hnames, List.forall_mem_singleton]
  have hword : ("TenantFailedUnsafe".toList.all isWordChar) = true := by rfl
  have hstart : ∀ c ∈ "TenantFailedUnsafe".toList.head?, c.isDigit = false := by
    rintro c ⟨⟩
    rfl
  exact ⟨⟨by decide, List.all_eq_true.mp hword, hstart⟩, by decide, by decide⟩

end Laws

end SharedInfra.Alerting
