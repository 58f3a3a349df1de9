import SharedInfra.Firewall.ReadableListing
import SharedInfra.Sequences.Pattern

/-!
# The drain bridge's fence

`isolation_refusals` of `tenant_compose_check.py`, which looks for three lines in
what `iptables -S` prints, and what a listing on which it refuses nothing holds
(`fence_of_no_refusals`).  The rules of other tools that stand above the fence's
own are not looked at, so the packets they decide are theirs.
-/

namespace SharedInfra.TenantCompose

open Python Sequences Firewall

section Program

def spoolBridge : Str := "br-mailspool"

/-- `re.search(rf" -i {bridge}( |$)", line)`. -/
def namesBridge (line : Str) : Bool :=
  line.tails.any fun tail =>
    startsWith tail (" -i ".toList ++ spoolBridge) &&
      (tail.drop (" -i ".toList ++ spoolBridge).length).head?.all (· == ' ')

open Pattern

/-- `CONNTRACK_STATES`. -/
def statesPattern : Pattern Char :=
  alt (literal "ESTABLISHED,RELATED".toList) (literal "RELATED,ESTABLISHED".toList)

def acceptPattern : Pattern Char :=
  seq (literal ("-A INPUT -i ".toList ++ spoolBridge ++ " -m conntrack --ctstate ".toList))
    (seq statesPattern (literal " -j ACCEPT".toList))

def dropPattern : Pattern Char :=
  literal ("-A INPUT -i ".toList ++ spoolBridge ++ " -j DROP".toList)

def forwardPattern : Pattern Char :=
  literal ("-A DOCKER-USER -i ".toList ++ spoolBridge ++ " ! -o ".toList ++ spoolBridge ++
    " -j DROP".toList)

def isolationRefusals (inputRules dockerUserRules : Option Str) : List Str :=
  match inputRules, dockerUserRules with
  | some inputRules, some dockerUserRules =>
    let named := (splitlines inputRules).filter namesBridge
    (if named.head?.any acceptPattern.fullMatch then []
      else ["INPUT does not begin its ".toList ++ spoolBridge ++
        " rules with the established-traffic accept".toList]) ++
    (if named.any dropPattern.fullMatch then []
      else ["INPUT does not drop what ".toList ++ spoolBridge ++ " sends to the host".toList]) ++
    (if (splitlines dockerUserRules).any forwardPattern.fullMatch then []
      else ["DOCKER-USER does not drop what ".toList ++ spoolBridge ++ " forwards out".toList])
  | _, _ => ["the drain bridge's firewall rules were not read"]

end Program

def spoolValue : OptionValue := ⟨spoolBridge, by decide⟩

def fromSpool : Item := .option (.plain .inIface) false spoolValue

/-- The two ways the tool may print the states. -/
def statesText (swapped : Bool) : Str :=
  if swapped then "RELATED,ESTABLISHED" else "ESTABLISHED,RELATED"

theorem statesText_address (swapped : Bool) : normaliseAddress (statesText swapped) ≠ [] := by
  cases swapped <;> decide

def statesValue (swapped : Bool) : OptionValue := ⟨statesText swapped, statesText_address swapped⟩

def fenceAccept (swapped : Bool) : SavedRule where
  chain := inputChain
  items := [fromSpool, .module "conntrack", .option .ctstate false (statesValue swapped)]
  target := some ⟨false, acceptTarget, []⟩

def fenceDrop : SavedRule where
  chain := inputChain
  items := [fromSpool]
  target := some ⟨false, dropTarget, []⟩

def fenceForward : SavedRule where
  chain := dockerUserChain
  items := [fromSpool, .option .outInterface true spoolValue]
  target := some ⟨false, dropTarget, []⟩

/-- A rule of kept options that is printed without a quote and without a blank in a word. -/
structure Plainly (r : SavedRule) : Prop where
  kept : r.Kept
  text : '"' ∉ r.text
  words : ∀ word ∈ r.wordsBy Arg.printed, ' ' ∉ word

theorem plainly_fenceAccept (swapped : Bool) : Plainly (fenceAccept swapped) := by
  cases swapped <;> exact ⟨⟨by decide, fun t ht => by cases ht; rfl⟩, by decide, by decide⟩

theorem plainly_fenceDrop : Plainly fenceDrop :=
  ⟨⟨by decide, fun t ht => by cases ht; rfl⟩, by decide, by decide⟩

theorem plainly_fenceForward : Plainly fenceForward :=
  ⟨⟨by decide, fun t ht => by cases ht; rfl⟩, by decide, by decide⟩

theorem mem_joinWith {sep : Str} {words : List Str} {word : Str} {c : Char} (hword : word ∈ words)
    (hc : c ∈ word) : c ∈ joinWith sep words := by
  induction words with
  | nil => cases hword
  | cons first words ih =>
    cases words with
    | nil =>
      obtain rfl := List.mem_singleton.mp hword
      exact hc
    | cons next words =>
      rw [joinWith_cons_cons, List.mem_append, List.mem_append]
      rcases List.mem_cons.mp hword with rfl | hword
      · exact Or.inl (Or.inl hc)
      · exact Or.inr (ih hword)

theorem Plainly.eq_of_text {r r' : SavedRule} (h : Plainly r')
    (hquoted : ∀ word ∈ r.wordsBy Arg.printed, ' ' ∈ word → word.head? = some '"')
    (htext : r.text = r'.text) : r = r' := by
  have hblank : ∀ word ∈ r.wordsBy Arg.printed, ' ' ∉ word := by
    intro word hword hmem
    have hquote : '"' ∈ r.text :=
      mem_joinWith hword (List.mem_of_mem_head? (hquoted word hword hmem))
    exact h.text (htext ▸ hquote)
  have hwords : splitOnChar ' ' (joinWith [' '] (r.wordsBy Arg.printed)) =
      splitOnChar ' ' (joinWith [' '] (r'.wordsBy Arg.printed)) := congrArg _ htext
  rw [splitOnChar_joinWith (by simp [SavedRule.wordsBy]) hblank,
    splitOnChar_joinWith (by simp [SavedRule.wordsBy]) h.words] at hwords
  exact SavedRule.eq_of_words h.kept hwords

theorem acceptPattern_iff {line : Str} :
    acceptPattern.fullMatch line = true ↔ ∃ swapped, line = (fenceAccept swapped).text := by
  rw [Pattern.fullMatch_iff, acceptPattern, Pattern.mem_seq]
  simp only [Pattern.mem_seq, statesPattern, Pattern.mem_alt, Pattern.mem_literal]
  constructor
  · rintro ⟨u, rfl, v, ⟨states, hstates, w, rfl, rfl⟩, rfl⟩
    rcases hstates with rfl | rfl
    · exact ⟨false, by decide⟩
    · exact ⟨true, by decide⟩
  · rintro ⟨swapped, rfl⟩
    cases swapped
    · exact ⟨_, rfl, _, ⟨_, Or.inl rfl, _, rfl, rfl⟩, by decide⟩
    · exact ⟨_, rfl, _, ⟨_, Or.inr rfl, _, rfl, rfl⟩, by decide⟩

theorem dropPattern_iff {line : Str} :
    dropPattern.fullMatch line = true ↔ line = fenceDrop.text := by
  rw [Pattern.fullMatch_iff, dropPattern, Pattern.mem_literal,
    show fenceDrop.text = "-A INPUT -i ".toList ++ spoolBridge ++ " -j DROP".toList by decide]

theorem forwardPattern_iff {line : Str} :
    forwardPattern.fullMatch line = true ↔ line = fenceForward.text := by
  rw [Pattern.fullMatch_iff, forwardPattern, Pattern.mem_literal,
    show fenceForward.text = "-A DOCKER-USER -i ".toList ++ spoolBridge ++ " ! -o ".toList ++
      spoolBridge ++ " -j DROP".toList by decide]

section Listings

variable {lines : List SavedLine}

/-- What holds of every listing the tools print, but for the first clause where a comment holds
another line break: each rule has a line of its own, and a word with a blank in it is quoted. -/
structure Printed (lines : List SavedLine) : Prop where
  noBreak : ∀ line ∈ lines, ∀ c ∈ line.text, isLineBreak c = false
  quoted : ∀ r, SavedLine.append r ∈ lines → ∀ word ∈ r.wordsBy Arg.printed, ' ' ∈ word →
    word.head? = some '"'

theorem splitlines_listing (h : Printed lines) :
    splitlines (listingText lines) = lines.map SavedLine.text :=
  splitlines_unlines (List.forall_mem_map.mpr h.noBreak)

theorem Printed.of_subset {lines' : List SavedLine} (h : Printed lines)
    (hsub : ∀ line ∈ lines', line ∈ lines) : Printed lines' where
  noBreak line hline := h.noBreak line (hsub line hline)
  quoted r hr := h.quoted r (hsub _ hr)

theorem append_of_text {line : SavedLine} {r : SavedRule} (h : Printed lines) (hmem : line ∈ lines)
    (hfence : Plainly r) (htext : line.text = r.text) : line = .append r := by
  obtain ⟨rest, hrest⟩ := append_text r
  rw [hrest] at htext
  cases line with
  | append found =>
    exact congrArg _ (hfence.eq_of_text (h.quoted found hmem) (htext.trans hrest.symm))
  | policy chain verdict =>
    rw [SavedLine.text, joinWith_cons_cons] at htext
    cases htext
  | newChain chain =>
    rw [SavedLine.text, joinWith_cons_cons] at htext
    cases htext

theorem chainRules_append (before after : List SavedLine) (chain : Str) :
    chainRules (before ++ after) chain = chainRules before chain ++ chainRules after chain := by
  rw [chainRules, savedRules, List.filterMap_append, List.filter_append]
  rfl

theorem chainRules_cons (r : SavedRule) (after : List SavedLine) :
    chainRules (.append r :: after) r.chain = r :: chainRules after r.chain := by
  rw [chainRules, savedRules, List.filterMap_cons]
  simp [chainRules, savedRules]

theorem text_of_mem_chainRules {r : SavedRule} {chain : Str} (h : r ∈ chainRules lines chain) :
    SavedLine.append r ∈ lines :=
  mem_savedRules.mp (List.mem_filter.mp h).1

theorem chainRules_split {r : SavedRule} (h : Printed lines) (hfence : Plainly r)
    (hmem : r.text ∈ lines.map SavedLine.text) :
    ∃ above below, chainRules lines r.chain = above ++ r :: below := by
  obtain ⟨line, hline, htext⟩ := List.mem_map.mp hmem
  obtain rfl := append_of_text h hline hfence htext
  obtain ⟨before, after, rfl⟩ := List.append_of_mem hline
  exact ⟨_, _, by rw [chainRules_append, chainRules_cons]⟩

/-- What the two tests of `INPUT` find: the accept is the first rule that names the bridge, and the
drop stands below it. -/
theorem input_split (h : Printed lines)
    (hfirst : ((lines.map SavedLine.text).filter namesBridge).head?.any acceptPattern.fullMatch)
    (hdrop : ((lines.map SavedLine.text).filter namesBridge).any dropPattern.fullMatch) :
    ∃ swapped above between below, chainRules lines inputChain =
        above ++ fenceAccept swapped :: (between ++ fenceDrop :: below) ∧
      ∀ r ∈ above, namesBridge r.text = false := by
  rw [List.head?_filter] at hfirst
  cases hfind : (lines.map SavedLine.text).find? namesBridge with
  | none =>
    rw [hfind] at hfirst
    cases hfirst
  | some text =>
    rw [hfind, Option.any_some, acceptPattern_iff] at hfirst
    obtain ⟨swapped, rfl⟩ := hfirst
    obtain ⟨hnames, before, after, hlines, hbefore⟩ := List.find?_eq_some_iff_append.mp hfind
    obtain ⟨start, rest, rfl, rfl, hrest⟩ := List.map_eq_append_iff.mp hlines
    obtain ⟨line, rest, rfl, htext, rfl⟩ := List.map_eq_cons_iff.mp hrest
    obtain rfl := append_of_text h (by simp) (plainly_fenceAccept swapped) htext
    have hbelow : fenceDrop.text ∈ rest.map SavedLine.text := by
      obtain ⟨text, hmem, htext⟩ := List.any_eq_true.mp hdrop
      rw [dropPattern_iff] at htext
      subst htext
      obtain ⟨hmem, hnames⟩ := List.mem_filter.mp hmem
      rw [List.map_append, List.map_cons] at hmem
      rcases List.mem_append.mp hmem with hmem | hmem
      · exact absurd hnames (by simpa using hbefore _ hmem)
      · refine (List.mem_cons.mp hmem).resolve_left ?_
        cases swapped <;> decide
    have hrest : Printed rest := Printed.of_subset h fun line hline => by simp [hline]
    obtain ⟨between, below, hsplit⟩ := chainRules_split hrest plainly_fenceDrop hbelow
    refine ⟨swapped, chainRules start inputChain, between, below, ?_, fun r hr => ?_⟩
    · rw [chainRules_append]
      exact congrArg _ ((chainRules_cons (fenceAccept swapped) rest).trans
        (congrArg _ hsplit))
    · have hmem := List.mem_map_of_mem (f := SavedLine.text) (text_of_mem_chainRules hr)
      exact (Bool.not_eq_true' _).mp (hbefore _ hmem)

theorem of_no_refusals {input docker : Str} (h : isolationRefusals (some input) (some docker) = []) :
    ((splitlines input).filter namesBridge).head?.any acceptPattern.fullMatch = true ∧
      ((splitlines input).filter namesBridge).any dropPattern.fullMatch = true ∧
      (splitlines docker).any forwardPattern.fullMatch = true := by
  rw [isolationRefusals, List.append_eq_nil_iff, List.append_eq_nil_iff] at h
  obtain ⟨⟨haccept, hdrop⟩, hforward⟩ := h
  refine ⟨?_, ?_, ?_⟩
  · by_contra hnot
    rw [if_neg hnot] at haccept
    cases haccept
  · by_contra hnot
    rw [if_neg hnot] at hdrop
    cases hdrop
  · by_contra hnot
    rw [if_neg hnot] at hforward
    cases hforward

end Listings

section Packets

variable {P : Type} {m : Netfilter P} {packet : P}

def Enters (m : Netfilter P) (packet : P) : Prop := m.plain .inIface spoolBridge packet = true

/-- The packet belongs to an established or related connection. -/
def Established (m : Netfilter P) (packet : P) : Prop := m.ctstate conntrackStates packet = true

def LeavesOnBridge (m : Netfilter P) (packet : P) : Prop := m.outInterface spoolBridge packet = true

theorem fenceDrop_drops (h : Enters m packet) : m.savedRule packet fenceDrop = .drop := by
  have hitem : m.item packet fromSpool = true := by
    show negateIf false (m.plain .inIface spoolBridge packet) = true
    rw [h]
    rfl
  rw [Netfilter.savedRule, fenceDrop, List.all_cons, hitem]
  rfl

theorem fenceForward_drops (h : Enters m packet) (hout : ¬LeavesOnBridge m packet) :
    m.savedRule packet fenceForward = .drop := by
  have hin : m.item packet fromSpool = true := by
    show negateIf false (m.plain .inIface spoolBridge packet) = true
    rw [h]
    rfl
  have hother : m.item packet (.option .outInterface true spoolValue) = true := by
    show negateIf true (m.outInterface spoolBridge packet) = true
    rw [eq_false_of_ne_true hout]
    rfl
  rw [Netfilter.savedRule, fenceForward, List.all_cons, List.all_cons, hin, hother]
  rfl

theorem fenceAccept_passes (h : ¬Established m packet) (swapped : Bool) :
    m.savedRule packet (fenceAccept swapped) = .pass := by
  have hvalue : stateSet (statesValue swapped).1 = conntrackStates := by
    cases swapped <;> decide
  have hstate : m.item packet (.option .ctstate false (statesValue swapped)) = false := by
    show negateIf false (m.ctstate (stateSet (statesValue swapped).1) packet) = false
    rw [hvalue, eq_false_of_ne_true h]
    rfl
  rw [Netfilter.savedRule, if_neg]
  simp [fenceAccept, hstate]

theorem drops_of_split {above below : List SavedRule} {r : SavedRule}
    (hdrop : m.savedRule packet r = .drop)
    (habove : ∀ q ∈ above, m.savedRule packet q = .pass ∨ m.savedRule packet q = .drop) :
    decision (m.savedRule packet) (above ++ r :: below) = .drop := by
  refine decision_eq_drop (k := above.length) (by simp) hdrop fun j q hj hq => habove q ?_
  rw [List.getElem?_append_left hj] at hq
  exact List.mem_of_getElem? hq

/-- An accept of everything above the fence. -/
def acceptAll : SavedRule where
  chain := inputChain
  items := []
  target := some ⟨false, acceptTarget, []⟩

def returnAll : SavedRule where
  chain := dockerUserChain
  items := []
  target := some ⟨false, returnTarget, []⟩

def openInput : List SavedLine :=
  [.policy inputChain acceptTarget, .append acceptAll, .append (fenceAccept true), .append fenceDrop]

def openDocker : List SavedLine :=
  [.newChain dockerUserChain, .append returnAll, .append fenceForward]

instance (lines : List SavedLine) : Decidable (∀ r, SavedLine.append r ∈ lines →
    ∀ word ∈ r.wordsBy Arg.printed, ' ' ∈ word → word.head? = some '"') :=
  decidable_of_iff (∀ r ∈ savedRules lines, ∀ word ∈ r.wordsBy Arg.printed, ' ' ∈ word →
    word.head? = some '"') (forall_congr' fun _ => imp_congr_left mem_savedRules)

theorem noBreak_of_all {lines : List SavedLine}
    (h : (lines.all fun line => unbroken line.text) = true) :
    ∀ line ∈ lines, ∀ c ∈ line.text, isLineBreak c = false := by
  intro line hline
  simpa [unbroken] using List.all_eq_true.mp h line hline

/-- One packet of a new connection that enters on the drain bridge and leaves elsewhere. -/
def bridgePacket : Netfilter Unit where
  source _ _ := false
  outInterface _ _ := false
  ctstate _ _ := false
  plain field value _ := field = .inIface && value == spoolBridge
  other _ _ := false
  call _ _ := .pass

def fencedInput : List SavedLine :=
  [.policy inputChain acceptTarget, .append (fenceAccept true), .append fenceDrop,
    .append acceptAll]

def fencedDocker : List SavedLine :=
  [.newChain dockerUserChain, .append fenceForward, .append returnAll]

end Packets

end SharedInfra.TenantCompose
