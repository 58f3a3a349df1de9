import SharedInfra.HetznerHost.Firewalls
import SharedInfra.Python.IpRoundTrip

/-!
# Narrowing SSH

When the rule set that `sshRestrictedRules` gives, and the one that `sshFromOneAddressViolations`
lets through, admit tcp 22 from the one address only (`narrowsSsh_iff`).  The program sees a rule
for port 22 by the text of its port and replaces the sources it has.
-/

namespace SharedInfra.HetznerHost

open Python

/-- A packet to port 22. -/
def sshPacket (source : Address) : Packet := ⟨source, "tcp".toList, some 22⟩

/-- The result lets in what the rules let in, tcp 22 from the one address only; and that is a
dotted quad in none of the listed ranges. -/
structure Narrowed (rules result : List Rule) (address : Str) : Prop where
  packets : ∀ packet, admits result packet = true ↔ admits rules packet = true ∧
    (packet = sshPacket packet.source → addressOf address = some packet.source)
  quad : ∃ value, ipv4Value address = some value ∧ ∀ range ∈ neverASshSource, ∀ base,
    ipv4Value range.1 = some base → value / 2 ^ (32 - range.2) ≠ base / 2 ^ (32 - range.2)

/-- Port 22 is open to the one address, and any other address gets to the web and ICMP only. -/
structure OneAddress (rules : List Rule) (address : Str) : Prop where
  ssh : ∀ source, admits rules (sshPacket source) = true ↔ addressOf address = some source
  others : ∀ packet, admits rules packet = true → addressOf address ≠ some packet.source →
    packet.protocol = "icmp".toList ∨
      packet.protocol = "tcp".toList ∧ (packet.port = some 80 ∨ packet.port = some 443)

def NarrowsSsh (rules : List Rule) (address : Str) : Prop :=
  (∀ result, sshRestrictedRules rules address = .ok result → Narrowed rules result address) ∧
    (sshFromOneAddressViolations rules address = [] → OneAddress rules address)

structure AsWanted (rules : List Rule) (address : Str) : Prop where
  one : (rules.filter isSshRule).length = 1
  sources : ∀ rule ∈ rules, isSshRule rule = true → rule.sourceIps = [only address]
  inbound : ∀ rule ∈ rules, rule.direction = "in".toList
  labels : sorted (rules.map ruleLabel) = wantedLabels
  closed : ∀ rule ∈ rules, isOpen rule = false

/-- What the program leaves to its caller: where an accepted address meets one rule of port
`22`, the rules let that address in and no other rule lets another address in; and a set as it is
wanted has no IPv6 address. -/
structure Narrowable (rules : List Rule) (address : Str) : Prop where
  admitted : (rules.filter isSshRule).length = 1 → assertSshSourceAddress address = .ok address →
    ∀ source, addressOf address = some source → admits rules (sshPacket source) = true
  alone : (rules.filter isSshRule).length = 1 → assertSshSourceAddress address = .ok address →
    ∀ rule ∈ rules, isSshRule rule = false → ∀ source, rule.admits (sshPacket source) = true →
      addressOf address = some source
  quad : AsWanted rules address → ∀ value, addressOf address ≠ some (.v6 value)

section Source

variable {address : Str} {value : Nat}

theorem ipv4ToNumber_eq (h : ipv4Value address = some value) : ipv4ToNumber address = value := by
  rw [ipv4Value] at h
  split_ifs at h with hcount
  obtain ⟨bytes, hbytes, rfl⟩ := Option.map_eq_some_iff.mp h
  have hread := forall₂_of_mapM hbytes
  have hdecimal : (splitOnChar '.' address).map decimalValue = bytes := by
    clear h hcount hbytes
    generalize splitOnChar '.' address = octets at hread
    induction hread with
    | nil => rfl
    | cons hhead _ ih =>
      rw [List.map_cons, ih]
      rw [parseOctet] at hhead
      split_ifs at hhead
      rw [Option.some.inj hhead]
  rw [ipv4ToNumber, ← hdecimal, List.foldl_map]

theorem aligned {range : Str × Nat} (h : range ∈ neverASshSource) : ∃ base,
    ipv4Value range.1 = some base ∧ base % 2 ^ (32 - range.2) = 0 := by
  have hall : (neverASshSource.all fun range => isNetworkOf 32 (ipv4Value range.1)
      (some range.2)) = true := by
    simp only [neverASshSource, toList_literal]
    rfl
  have hone := List.all_eq_true.mp hall range h
  cases hbase : ipv4Value range.1 with
  | none =>
    simp only [hbase, isNetworkOf] at hone
    cases hone
  | some base =>
    simp only [hbase, isNetworkOf] at hone
    exact ⟨base, rfl, beq_iff_eq.mp hone⟩

theorem inRange_iff (value : Nat) {range : Str × Nat} (h : range ∈ neverASshSource) : ∃ base,
    ipv4Value range.1 = some base ∧ (inRange value range = true ↔
      value / 2 ^ (32 - range.2) = base / 2 ^ (32 - range.2)) := by
  obtain ⟨base, hbase, haligned⟩ := aligned h
  refine ⟨base, hbase, ?_⟩
  have hpos : 0 < 2 ^ (32 - range.2) := Nat.two_pow_pos _
  rw [inRange, Bool.and_eq_true, decide_eq_true_eq, decide_eq_true_eq, ipv4ToNumber_eq hbase]
  generalize 2 ^ (32 - range.2) = size at haligned hpos
  obtain ⟨k, rfl⟩ := Nat.dvd_of_mod_eq_zero haligned
  rw [Nat.mul_div_cancel_left _ hpos, Nat.div_eq_iff hpos, Nat.mul_comm]
  omega

theorem slash_not_in_quad (h : ipv4Value address = some value) : '/' ∉ address := fun hslash => by
  rw [ipv4Value] at h
  split_ifs at h
  obtain ⟨bytes, hbytes, -⟩ := Option.map_eq_some_iff.mp h
  rcases mem_splitOnChar '.' hslash with hsep | ⟨octet, hoctet, hin⟩
  · cases hsep
  · have hread := isSome_of_mapM hbytes octet hoctet
    rw [parseOctet] at hread
    split_ifs at hread with hrefused
    · cases hread
    · rw [Bool.or_eq_true, Bool.or_eq_true, Bool.or_eq_true, not_or, not_or, not_or] at hrefused
      have hdigits : isAsciiDigits octet = true := by simpa using hrefused.1.1.1
      have := List.all_eq_true.mp (Bool.and_eq_true_iff.mp hdigits).2 '/' hin
      cases this

theorem inNetwork_only {source : Address} (h : '/' ∉ address) :
    inNetwork source (only address) = match addressOf address, source with
      | some (.v4 start), .v4 value => decide (value = start)
      | some (.v6 start), .v6 value => value / 2 ^ 96 == start / 2 ^ 96
      | _, _ => false := by
  have hsplit : splitOnChar '/' (only address) = [address, "32".toList] := by
    rw [only, splitOnChar_prepend h]
    simp only [toList_literal]
    exact congrArg (· :: [['3', '2']]) (List.append_nil address)
  have hbits : isAsciiDigits "32".toList = true ∧ decimalValue "32".toList = 32 := by
    simp only [toList_literal]
    exact ⟨rfl, rfl⟩
  rw [inNetwork, hsplit]
  simp only [hbits.1, hbits.2, Bool.true_and]
  rcases addressOf address with _ | start | start <;> cases source <;> simp [Bool.beq_eq_decide_eq]

theorem inNetwork_slash {source : Address} (h : '/' ∈ address) :
    inNetwork source (only address) = false := by
  obtain ⟨front, back, rfl⟩ := List.append_of_mem h
  have hsplit : splitOnChar '/' (only (front ++ '/' :: back)) =
      splitOnChar '/' front ++ (splitOnChar '/' back ++ ["32".toList]) := by
    rw [only, List.append_assoc, List.cons_append, splitOnChar_append]
    simp only [toList_literal]
    rw [splitOnChar_append]
    rfl
  obtain ⟨x, xs, hx⟩ := List.exists_cons_of_ne_nil (splitOnChar_ne_nil '/' front)
  obtain ⟨y, ys, hy⟩ := List.exists_cons_of_ne_nil (splitOnChar_ne_nil '/' back)
  rw [inNetwork, hsplit, hx, hy]
  cases xs with
  | nil => cases ys <;> rfl
  | cons _ xs => cases xs <;> rfl

theorem addressOf_quad (h : ipv4Value address = some value) :
    addressOf address = some (.v4 value) := by
  rw [addressOf, h]
  rfl

theorem inNetwork_only_iff {source : Address} (h : ∀ value, addressOf address ≠ some (.v6 value)) :
    inNetwork source (only address) = true ↔ addressOf address = some source := by
  by_cases hslash : '/' ∈ address
  · rw [inNetwork_slash hslash]
    refine ⟨fun hin => absurd hin Bool.false_ne_true, fun hnamed => ?_⟩
    cases hquad : ipv4Value address with
    | some value => exact absurd hslash (slash_not_in_quad hquad)
    | none =>
      rw [addressOf, hquad] at hnamed h
      cases hsix : ipv6Value address with
      | none =>
        rw [hsix] at hnamed
        cases hnamed
      | some value =>
        rw [hsix] at h
        exact absurd rfl (h value)
  · rw [inNetwork_only hslash]
    rcases hnamed : addressOf address with _ | start | start
    · simp
    · cases source <;> simp [eq_comm]
    · exact absurd hnamed (h start)

theorem exists_other (h : addressOf address = some (.v6 value)) (hslash : '/' ∉ address) :
    ∃ source, inNetwork source (only address) = true ∧ addressOf address ≠ some source := by
  have hin : ∀ other, other / 2 ^ 96 = value / 2 ^ 96 →
      inNetwork (.v6 other) (only address) = true := fun other hsame => by
    rw [inNetwork_only hslash, h]
    exact beq_iff_eq.mpr hsame
  by_cases hzero : value % 2 ^ 96 = 0
  · refine ⟨.v6 (value + 1), hin _ (by omega), fun hsame => ?_⟩
    rw [h] at hsame
    cases hsame
  · refine ⟨.v6 (value - 1), hin _ (by omega), fun hsame => ?_⟩
    rw [h] at hsame
    have := Address.v6.inj (Option.some.inj hsame)
    omega

theorem assertSshSourceAddress_ok {result : Str} (h : assertSshSourceAddress address = .ok result) :
    result = address ∧ ∃ value, ipv4Value address = some value ∧ ∀ range ∈ neverASshSource,
      ∀ base, ipv4Value range.1 = some base →
        value / 2 ^ (32 - range.2) ≠ base / 2 ^ (32 - range.2) := by
  rw [assertSshSourceAddress] at h
  split_ifs at h with hquad
  cases hfound : neverASshSource.find? (inRange (ipv4ToNumber address)) with
  | some refused =>
    rw [hfound] at h
    cases h
  | none =>
    rw [hfound] at h
    obtain ⟨value, hvalue⟩ : ∃ value, ipv4Value address = some value := by
      rw [isIPv4] at hquad
      exact Option.isSome_iff_exists.mp (by simpa [← Option.isSome_iff_ne_none] using hquad)
    refine ⟨(Except.ok.inj h).symm, value, hvalue, fun range hrange base hbase hsame => ?_⟩
    have hout := List.find?_eq_none.mp hfound range hrange
    obtain ⟨base', hbase', hin⟩ := inRange_iff value hrange
    rw [ipv4ToNumber_eq hvalue] at hout
    rw [hbase] at hbase'
    cases hbase'
    exact hout (hin.mpr hsame)

end Source

section Rules

variable {rules result : List Rule} {rule : Rule} {address : Str} {source : Address}

theorem isSshRule_iff : isSshRule rule = true ↔ rule.direction = "in".toList ∧
    rule.protocol = "tcp".toList ∧ rule.port = some "22".toList := by
  rw [isSshRule, Bool.and_eq_true, Bool.and_eq_true, decide_eq_true_eq, decide_eq_true_eq,
    decide_eq_true_eq, and_assoc]

theorem admits_iff {packet : Packet} : admits rules packet = true ↔
    ∃ rule ∈ rules, rule.admits packet = true := List.any_eq_true

theorem Rule.admits_iff {packet : Packet} : rule.admits packet = true ↔
    rule.direction = "in".toList ∧ rule.protocol = packet.protocol ∧
      coversPacketPort rule.port packet.port = true ∧
        ∃ network ∈ rule.sourceIps, inNetwork packet.source network = true := by
  rw [Rule.admits, Bool.and_eq_true, Bool.and_eq_true, Bool.and_eq_true, decide_eq_true_eq,
    decide_eq_true_eq, and_assoc, and_assoc, List.any_eq_true]

theorem coversPort_literal : (∀ port, coversPort "22".toList port = true ↔ port = 22) ∧
    (∀ port, coversPort "80".toList port = true ↔ port = 80) ∧
      ∀ port, coversPort "443".toList port = true ↔ port = 443 := by
  simp only [toList_literal]
  refine ⟨fun port => ?_, fun port => ?_, fun port => ?_⟩
  · change (decide (22 = port)) = true ↔ _
    rw [decide_eq_true_eq, eq_comm]
  · change (decide (80 = port)) = true ↔ _
    rw [decide_eq_true_eq, eq_comm]
  · change (decide (443 = port)) = true ↔ _
    rw [decide_eq_true_eq, eq_comm]

theorem admits_sshRule (h : isSshRule rule = true) {packet : Packet} :
    rule.admits packet = true ↔ packet = sshPacket packet.source ∧
      ∃ network ∈ rule.sourceIps, inNetwork packet.source network = true := by
  obtain ⟨hin, htcp, hport⟩ := isSshRule_iff.mp h
  obtain ⟨source, protocol, port⟩ := packet
  have hcovers : coversPacketPort (some "22".toList) port = true ↔ port = some 22 := by
    cases port with
    | none => simp [coversPacketPort]
    | some port => simpa [coversPacketPort] using coversPort_literal.1 port
  rw [Rule.admits_iff, hin, htcp, hport, hcovers]
  simp only [sshPacket, Packet.mk.injEq, true_and, ← and_assoc, eq_comm]

theorem sshRestrictedRules_ok_iff : sshRestrictedRules rules address = .ok result ↔
    assertSshSourceAddress address = .ok address ∧ (rules.filter isSshRule).length = 1 ∧
      result = rules.map fun rule =>
        if isSshRule rule then { rule with sourceIps := [only address] } else rule := by
  rw [sshRestrictedRules]
  cases hassert : assertSshSourceAddress address with
  | error e =>
    refine ⟨fun h => ?_, fun h => ?_⟩
    · cases h
    · cases h.1
  | ok source =>
    rw [(assertSshSourceAddress_ok hassert).1]
    change (if (rules.filter isSshRule).length ≠ 1 then _ else Except.ok _) = _ ↔ _
    by_cases hone : (rules.filter isSshRule).length = 1
    · rw [if_neg (not_not.mpr hone)]
      exact ⟨fun h => ⟨rfl, hone, (Except.ok.inj h).symm⟩, fun h => congrArg _ h.2.2.symm⟩
    · rw [if_pos hone]
      refine ⟨fun h => ?_, fun h => absurd h.2.1 hone⟩
      cases h

theorem admits_narrowed (hone : (rules.filter isSshRule).length = 1) {packet : Packet} :
    admits (rules.map fun rule =>
        if isSshRule rule then { rule with sourceIps := [only address] } else rule) packet = true ↔
      (∃ rule ∈ rules, isSshRule rule = false ∧ rule.admits packet = true) ∨
        packet = sshPacket packet.source ∧ inNetwork packet.source (only address) = true := by
  rw [admits_iff]
  constructor
  · rintro ⟨narrowed, hnarrowed, hadmits⟩
    obtain ⟨rule, hrule, rfl⟩ := List.mem_map.mp hnarrowed
    cases hssh : isSshRule rule with
    | false =>
      rw [hssh] at hadmits
      exact Or.inl ⟨rule, hrule, hssh, hadmits⟩
    | true =>
      rw [hssh] at hadmits
      have hstays : isSshRule { rule with sourceIps := [only address] } = true := hssh
      obtain ⟨hpacket, network, hnetwork, hin⟩ := (admits_sshRule hstays).mp hadmits
      rw [List.mem_singleton.mp hnetwork] at hin
      exact Or.inr ⟨hpacket, hin⟩
  · rintro (⟨rule, hrule, hssh, hadmits⟩ | ⟨hpacket, hin⟩)
    · refine ⟨_, List.mem_map_of_mem hrule, ?_⟩
      rw [hssh]
      exact hadmits
    · obtain ⟨rule, hfound⟩ := List.length_eq_one_iff.mp hone
      have hmem : rule ∈ rules.filter isSshRule := hfound ▸ List.mem_singleton_self rule
      obtain ⟨hrule, hssh⟩ := List.mem_filter.mp hmem
      refine ⟨_, List.mem_map_of_mem hrule, ?_⟩
      rw [hssh]
      have hstays : isSshRule { rule with sourceIps := [only address] } = true := hssh
      exact (admits_sshRule hstays).mpr ⟨hpacket, _, List.mem_singleton_self _, hin⟩

theorem addressOf_ne_v6 {result : Str} (h : assertSshSourceAddress address = .ok result)
    (value : Nat) : addressOf address ≠ some (.v6 value) := fun hsix => by
  obtain ⟨-, quad, hquad, -⟩ := assertSshSourceAddress_ok h
  rw [addressOf_quad hquad] at hsix
  cases hsix

theorem narrowed_of (h : Narrowable rules address)
    (hresult : sshRestrictedRules rules address = .ok result) : Narrowed rules result address := by
  obtain ⟨hassert, hone, rfl⟩ := sshRestrictedRules_ok_iff.mp hresult
  refine ⟨fun packet => ?_, (assertSshSourceAddress_ok hassert).2⟩
  rw [admits_narrowed hone, inNetwork_only_iff (addressOf_ne_v6 hassert)]
  constructor
  · rintro (⟨rule, hrule, hssh, hadmits⟩ | ⟨hpacket, hnamed⟩)
    · refine ⟨admits_iff.mpr ⟨rule, hrule, hadmits⟩, fun hpacket => ?_⟩
      rw [hpacket] at hadmits
      exact h.alone hone hassert rule hrule hssh _ hadmits
    · refine ⟨?_, fun _ => hnamed⟩
      rw [hpacket]
      exact h.admitted hone hassert _ hnamed
  · rintro ⟨hadmits, hfrom⟩
    obtain ⟨rule, hrule, hlets⟩ := admits_iff.mp hadmits
    cases hssh : isSshRule rule with
    | false => exact Or.inl ⟨rule, hrule, hssh, hlets⟩
    | true =>
      have hpacket := ((admits_sshRule hssh).mp hlets).1
      exact Or.inr ⟨hpacket, hfrom hpacket⟩

end Rules

section Checked

variable {rules : List Rule} {rule : Rule} {address : Str} {source : Address}

theorem ite_singleton_eq_nil_iff {p : Prop} [Decidable p] {text : Str} :
    (if p then [text] else []) = [] ↔ ¬p := by
  by_cases h : p
  · rw [if_pos h]
    exact ⟨fun hnil => absurd hnil (List.cons_ne_nil _ _), fun hnot => absurd h hnot⟩
  · rw [if_neg h]
    exact ⟨fun _ => h, fun _ => rfl⟩

theorem violations_eq_nil_iff : sshFromOneAddressViolations rules address = [] ↔
    AsWanted rules address := by
  rw [sshFromOneAddressViolations]
  simp only [List.append_eq_nil_iff, List.map_eq_nil_iff, List.filter_eq_nil_iff,
    ite_singleton_eq_nil_iff, not_not, List.mem_filter, decide_eq_true_eq, and_imp,
    Bool.not_eq_true]
  constructor
  · rintro ⟨⟨⟨⟨hone, hsources⟩, hinbound⟩, hlabels⟩, hclosed⟩
    exact ⟨hone, hsources, hinbound, hlabels, hclosed⟩
  · rintro ⟨hone, hsources, hinbound, hlabels, hclosed⟩
    exact ⟨⟨⟨⟨hone, hsources⟩, hinbound⟩, hlabels⟩, hclosed⟩

theorem append_slash_inj {front back front' back' : Str}
    (h : front ++ '/' :: back = front' ++ '/' :: back') (hfront : '/' ∉ front')
    (hback : '/' ∉ back') : front = front' ∧ back = back' := by
  rcases List.append_eq_append_iff.mp h with ⟨rest, rfl, hrest⟩ | ⟨rest, rfl, hrest⟩
  · cases rest with
    | nil => exact ⟨(List.append_nil _).symm, (List.cons.inj hrest).2⟩
    | cons c rest =>
      rw [List.cons_append] at hrest
      rw [← (List.cons.inj hrest).1] at hfront
      exact absurd (List.mem_append_right _ List.mem_cons_self) hfront
  · cases rest with
    | nil => exact ⟨List.append_nil _, (List.cons.inj hrest).2.symm⟩
    | cons c rest =>
      rw [List.cons_append] at hrest
      rw [(List.cons.inj hrest).2] at hback
      exact absurd (List.mem_append_right _ List.mem_cons_self) hback

theorem AsWanted.kind (h : AsWanted rules address) (hrule : rule ∈ rules) :
    rule.protocol = "icmp".toList ∨ rule.protocol = "tcp".toList ∧
      (rule.port = some "22".toList ∨ rule.port = some "443".toList ∨
        rule.port = some "80".toList) := by
  have hlabel : ruleLabel rule ∈ wantedLabels := by
    rw [← h.labels]
    exact List.mem_mergeSort.mpr (List.mem_map_of_mem hrule)
  rw [ruleLabel] at hlabel
  split_ifs at hlabel with hicmp
  · exact Or.inl hicmp
  · have hport : ∀ text : Str, text ≠ [] → '/' ∉ text →
        protocolPort rule = "tcp".toList ++ '/' :: text →
        rule.protocol = "tcp".toList ∧ rule.port = some text := fun text hne hslash hsame => by
      obtain ⟨htcp, htext⟩ := append_slash_inj hsame (by simp only [toList_literal]; decide) hslash
      cases hrule : rule.port with
      | none =>
        rw [hrule] at htext
        exact absurd htext.symm hne
      | some port =>
        rw [hrule] at htext
        exact ⟨htcp, congrArg some htext⟩
    have hslash : '/' ∈ protocolPort rule := List.mem_append_right _ List.mem_cons_self
    simp only [wantedLabels, toList_literal] at hlabel hport
    simp only [List.mem_cons, List.not_mem_nil, or_false] at hlabel
    rcases hlabel with hlabel | hlabel | hlabel | hlabel
    · rw [hlabel] at hslash
      exact absurd hslash (by decide)
    · obtain ⟨htcp, hshown⟩ := hport ['2', '2'] (by decide) (by decide) hlabel
      exact Or.inr ⟨htcp, Or.inl hshown⟩
    · obtain ⟨htcp, hshown⟩ := hport ['4', '4', '3'] (by decide) (by decide) hlabel
      exact Or.inr ⟨htcp, Or.inr (Or.inl hshown)⟩
    · obtain ⟨htcp, hshown⟩ := hport ['8', '0'] (by decide) (by decide) hlabel
      exact Or.inr ⟨htcp, Or.inr (Or.inr hshown)⟩

theorem AsWanted.admits_ssh (h : AsWanted rules address) :
    admits rules (sshPacket source) = true ↔ inNetwork source (only address) = true := by
  constructor
  · intro hadmits
    obtain ⟨rule, hrule, hlets⟩ := admits_iff.mp hadmits
    obtain ⟨hin, hprotocol, hcovers, network, hnetwork, hfrom⟩ := Rule.admits_iff.mp hlets
    have htcp : rule.protocol ≠ "icmp".toList := fun hicmp => by
      rw [hprotocol, sshPacket] at hicmp
      simp only [toList_literal] at hicmp
      cases hicmp
    have hssh : isSshRule rule = true := by
      rcases h.kind hrule with hicmp | ⟨hprotocol, hport | hport | hport⟩
      · exact absurd hicmp htcp
      · exact isSshRule_iff.mpr ⟨hin, hprotocol, hport⟩
      · rw [hport] at hcovers
        exact absurd ((coversPort_literal.2.2 22).mp hcovers) (by decide)
      · rw [hport] at hcovers
        exact absurd ((coversPort_literal.2.1 22).mp hcovers) (by decide)
    rw [h.sources rule hrule hssh] at hnetwork
    rw [← List.mem_singleton.mp hnetwork]
    exact hfrom
  · intro hfrom
    obtain ⟨rule, hfound⟩ := List.length_eq_one_iff.mp h.one
    have hmem : rule ∈ rules.filter isSshRule := hfound ▸ List.mem_singleton_self rule
    obtain ⟨hrule, hssh⟩ := List.mem_filter.mp hmem
    refine admits_iff.mpr ⟨rule, hrule, (admits_sshRule hssh).mpr ⟨rfl, _, ?_, hfrom⟩⟩
    rw [h.sources rule hrule hssh]
    exact List.mem_singleton_self _

theorem AsWanted.oneAddress (h : AsWanted rules address)
    (hquad : ∀ value, addressOf address ≠ some (.v6 value)) : OneAddress rules address := by
  refine ⟨fun source => h.admits_ssh.trans (inNetwork_only_iff hquad),
    fun packet hadmits hother => ?_⟩
  obtain ⟨rule, hrule, hlets⟩ := admits_iff.mp hadmits
  obtain ⟨hin, hprotocol, hcovers, network, hnetwork, hfrom⟩ := Rule.admits_iff.mp hlets
  rcases h.kind hrule with hicmp | ⟨htcp, hport⟩
  · exact Or.inl (hprotocol.symm.trans hicmp)
  · refine Or.inr ⟨hprotocol.symm.trans htcp, ?_⟩
    cases hpacket : packet.port with
    | none =>
      rw [hpacket] at hcovers
      rcases hport with hport | hport | hport <;> rw [hport] at hcovers <;> cases hcovers
    | some port =>
      rw [hpacket] at hcovers
      rcases hport with hport | hport | hport
      · have hssh := isSshRule_iff.mpr ⟨hin, htcp, hport⟩
        rw [h.sources rule hrule hssh] at hnetwork
        rw [List.mem_singleton.mp hnetwork] at hfrom
        exact absurd ((inNetwork_only_iff hquad).mp hfrom) hother
      · rw [hport] at hcovers
        exact Or.inr (congrArg some ((coversPort_literal.2.2 port).mp hcovers))
      · rw [hport] at hcovers
        exact Or.inl (congrArg some ((coversPort_literal.2.1 port).mp hcovers))

end Checked

section Narrowing

variable {rules : List Rule} {address : Str}

theorem narrowable_of (h : NarrowsSsh rules address) : Narrowable rules address := by
  obtain ⟨hnarrowed, hchecked⟩ := h
  have hpackets : (rules.filter isSshRule).length = 1 →
      assertSshSourceAddress address = .ok address → ∀ source,
        ((∃ rule ∈ rules, isSshRule rule = false ∧ rule.admits (sshPacket source) = true) ∨
          addressOf address = some source) ↔
        admits rules (sshPacket source) = true ∧ addressOf address = some source := by
    intro hone hassert source
    have hall := (hnarrowed _ (sshRestrictedRules_ok_iff.mpr ⟨hassert, hone, rfl⟩)).packets
      (sshPacket source)
    rw [admits_narrowed hone, inNetwork_only_iff (addressOf_ne_v6 hassert)] at hall
    simpa [sshPacket] using hall
  refine ⟨fun hone hassert source hnamed => ?_, fun hone hassert rule hrule hssh source hlets => ?_,
    fun hwanted value hsix => ?_⟩
  · exact ((hpackets hone hassert source).mp (Or.inr hnamed)).1
  · exact ((hpackets hone hassert source).mp (Or.inl ⟨rule, hrule, hssh, hlets⟩)).2
  · have hssh := (hchecked (violations_eq_nil_iff.mpr hwanted)).ssh
    by_cases hslash : '/' ∈ address
    · have hin := hwanted.admits_ssh.mp ((hssh _).mpr hsix)
      rw [inNetwork_slash hslash] at hin
      cases hin
    · obtain ⟨source, hin, hnot⟩ := exists_other hsix hslash
      exact hnot ((hssh source).mp (hwanted.admits_ssh.mpr hin))

/-- The narrowing does as it says of exactly the rules that let the address in and have no other
rule for port `22`, and the check of exactly the sets whose address is not an IPv6 one. -/
theorem narrowsSsh_iff (rules : List Rule) (address : Str) :
    NarrowsSsh rules address ↔ Narrowable rules address :=
  ⟨narrowable_of, fun h => ⟨fun _ => narrowed_of h,
    fun hnone => have hwanted := violations_eq_nil_iff.mp hnone
      hwanted.oneAddress (h.quad hwanted)⟩⟩

/-- A rule for a range of ports lets SSH in from everywhere beside the narrowed rule. -/
theorem range_stays_open : ¬NarrowsSsh
    [ssh, ⟨"in".toList, "tcp".toList, some "20-30".toList, anySource⟩] "8.8.8.8".toList := by
  intro h
  have halone := (narrowable_of h).alone
  simp only [ssh, anySource, toList_literal] at halone
  have hnamed := halone rfl rfl _ (List.mem_cons_of_mem _ List.mem_cons_self) rfl (.v4 1) rfl
  cases hnamed

end Narrowing

end SharedInfra.HetznerHost
