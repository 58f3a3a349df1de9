import SharedInfra.Dnsbl.ReadingSpec

/-!
# What a lookup proves

`parse_response` accepts a response (`Accepted`) without looking at everything a complete
response to the query has (`Complete`).  What it returns is proved by the response
exactly where what it does not look at is as it should be (`WellFormed`).
-/

namespace SharedInfra.Dnsbl

open Python Dns Effects

def lowerByte (b : UInt8) : UInt8 := if 65 ≤ b.toNat ∧ b.toNat ≤ 90 then b + 32 else b

/-- The labels of a name are those that are asked for, in any case. -/
def SameName (labels : List Bytes) (hostname : Str) : Prop :=
  labels.map (·.map lowerByte) =
    (queryLabels hostname).map fun label => (label.map asciiByte).map lowerByte

def rcodeOf (payload : Bytes) : Nat := (headerOf payload).flags &&& 0xf

def truncated (payload : Bytes) : Prop := (headerOf payload).flags &&& 0x200 ≠ 0

structure SectionsAt (payload : Bytes) (offset : Nat) (answers : List ResourceRecord) : Prop where
  within : ∃ next, RecordsAt payload (fun _ => True) offset (headerOf payload).answers answers next ∧
    ∃ authority next', RecordsAt payload (fun _ => True) next (headerOf payload).authority
      authority next' ∧
    ∃ additional last, RecordsAt payload (fun _ => True) next' (headerOf payload).additional
      additional last

structure QuestionForA (payload : Bytes) (behind : Nat) : Prop where
  fits : behind + 4 ≤ payload.length
  type : wordOf payload behind = 1
  «class» : wordOf payload (behind + 2) = 1

structure Complete (payload : Bytes) (queryId : Nat) (hostname : Str)
    (answers : List ResourceRecord) : Prop where
  header : 12 ≤ payload.length
  id : (headerOf payload).id = queryId
  response : (headerOf payload).flags &&& 0x8000 ≠ 0
  questions : (headerOf payload).questions = 1
  question : ∃ jumps labels behind, NameAt payload 12 jumps labels behind ∧
    SameName labels hostname ∧ QuestionForA payload behind ∧ SectionsAt payload (behind + 4) answers

def IsA (record : ResourceRecord) : Prop := record.type = 1 ∧ record.class = 1

/-- A response that proves that the name has no address. -/
def ProofOfAbsence (payload : Bytes) (queryId : Nat) (hostname : Str) : Prop :=
  ∃ answers, Complete payload queryId hostname answers ∧
    (rcodeOf payload = 3 ∨ rcodeOf payload = 0 ∧ ¬ truncated payload ∧ ∀ r ∈ answers, ¬ IsA r)

def Lists (payload : Bytes) (queryId : Nat) (hostname : Str) (addresses : List Str) : Prop :=
  ∃ answers, Complete payload queryId hostname answers ∧ rcodeOf payload = 0 ∧
    ∀ address, address ∈ addresses ↔
      ∃ r ∈ answers, IsA r ∧ r.data.length = 4 ∧ address = addressText r.data

def MeetsLookup (payload : Bytes) (queryId : Nat) (hostname : Str) : Prop :=
  ∃ outcome, parseResponse payload queryId hostname = .ok outcome ∧ (outcome.ok = true →
    if outcome.addresses = [] then ProofOfAbsence payload queryId hostname
    else Lists payload queryId hostname outcome.addresses)

/-- A response that passes what is looked at, with the addresses that are read from it. -/
structure Accepted (payload : Bytes) (queryId : Nat) (hostname : Str) (addresses : List Str) :
    Prop where
  header : 12 ≤ payload.length
  id : (headerOf payload).id = queryId
  response : (headerOf payload).flags &&& 0x8000 ≠ 0
  sections : ∃ names offset,
    QuestionsAt payload Followed 12 (headerOf payload).questions names offset ∧
    ((headerOf payload).questions ≠ 0 →
      lower ((names.head?.map nameText).getD []) = lower (stripDots hostname)) ∧
    (rcodeOf payload = 3 ∧ addresses = [] ∨ rcodeOf payload = 0 ∧ ∃ records next,
      RecordsAt payload Followed offset (headerOf payload).answers records next ∧
      (records.filterMap addressOf = [] → ¬ truncated payload) ∧
      addresses = sortedSet (records.filterMap addressOf))

/-- What is not looked at: one question, its type and class, no dot in a label of its name, every
section within the message, and an A record with an address if there is an A record. -/
structure WellFormed (payload : Bytes) : Prop where
  questions : (headerOf payload).questions = 1
  question : ∃ jumps labels behind answers, NameAt payload 12 jumps labels behind ∧
    (∀ label ∈ labels, 46 ∉ label) ∧ QuestionForA payload behind ∧
    SectionsAt payload (behind + 4) answers ∧
    (rcodeOf payload = 0 → (∃ r ∈ answers, IsA r) → ∃ r ∈ answers, IsA r ∧ r.data.length = 4)

section Acceptance

variable {payload : Bytes} {queryId : Nat} {hostname : Str}

theorem headerOf_take (payload : Bytes) : headerOf (payload.take 12) = headerOf payload := by
  have hword : ∀ i, i + 1 < 12 → wordOf (payload.take 12) i = wordOf payload i := by
    intro i hi
    have hslice : wordOf ((payload.drop 0).take 12) i = wordOf payload (0 + i) := wordOf_slice hi
    rwa [List.drop_zero, Nat.zero_add] at hslice
  simp only [headerOf, hword 0 (by omega), hword 2 (by omega), hword 4 (by omega),
    hword 6 (by omega), hword 8 (by omega), hword 10 (by omega)]

theorem unpackHeader_take (h : 12 ≤ payload.length) :
    unpackHeader (payload.take 12) = .ok (headerOf payload) := by
  rw [unpackHeader, headerOf_take, if_pos]
  rw [List.length_take]
  omega

theorem parseSections_onlyMalformed (header : Header) :
    OnlyMalformed (parseSections payload header hostname) := by
  rw [parseSections]
  refine (readQuestions_onlyMalformed 0 []).bind fun found _ => ?_
  dsimp only
  split_ifs
  · exact .malformed
  · exact .ok
  · exact .ok
  · refine readAnswers_onlyMalformed.bind fun addresses _ => ?_
    split_ifs
    · exact .ok
    · exact .ok

theorem parseMessage_onlyMalformed : OnlyMalformed (parseMessage payload queryId hostname) := by
  rw [parseMessage]
  split_ifs with hshort
  · exact .malformed
  · rw [unpackHeader_take (Nat.le_of_not_lt hshort)]
    refine OnlyMalformed.ok.bind fun header _ => ?_
    split_ifs
    · exact .malformed
    · exact .malformed
    · exact parseSections_onlyMalformed header

theorem parseResponse_total (payload : Bytes) (queryId : Nat) (hostname : Str) :
    ∃ outcome, parseResponse payload queryId hostname = .ok outcome := by
  rw [parseResponse]
  cases hmessage : parseMessage payload queryId hostname with
  | ok outcome => exact ⟨outcome, rfl⟩
  | error e =>
    obtain ⟨what, rfl⟩ := parseMessage_onlyMalformed e hmessage
    exact ⟨_, rfl⟩

theorem sortedSet_nil_iff {addresses : List Str} : sortedSet addresses = [] ↔ addresses = [] := by
  rw [sortedSet, ← List.length_eq_zero_iff, List.length_mergeSort, List.length_eq_zero_iff]
  exact List.dedup_eq_nil addresses

theorem mem_sortedSet {addresses : List Str} {address : Str} :
    address ∈ sortedSet addresses ↔ address ∈ addresses := by
  rw [sortedSet, List.mem_mergeSort, List.mem_dedup]

theorem parseSections_ok_iff {addresses : List Str} :
    (∃ outcome, parseSections payload (headerOf payload) hostname = .ok outcome ∧
        outcome.ok = true ∧ outcome.addresses = addresses) ↔
      ∃ names offset, QuestionsAt payload Followed 12 (headerOf payload).questions names offset ∧
        ((headerOf payload).questions ≠ 0 →
          lower ((names.head?.map nameText).getD []) = lower (stripDots hostname)) ∧
        (rcodeOf payload = 3 ∧ addresses = [] ∨ rcodeOf payload = 0 ∧ ∃ records next,
          RecordsAt payload Followed offset (headerOf payload).answers records next ∧
          (records.filterMap addressOf = [] → ¬ truncated payload) ∧
          addresses = sortedSet (records.filterMap addressOf)) := by
  constructor
  · rintro ⟨outcome, hsections, hok, rfl⟩
    obtain ⟨⟨questionName, offset⟩, hquestions, hrest⟩ := bind_eq_ok_iff.mp hsections
    obtain ⟨names, hnames, hname⟩ := readQuestions_ok_iff.mp hquestions
    rw [if_pos rfl] at hname
    dsimp only at hrest
    split_ifs at hrest with hdifferent hnxdomain hrcode
    · cases hrest
      refine ⟨names, offset, hnames, fun hne => ?_, .inl ⟨hnxdomain, rfl⟩⟩
      rw [← hname]
      by_contra hother
      exact hdifferent ⟨hne, hother⟩
    · cases hrest
      cases hok
    · obtain ⟨found, hanswers, hrest⟩ := bind_eq_ok_iff.mp hrest
      obtain ⟨records, next, hrecords, hfound⟩ := readAnswers_ok_iff.mp hanswers
      rw [List.nil_append] at hfound
      subst hfound
      split_ifs at hrest with htruncated
      · cases hrest
        cases hok
      · cases hrest
        refine ⟨names, offset, hnames, fun hne => ?_, .inr ⟨not_ne_iff.mp hrcode, records, next,
          hrecords, fun hnone htrunc => htruncated ⟨hnone, htrunc⟩, rfl⟩⟩
        rw [← hname]
        by_contra hother
        exact hdifferent ⟨hne, hother⟩
  · rintro ⟨names, offset, hnames, hname, hcase⟩
    have hquestions := readQuestions_ok_iff.mpr
      ⟨names, hnames, (if_pos rfl : (if 0 = 0 then (names.head?.map nameText).getD [] else []) = _).symm⟩
    rw [parseSections, hquestions]
    have hsame : ¬ ((headerOf payload).questions ≠ 0 ∧
        lower ((names.head?.map nameText).getD []) ≠ lower (stripDots hostname)) :=
      fun h => h.2 (hname h.1)
    rcases hcase with ⟨hrcode, rfl⟩ | ⟨hrcode, records, next, hrecords, htruncated, rfl⟩
    · exact ⟨⟨true, [], none⟩, (if_neg hsame).trans (if_pos hrcode), rfl, rfl⟩
    · have hrcode' : ¬ rcodeOf payload = 3 := by rw [hrcode]; decide
      have hanswers : readAnswers payload (headerOf payload).answers offset [] =
          .ok (records.filterMap addressOf) :=
        readAnswers_ok_iff.mpr ⟨records, next, hrecords, (List.nil_append _).symm⟩
      refine ⟨⟨true, sortedSet (records.filterMap addressOf), none⟩, ?_, rfl, rfl⟩
      refine (if_neg hsame).trans ((if_neg hrcode').trans ((if_neg (not_ne_iff.mpr hrcode)).trans ?_))
      rw [hanswers]
      exact if_neg fun h => htruncated h.1 h.2

theorem parseResponse_ok_iff {addresses : List Str} :
    (∃ outcome, parseResponse payload queryId hostname = .ok outcome ∧ outcome.ok = true ∧
      outcome.addresses = addresses) ↔ Accepted payload queryId hostname addresses := by
  have hmessage : (∃ outcome, parseResponse payload queryId hostname = .ok outcome ∧
      outcome.ok = true ∧ outcome.addresses = addresses) ↔
      ∃ outcome, parseMessage payload queryId hostname = .ok outcome ∧ outcome.ok = true ∧
        outcome.addresses = addresses := by
    rw [parseResponse]
    cases hparse : parseMessage payload queryId hostname with
    | ok outcome => rfl
    | error e =>
      obtain ⟨what, rfl⟩ := parseMessage_onlyMalformed e hparse
      constructor
      · rintro ⟨outcome, houtcome, hok, -⟩
        cases houtcome
        cases hok
      · rintro ⟨outcome, houtcome, -⟩
        cases houtcome
  rw [hmessage, parseMessage]
  by_cases hshort : payload.length < 12
  · rw [if_pos hshort]
    exact ⟨fun ⟨_, h, _⟩ => (by cases h), fun h => absurd h.header (Nat.not_le.mpr hshort)⟩
  · rw [if_neg hshort, unpackHeader_take (Nat.le_of_not_lt hshort)]
    show (∃ outcome, (if (headerOf payload).id ≠ queryId then _ else _) = _ ∧ _) ↔ _
    by_cases hid : (headerOf payload).id ≠ queryId
    · rw [if_pos hid]
      exact ⟨fun ⟨_, h, _⟩ => (by cases h), fun h => absurd h.id hid⟩
    · rw [if_neg hid]
      by_cases hresponse : (headerOf payload).flags &&& 0x8000 = 0
      · rw [if_pos hresponse]
        exact ⟨fun ⟨_, h, _⟩ => (by cases h), fun h => absurd hresponse h.response⟩
      · rw [if_neg hresponse, parseSections_ok_iff]
        exact ⟨fun h => ⟨Nat.le_of_not_lt hshort, not_ne_iff.mp hid, hresponse, h⟩,
          fun h => h.sections⟩

end Acceptance

section Names

variable {labels : List Bytes} {hostname : Str}

theorem map_eq_map_of_forall {α β γ δ : Type} {f : α → γ} {g : β → γ} {f' : α → δ} {g' : β → δ}
    {xs : List α} {ys : List β} (h : xs.map f = ys.map g)
    (hall : ∀ x ∈ xs, ∀ y ∈ ys, f x = g y → f' x = g' y) : xs.map f' = ys.map g' := by
  induction xs generalizing ys with
  | nil =>
    cases ys with
    | nil => rfl
    | cons y ys => cases h
  | cons x xs ih =>
    cases ys with
    | nil => cases h
    | cons y ys =>
      rw [List.map_cons, List.map_cons, List.cons.injEq] at h
      rw [List.map_cons, List.map_cons,
        hall x (List.mem_cons_self ..) y (List.mem_cons_self ..) h.1,
        ih h.2 fun x hx y hy => hall x (List.mem_cons_of_mem _ hx) y (List.mem_cons_of_mem _ hy)]

theorem lowerByte_eq {b : UInt8} {c : Char} (hc : c.toNat < 128)
    (h : (decodeByte b).toLower = c.toLower) : lowerByte b = lowerByte (asciiByte c) := by
  have hlower : ∀ n, n < 128 → (Char.ofNat n).toLower.toNat = (lowerByte (UInt8.ofNat n)).toNat := by
    decide
  have hascii : ∀ n, n < 128 → (lowerByte (UInt8.ofNat n)).toNat < 128 := by decide
  have hnat : c.toLower.toNat = (lowerByte (asciiByte c)).toNat := by
    have hof := hlower c.toNat hc
    rwa [Char.ofNat_toNat] at hof
  rw [decodeByte] at h
  split_ifs at h with hb
  · refine UInt8.toNat_inj.mp ?_
    rw [← hnat, ← h, hlower b.toNat hb, UInt8.ofNat_toNat]
  · have hreplaced : (Char.ofNat 0xfffd).toLower.toNat = 0xfffd := by decide
    have hsmall := hascii c.toNat hc
    rw [h, hnat] at hreplaced
    rw [asciiByte] at hreplaced
    omega

theorem mem_queryLabels {label : Str} (h : label ∈ queryLabels hostname) :
    label ≠ [] ∧ '.' ∉ label := by
  obtain ⟨hmem, hne⟩ := List.mem_filter.mp h
  exact ⟨of_decide_eq_true hne, not_mem_of_mem_splitOnChar label hmem⟩

theorem encodeLabel_ascii {label : Str} {wire : Bytes} (h : encodeLabel label = some wire) :
    ∀ c ∈ label, c.toNat < 128 := by
  rw [encodeLabel] at h
  split_ifs at h with hlabel
  exact fun c hc => of_decide_eq_true (List.all_eq_true.mp hlabel.1 c hc)

theorem HostName.queryLabels_ne_nil (host : HostName) : queryLabels host.name ≠ [] := by
  intro hnil
  have hencodable := host.encodable
  rw [encodeName, if_pos hnil] at hencodable
  cases hencodable

theorem HostName.ascii (host : HostName) :
    ∀ label ∈ queryLabels host.name, ∀ c ∈ label, c.toNat < 128 := by
  have hencodable := host.encodable
  rw [encodeName, if_neg host.queryLabels_ne_nil, Option.isSome_map] at hencodable
  intro label hlabel
  obtain ⟨wires, hwires⟩ := Option.isSome_iff_exists.mp hencodable
  obtain ⟨wire, hwire⟩ := Option.isSome_iff_exists.mp (isSome_of_mapM hwires label hlabel)
  exact encodeLabel_ascii hwire

theorem SameName.dotFree {host : HostName} (h : SameName labels host.name) :
    ∀ label ∈ labels, 46 ∉ label := by
  intro label hlabel hdot
  have hmem : label.map lowerByte ∈ (queryLabels host.name).map fun label =>
      (label.map asciiByte).map lowerByte := by
    rw [← h]
    exact List.mem_map.mpr ⟨label, hlabel, rfl⟩
  obtain ⟨query, hquery, heq⟩ := List.mem_map.mp hmem
  have hlower : (46 : UInt8) ∈ (query.map asciiByte).map lowerByte := by
    rw [heq]
    exact List.mem_map.mpr ⟨46, hdot, by decide⟩
  obtain ⟨b, hb, hbyte⟩ := List.mem_map.mp hlower
  obtain ⟨c, hc, rfl⟩ := List.mem_map.mp hb
  have hall : ∀ n, n < 128 → lowerByte (UInt8.ofNat n) = 46 → n = 46 := by decide
  have hdotted := hall c.toNat (host.ascii query hquery c hc) hbyte
  have hchar : c = '.' := Char.toNat_inj.mp hdotted
  exact (mem_queryLabels hquery).2 (hchar ▸ hc)

theorem lower_joinWith (pieces : List Str) :
    lower (joinWith ['.'] pieces) = joinWith ['.'] (pieces.map lower) := by
  induction pieces with
  | nil => rfl
  | cons piece pieces ih =>
    cases pieces with
    | nil => rfl
    | cons next pieces =>
      rw [joinWith_cons_cons, List.map_cons, List.map_cons, joinWith_cons_cons,
        ← List.map_cons, ← ih]
      simp [lower]

theorem toLower_eq_dot {c : Char} (h : c.toLower = '.') : c = '.' := by
  have halpha : c.isAlpha = false := by
    rw [← Char.isAlpha_toLower_eq_isAlpha, h]
    rfl
  have hupper : ¬ c.isUpper = true := fun hupper => by
    rw [Char.isAlpha, hupper] at halpha
    cases halpha
  rwa [Char.toLower_eq_of_not_isUpper hupper] at h

theorem splitOnChar_lower (s : Str) :
    splitOnChar '.' (lower s) = (splitOnChar '.' s).map lower := by
  induction s with
  | nil => rfl
  | cons c s ih =>
    show splitOnChar '.' (c.toLower :: lower s) = _
    rw [splitOnChar, splitOnChar, ih]
    by_cases hc : c = '.'
    · subst hc
      rw [if_pos rfl]
      exact if_pos (by decide)
    · rw [if_neg fun h => hc (toLower_eq_dot h), if_neg hc]
      cases splitOnChar '.' s <;> rfl

theorem decodeByte_eq_dot {b : UInt8} (h : decodeByte b = '.') : b = 46 := by
  rw [decodeByte] at h
  split_ifs at h with hb
  · have hall : ∀ n, n < 128 → Char.ofNat n = '.' → n = 46 := by decide
    exact UInt8.toNat_inj.mp (hall b.toNat hb h)
  · exact absurd h (by decide)

theorem lower_nameText (labels : List Bytes) :
    lower (nameText labels) = joinWith ['.'] (labels.map fun label => lower (decodeLabel label)) := by
  rw [nameText]
  exact (lower_joinWith _).trans (by rw [List.map_map]; rfl)

theorem sameName_of_lower_eq {host : HostName} (hne : ∀ label ∈ labels, label ≠ [])
    (hdot : ∀ label ∈ labels, 46 ∉ label)
    (h : lower (nameText labels) = lower (stripDots host.name)) : SameName labels host.name := by
  have hlabels : labels ≠ [] := by
    rintro rfl
    have hnil : stripDots host.name = [] := List.map_eq_nil_iff.mp h.symm
    refine host.queryLabels_ne_nil ?_
    rw [queryLabels, hnil]
    rfl
  have hpieces : labels.map (fun label => lower (decodeLabel label)) =
      (splitOnChar '.' (stripDots host.name)).map lower := by
    rw [← splitOnChar_lower, ← h, lower_nameText]
    refine (splitOnChar_joinWith (fun hnil => hlabels (List.map_eq_nil_iff.mp hnil)) ?_).symm
    intro piece hpiece hmem
    obtain ⟨label, hlabel, rfl⟩ := List.mem_map.mp hpiece
    obtain ⟨c, hc, hlower⟩ := List.mem_map.mp hmem
    obtain ⟨b, hb, rfl⟩ := List.mem_map.mp hc
    exact hdot label hlabel (decodeByte_eq_dot (toLower_eq_dot hlower) ▸ hb)
  have hfull : queryLabels host.name = splitOnChar '.' (stripDots host.name) := by
    rw [queryLabels, List.filter_eq_self]
    intro piece hpiece
    have hmem : lower piece ∈ labels.map fun label => lower (decodeLabel label) := by
      rw [hpieces]
      exact List.mem_map.mpr ⟨piece, hpiece, rfl⟩
    obtain ⟨label, hlabel, heq⟩ := List.mem_map.mp hmem
    refine decide_eq_true fun hnil => hne label hlabel ?_
    rw [hnil] at heq
    exact List.map_eq_nil_iff.mp (List.map_eq_nil_iff.mp heq)
  rw [← hfull] at hpieces
  refine map_eq_map_of_forall hpieces fun label _ query hquery heq => ?_
  rw [List.map_map]
  have hbytes : label.map (fun b => (decodeByte b).toLower) = query.map Char.toLower := by
    rw [lower, decodeLabel, List.map_map] at heq
    exact heq
  refine map_eq_map_of_forall hbytes fun b _ c hc => ?_
  exact lowerByte_eq (host.ascii query hquery c hc)

end Names

section Lookups

variable {payload : Bytes} {queryId : Nat} {host : HostName} {addresses : List Str}
  {answers : List ResourceRecord}

theorem exists_complete (h : Accepted payload queryId host.name addresses)
    (hwell : WellFormed payload) : ∃ answers, Complete payload queryId host.name answers ∧
      (rcodeOf payload = 3 ∧ addresses = [] ∨ rcodeOf payload = 0 ∧
        (answers.filterMap addressOf = [] → ¬ truncated payload) ∧
        addresses = sortedSet (answers.filterMap addressOf)) ∧
      (rcodeOf payload = 0 → (∃ r ∈ answers, IsA r) → ∃ r ∈ answers, IsA r ∧ r.data.length = 4) := by
  obtain ⟨jumps, labels, behind, answers, hname, hdot, hquestion, hsections, hread⟩ := hwell.question
  obtain ⟨names, offset, hnames, hsame, hcase⟩ := h.sections
  rw [hwell.questions] at hnames hsame
  have hfirst : names = [labels] ∧ offset = behind + 4 := by
    cases hnames with
    | cons hname' hjumps hrest =>
      obtain ⟨-, rfl, rfl⟩ := hname.unique hname'
      cases hrest
      exact ⟨rfl, rfl⟩
  obtain ⟨rfl, rfl⟩ := hfirst
  have hsameName : SameName labels host.name :=
    sameName_of_lower_eq hname.ne_nil_of_mem hdot (hsame Nat.one_ne_zero)
  refine ⟨answers, ⟨h.header, h.id, h.response, hwell.questions, jumps, labels, behind, hname,
    hsameName, hquestion, hsections⟩, ?_, hread⟩
  rcases hcase with hnxdomain | ⟨hrcode, records, next, hrecords, htruncated, haddresses⟩
  · exact .inl hnxdomain
  · obtain ⟨next', hanswers, -⟩ := hsections.within
    obtain ⟨rfl, -⟩ := hrecords.unique hanswers
    exact .inr ⟨hrcode, htruncated, haddresses⟩

theorem addressOf_eq_some_iff {r : ResourceRecord} {address : Str} :
    addressOf r = some address ↔ IsA r ∧ r.data.length = 4 ∧ address = addressText r.data := by
  rw [addressOf, IsA]
  split_ifs with h
  · exact ⟨fun heq => ⟨⟨h.1, h.2.1⟩, h.2.2, (Option.some.inj heq).symm⟩,
      fun heq => congrArg some heq.2.2.symm⟩
  · refine iff_of_false (by simp) fun heq => ?_
    exact absurd ⟨heq.1.1, heq.1.2, heq.2.1⟩ h

theorem filterMap_addressOf_nil (h : answers.filterMap addressOf = []) :
    ∀ r ∈ answers, ¬ (IsA r ∧ r.data.length = 4) := by
  rintro r hr ⟨hA, hlength⟩
  have hnone := List.filterMap_eq_nil_iff.mp h r hr
  rw [addressOf_eq_some_iff.mpr ⟨hA, hlength, rfl⟩] at hnone
  cases hnone

theorem Complete.wellFormed (h : Complete payload queryId host.name answers)
    (hread : rcodeOf payload = 0 → (∃ r ∈ answers, IsA r) →
      ∃ r ∈ answers, IsA r ∧ r.data.length = 4) : WellFormed payload := by
  obtain ⟨jumps, labels, behind, hname, hsame, hquestion, hsections⟩ := h.question
  exact ⟨h.questions, jumps, labels, behind, answers, hname, hsame.dotFree, hquestion, hsections,
    hread⟩

theorem Lists.wellFormed {address : Str} (h : Lists payload queryId host.name addresses)
    (haddress : address ∈ addresses) :
    WellFormed payload := by
  obtain ⟨answers, hcomplete, -, hlisted⟩ := h
  obtain ⟨r, hr, hA, hlength, -⟩ := (hlisted address).mp haddress
  exact hcomplete.wellFormed fun _ _ => ⟨r, hr, hA, hlength⟩

theorem ProofOfAbsence.wellFormed (h : ProofOfAbsence payload queryId host.name) :
    WellFormed payload := by
  obtain ⟨answers, hcomplete, hcase⟩ := h
  refine hcomplete.wellFormed fun hrcode ⟨r, hr, hA⟩ => ?_
  rcases hcase with hnxdomain | ⟨-, -, hnone⟩
  · rw [hrcode] at hnxdomain
    cases hnxdomain
  · exact absurd hA (hnone r hr)

theorem meetsLookup_iff (payload : Bytes) (queryId : Nat) (host : HostName) :
    MeetsLookup payload queryId host.name ↔
      ((∃ addresses, Accepted payload queryId host.name addresses) → WellFormed payload) := by
  constructor
  · rintro ⟨outcome, houtcome, hproved⟩ ⟨addresses, haccepted⟩
    obtain ⟨outcome', houtcome', hok, rfl⟩ := parseResponse_ok_iff.mpr haccepted
    cases houtcome.symm.trans houtcome'
    have hproof := hproved hok
    split_ifs at hproof with hnil
    · exact hproof.wellFormed
    · obtain ⟨address, haddress⟩ := List.exists_mem_of_ne_nil _ hnil
      exact hproof.wellFormed haddress
  · intro h
    obtain ⟨outcome, houtcome⟩ := parseResponse_total payload queryId host.name
    refine ⟨outcome, houtcome, fun hok => ?_⟩
    have haccepted := parseResponse_ok_iff.mp ⟨outcome, houtcome, hok, rfl⟩
    obtain ⟨answers, hcomplete, hcase, hread⟩ := exists_complete haccepted (h ⟨_, haccepted⟩)
    rcases hcase with ⟨hnxdomain, hnil⟩ | ⟨hrcode, htruncated, haddresses⟩
    · rw [if_pos hnil]
      exact ⟨answers, hcomplete, .inl hnxdomain⟩
    · split_ifs with hnil
      · rw [haddresses, sortedSet_nil_iff] at hnil
        refine ⟨answers, hcomplete, .inr ⟨hrcode, htruncated hnil, fun r hr hA => ?_⟩⟩
        obtain ⟨r', hr', hA'⟩ := hread hrcode ⟨r, hr, hA⟩
        exact filterMap_addressOf_nil hnil r' hr' hA'
      · refine ⟨answers, hcomplete, hrcode, fun address => ?_⟩
        rw [haddresses, mem_sortedSet, List.mem_filterMap]
        simp only [addressOf_eq_some_iff]

end Lookups

end SharedInfra.Dnsbl
