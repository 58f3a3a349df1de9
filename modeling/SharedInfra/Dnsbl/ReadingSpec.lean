import SharedInfra.Dnsbl.Response
import SharedInfra.Effects.Moves

/-!
# What the reader reads

`_read_name` returns a name exactly where one stands that follows at most
`maxCompressionJumps` pointers (`readName_ok_iff`), and the loops of `parse_response`
return what they find in such questions and records.  No error but a malformed
response is raised (`OnlyMalformed`).
-/

namespace SharedInfra.Dnsbl

open Python Dns Effects

section Bytes

theorem isPointer_iff {n : Nat} (h : n < 256) : n &&& 0xc0 = 0xc0 ↔ 192 ≤ n := by
  have hall : ∀ n, n < 256 → (n &&& 0xc0 = 0xc0 ↔ 192 ≤ n) := by decide +kernel
  exact hall n h

theorem isReserved_iff {n : Nat} (h : n < 192) : n &&& 0xc0 ≠ 0 ↔ 64 ≤ n := by
  have hall : ∀ n, n < 192 → (n &&& 0xc0 ≠ 0 ↔ 64 ≤ n) := by decide +kernel
  exact hall n h

theorem pointerTarget_eq {n low : Nat} (h : n < 256) (hpointer : 192 ≤ n) (hlow : low < 256) :
    (n &&& 0x3f) <<< 8 ||| low = (n - 192) * 256 + low := by
  have hall : ∀ n, n < 256 → 192 ≤ n → n &&& 0x3f = n - 192 := by decide +kernel
  rw [hall n h hpointer, ← Nat.shiftLeft_add_eq_or_of_lt (i := 8) hlow, Nat.shiftLeft_eq]

variable {payload : Bytes} {offset : Nat}

theorem byteAt_eq (h : offset < payload.length) :
    ∃ b, payload[offset]? = some b ∧ byteAt payload offset = .ok b.toNat := by
  refine ⟨payload[offset], List.getElem?_eq_getElem h, ?_⟩
  rw [byteAt, List.getElem?_eq_getElem h]

theorem byteAt_eq_ok {n : Nat} (h : offset < payload.length) (hbyte : byteAt payload offset = .ok n) :
    ∃ b, payload[offset]? = some b ∧ n = b.toNat := by
  obtain ⟨b, hb, hread⟩ := byteAt_eq h
  cases hbyte.symm.trans hread
  exact ⟨b, hb, rfl⟩

end Bytes

section Names

variable {payload : Bytes} {offset next : Nat} {name : Str}

def OnlyMalformed {α : Type} (result : Except Raised α) : Prop :=
  ∀ e, result = .error e → ∃ what, e = .malformed what

theorem OnlyMalformed.ok {α : Type} {a : α} : OnlyMalformed (.ok a) := nofun

theorem OnlyMalformed.malformed {α : Type} {what : Malformed} :
    OnlyMalformed (.error (.malformed what) : Except Raised α) := by
  rintro e h
  cases h
  exact ⟨what, rfl⟩

theorem OnlyMalformed.bind {α β : Type} {x : Except Raised α} {f : α → Except Raised β}
    (hx : OnlyMalformed x) (hf : ∀ a, x = .ok a → OnlyMalformed (f a)) : OnlyMalformed (x >>= f) := by
  cases x with
  | error e =>
    obtain ⟨what, rfl⟩ := hx e rfl
    exact .malformed
  | ok a => exact hf a rfl

theorem readNameFrom_onlyMalformed (labels : List Str) (after : Option Nat) (jumps offset : Nat) :
    OnlyMalformed (readNameFrom payload labels after jumps offset) := by
  fun_induction readNameFrom payload labels after jumps offset with
  | case1 => exact .malformed
  | case2 labels after jumps offset hend e he =>
    obtain ⟨b, -, hb⟩ := byteAt_eq (Nat.lt_of_not_le hend)
    cases he.symm.trans hb
  | case3 => exact .malformed
  | case4 => exact .malformed
  | case5 labels after jumps offset hend length hlength hpointer hlow hjumps e he =>
    obtain ⟨b, -, hb⟩ := byteAt_eq (Nat.lt_of_not_le hlow)
    cases he.symm.trans hb
  | case6 _ _ _ _ _ _ _ _ _ _ _ _ ih => exact ih
  | case7 => exact .malformed
  | case8 => exact .ok
  | case9 => exact .malformed
  | case10 _ _ _ _ _ _ _ _ _ _ _ ih => exact ih

theorem readNameFrom_ok_iff {labels : List Str} {after : Option Nat} {jumps : Nat}
    (hjumps : jumps ≤ maxCompressionJumps) :
    readNameFrom payload labels after jumps offset = .ok (name, next) ↔
      ∃ more found behind, NameAt payload offset more found behind ∧
        jumps + more ≤ maxCompressionJumps ∧
        name = joinWith "." (labels ++ found.map decodeLabel) ∧ next = after.getD behind := by
  fun_induction readNameFrom payload labels after jumps offset with
  | case1 labels after jumps offset hend =>
    exact ⟨nofun, fun ⟨_, _, _, hname, _⟩ => absurd hname (not_nameAt_end hend)⟩
  | case2 labels after jumps offset hend e he =>
    obtain ⟨b, -, hb⟩ := byteAt_eq (Nat.lt_of_not_le hend)
    cases he.symm.trans hb
  | case3 labels after jumps offset hend length hlength hpointer hlow =>
    obtain ⟨b, hb, rfl⟩ := byteAt_eq_ok (Nat.lt_of_not_le hend) hlength
    refine ⟨nofun, fun ⟨_, _, _, hname, _⟩ => ?_⟩
    obtain ⟨low, _, _, hbyte, _⟩ := (nameAt_pointer_iff hb ((isPointer_iff b.toNat_lt).mp hpointer)).mp
      hname
    cases (List.getElem?_eq_none hlow).symm.trans hbyte
  | case4 labels after jumps offset hend length hlength hpointer hlow hlimit =>
    obtain ⟨b, hb, rfl⟩ := byteAt_eq_ok (Nat.lt_of_not_le hend) hlength
    refine ⟨nofun, fun ⟨_, _, _, hname, hmore, _⟩ => ?_⟩
    obtain ⟨low, more, _, _, rfl, _⟩ :=
      (nameAt_pointer_iff hb ((isPointer_iff b.toNat_lt).mp hpointer)).mp hname
    omega
  | case5 labels after jumps offset hend length hlength hpointer hlow hlimit e he =>
    obtain ⟨b, -, hb⟩ := byteAt_eq (Nat.lt_of_not_le hlow)
    cases he.symm.trans hb
  | case6 labels after jumps offset hend length hlength hpointer hlow hlimit low hbyte ih =>
    obtain ⟨b, hb, rfl⟩ := byteAt_eq_ok (Nat.lt_of_not_le hend) hlength
    obtain ⟨low, hlowbyte, rfl⟩ := byteAt_eq_ok (Nat.lt_of_not_le hlow) hbyte
    have hhigh := (isPointer_iff b.toNat_lt).mp hpointer
    rw [ih (by omega), pointerTarget_eq b.toNat_lt hhigh low.toNat_lt]
    constructor
    · rintro ⟨more, found, behind, hname, hmore, hjoin, hnext⟩
      exact ⟨more + 1, found, offset + 2, .pointer hb hhigh hlowbyte hname, by omega, hjoin, hnext⟩
    · rintro ⟨more, found, behind, hname, hmore, hjoin, hnext⟩
      obtain ⟨low', more', behind', hlow', rfl, rfl, htarget⟩ :=
        (nameAt_pointer_iff hb hhigh).mp hname
      cases hlowbyte.symm.trans hlow'
      exact ⟨more', found, behind', htarget, by omega, hjoin, hnext⟩
  | case7 labels after jumps offset hend length hlength hpointer hreserved =>
    obtain ⟨b, hb, rfl⟩ := byteAt_eq_ok (Nat.lt_of_not_le hend) hlength
    rw [isPointer_iff b.toNat_lt, Nat.not_le] at hpointer
    refine ⟨nofun, fun ⟨_, _, _, hname, _⟩ => ?_⟩
    exact absurd hname (not_nameAt_reserved hb ((isReserved_iff hpointer).mp hreserved) hpointer)
  | case8 labels after jumps offset hend hlength hpointer hreserved =>
    obtain ⟨b, hb, hzero⟩ := byteAt_eq_ok (Nat.lt_of_not_le hend) hlength
    constructor
    · intro h
      cases h
      exact ⟨0, [], _, (nameAt_root_iff hb hzero.symm).mpr ⟨rfl, rfl, rfl⟩, hjumps,
        by rw [List.map_nil, List.append_nil], rfl⟩
    · rintro ⟨more, found, behind, hname, -, rfl, rfl⟩
      obtain ⟨-, rfl, rfl⟩ := (nameAt_root_iff hb hzero.symm).mp hname
      rw [List.map_nil, List.append_nil]
  | case9 labels after jumps offset hend length hlength hpointer hreserved hzero hlong =>
    obtain ⟨b, hb, rfl⟩ := byteAt_eq_ok (Nat.lt_of_not_le hend) hlength
    rw [isPointer_iff b.toNat_lt, Nat.not_le] at hpointer
    rw [isReserved_iff hpointer, Nat.not_le] at hreserved
    refine ⟨nofun, fun ⟨_, _, _, hname, _⟩ => ?_⟩
    obtain ⟨hfits, -⟩ := (nameAt_label_iff hb hzero hreserved).mp hname
    omega
  | case10 labels after jumps offset hend length hlength hpointer hreserved hzero hlong ih =>
    obtain ⟨b, hb, rfl⟩ := byteAt_eq_ok (Nat.lt_of_not_le hend) hlength
    rw [isPointer_iff b.toNat_lt, Nat.not_le] at hpointer
    rw [isReserved_iff hpointer, Nat.not_le] at hreserved
    rw [ih hjumps]
    constructor
    · rintro ⟨more, found, behind, hname, hmore, hjoin, hnext⟩
      refine ⟨more, _, behind, (nameAt_label_iff hb hzero hreserved).mpr
        ⟨Nat.le_of_not_lt hlong, found, rfl, hname⟩, hmore, ?_, hnext⟩
      rw [hjoin, List.map_cons, List.append_assoc]
      rfl
    · rintro ⟨more, found, behind, hname, hmore, hjoin, hnext⟩
      obtain ⟨-, rest, rfl, hrest⟩ := (nameAt_label_iff hb hzero hreserved).mp hname
      refine ⟨more, rest, behind, hrest, hmore, ?_, hnext⟩
      rw [hjoin, List.map_cons, List.append_assoc]
      rfl

theorem readName_ok_iff : readName payload offset = .ok (name, next) ↔
    ∃ jumps labels, NameAt payload offset jumps labels next ∧ jumps ≤ maxCompressionJumps ∧
      name = joinWith "." (labels.map decodeLabel) := by
  rw [readName, readNameFrom_ok_iff (Nat.zero_le _)]
  constructor
  · rintro ⟨jumps, labels, behind, hname, hjumps, hjoin, rfl⟩
    exact ⟨jumps, labels, hname, by omega, hjoin⟩
  · rintro ⟨jumps, labels, hname, hjumps, hjoin⟩
    exact ⟨jumps, labels, next, hname, by omega, hjoin, rfl⟩

theorem readName_onlyMalformed (payload : Bytes) (offset : Nat) :
    OnlyMalformed (readName payload offset) :=
  readNameFrom_onlyMalformed _ _ _ _

end Names

section Sections

variable {payload : Bytes} {offset next count : Nat}

/-- A followed name that the reader accepts. -/
abbrev Followed (jumps : Nat) : Prop := jumps ≤ maxCompressionJumps

def nameText (labels : List Bytes) : Str := joinWith "." (labels.map decodeLabel)

theorem readQuestions_ok_iff {index : Nat} {questionName name : Str} :
    readQuestions payload count index offset questionName = .ok (name, next) ↔
      ∃ names, QuestionsAt payload Followed offset count names next ∧
        name = if index = 0 then (names.head?.map nameText).getD questionName
          else questionName := by
  induction count generalizing index offset questionName with
  | zero =>
    constructor
    · intro h
      cases h
      exact ⟨[], .nil, (ite_self _).symm⟩
    · rintro ⟨names, hnames, rfl⟩
      cases hnames
      rw [readQuestions]
      exact congrArg (fun name => Except.ok (name, next)) (ite_self _).symm
  | succ count ih =>
    rw [readQuestions, bind_eq_ok_iff]
    constructor
    · rintro ⟨⟨first, behind⟩, hfirst, hrest⟩
      obtain ⟨jumps, labels, hname, hjumps, rfl⟩ := readName_ok_iff.mp hfirst
      obtain ⟨names, hnames, rfl⟩ := ih.mp hrest
      refine ⟨labels :: names, .cons hname hjumps hnames, ?_⟩
      rw [if_neg (Nat.succ_ne_zero index)]
      rfl
    · rintro ⟨names, hnames, rfl⟩
      cases hnames with
      | @cons _ jumps _ _ behind labels names hname hjumps hrest =>
        refine ⟨(nameText labels, behind), readName_ok_iff.mpr ⟨jumps, labels, hname, hjumps, rfl⟩,
          ih.mpr ⟨names, hrest, ?_⟩⟩
        rw [if_neg (Nat.succ_ne_zero index)]
        rfl

theorem readQuestions_onlyMalformed (index : Nat) (questionName : Str) :
    OnlyMalformed (readQuestions payload count index offset questionName) := by
  induction count generalizing index offset questionName with
  | zero => exact .ok
  | succ count ih =>
    rw [readQuestions]
    exact (readName_onlyMalformed _ _).bind fun _ _ => ih _ _

def addressOf (record : ResourceRecord) : Option Str :=
  if record.type = 1 ∧ record.class = 1 ∧ record.data.length = 4 then some (addressText record.data)
  else none

theorem wordOf_slice {i n : Nat} (h : i + 1 < n) :
    wordOf ((payload.drop offset).take n) i = wordOf payload (offset + i) := by
  have hget : ∀ j, j < n → ((payload.drop offset).take n).getD j 0 = payload.getD (offset + j) 0 := by
    intro j hj
    rw [List.getD_eq_getElem?_getD, List.getElem?_take_of_lt hj, List.getElem?_drop,
      ← List.getD_eq_getElem?_getD]
  rw [wordOf, wordOf, hget i (by omega), hget (i + 1) h, Nat.add_assoc]

theorem unpackRecord_slice (h : offset + 10 ≤ payload.length) :
    unpackRecord ((payload.drop offset).take 10) =
      .ok (wordOf payload offset, wordOf payload (offset + 2), wordOf payload (offset + 8)) := by
  rw [unpackRecord, if_pos, wordOf_slice (by omega), wordOf_slice (by omega),
    wordOf_slice (by omega), Nat.add_zero]
  rw [List.length_take, List.length_drop]
  omega

def recordAt (payload : Bytes) (behind : Nat) : ResourceRecord :=
  ⟨wordOf payload behind, wordOf payload (behind + 2),
    (payload.drop (behind + 10)).take (wordOf payload (behind + 8))⟩

theorem readAnswers_record {name : Str} {behind : Nat} {addresses : List Str}
    (hname : readName payload offset = .ok (name, behind)) (hheader : behind + 10 ≤ payload.length)
    (hdata : behind + 10 + wordOf payload (behind + 8) ≤ payload.length) :
    readAnswers payload (count + 1) offset addresses =
      readAnswers payload count (behind + 10 + wordOf payload (behind + 8))
        (addresses ++ (addressOf (recordAt payload behind)).toList) := by
  have hlength : ((payload.drop (behind + 10)).take (wordOf payload (behind + 8))).length =
      wordOf payload (behind + 8) := by
    rw [List.length_take, List.length_drop]
    omega
  have hadd : (if wordOf payload behind = 1 ∧ wordOf payload (behind + 2) = 1 ∧
        wordOf payload (behind + 8) = 4 then
      addresses ++ [addressText ((payload.drop (behind + 10)).take (wordOf payload (behind + 8)))]
        else addresses) = addresses ++ (addressOf (recordAt payload behind)).toList := by
    simp only [addressOf, recordAt, hlength]
    split_ifs
    · rfl
    · exact (List.append_nil _).symm
  rw [readAnswers, hname, ← hadd]
  show (if payload.length < behind + 10 then _ else _) = _
  rw [if_neg (Nat.not_lt.mpr hheader), unpackRecord_slice hheader]
  exact if_neg (Nat.not_lt.mpr hdata)

theorem readAnswers_runsPast {name : Str} {behind : Nat} {addresses : List Str}
    (hname : readName payload offset = .ok (name, behind))
    (h : ¬ (behind + 10 ≤ payload.length ∧
      behind + 10 + wordOf payload (behind + 8) ≤ payload.length)) :
    ∃ what, readAnswers payload (count + 1) offset addresses = .error (.malformed what) := by
  rw [readAnswers, hname]
  by_cases hheader : payload.length < behind + 10
  · exact ⟨_, if_pos hheader⟩
  · refine ⟨.recordDataRunsPast, (if_neg hheader).trans ?_⟩
    rw [unpackRecord_slice (Nat.le_of_not_lt hheader)]
    exact if_pos (by omega)

theorem readAnswers_ok_iff {addresses result : List Str} :
    readAnswers payload count offset addresses = .ok result ↔
      ∃ records next, RecordsAt payload Followed offset count records next ∧
        result = addresses ++ records.filterMap addressOf := by
  induction count generalizing offset addresses with
  | zero =>
    constructor
    · intro h
      cases h
      exact ⟨[], offset, .nil, (List.append_nil _).symm⟩
    · rintro ⟨records, next, hrecords, rfl⟩
      cases hrecords
      rw [List.filterMap_nil, List.append_nil]
      rfl
  | succ count ih =>
    have happend : ∀ behind (records : List ResourceRecord),
        (addresses ++ (addressOf (recordAt payload behind)).toList) ++ records.filterMap addressOf =
        addresses ++ (recordAt payload behind :: records).filterMap addressOf := by
      intro behind records
      rw [List.append_assoc, List.filterMap_cons]
      cases addressOf (recordAt payload behind) <;> rfl
    constructor
    · intro h
      cases hfirst : readName payload offset with
      | error e =>
        rw [readAnswers, hfirst] at h
        cases h
      | ok found =>
        obtain ⟨name, behind⟩ := found
        obtain ⟨jumps, labels, hname, hjumps, -⟩ := readName_ok_iff.mp hfirst
        by_cases hfits : behind + 10 ≤ payload.length ∧
            behind + 10 + wordOf payload (behind + 8) ≤ payload.length
        · rw [readAnswers_record hfirst hfits.1 hfits.2] at h
          obtain ⟨records, next, hrecords, rfl⟩ := ih.mp h
          exact ⟨_, next, .cons hname hjumps hfits.1 hfits.2 hrecords, happend behind records⟩
        · obtain ⟨what, herror⟩ := readAnswers_runsPast hfirst hfits
          rw [herror] at h
          cases h
    · rintro ⟨records, next, hrecords, rfl⟩
      cases hrecords with
      | @cons _ jumps _ _ behind labels records hname hjumps hheader hdata hrest =>
        have hfirst : readName payload offset = .ok (nameText labels, behind) :=
          readName_ok_iff.mpr ⟨jumps, labels, hname, hjumps, rfl⟩
        rw [readAnswers_record hfirst hheader hdata]
        exact ih.mpr ⟨records, next, hrest, (happend behind records).symm⟩

theorem readAnswers_onlyMalformed {addresses : List Str} :
    OnlyMalformed (readAnswers payload count offset addresses) := by
  induction count generalizing offset addresses with
  | zero => exact .ok
  | succ count ih =>
    cases hfirst : readName payload offset with
    | error e =>
      obtain ⟨what, rfl⟩ := readName_onlyMalformed payload offset e hfirst
      rw [readAnswers, hfirst]
      exact .malformed
    | ok found =>
      obtain ⟨name, behind⟩ := found
      by_cases hfits : behind + 10 ≤ payload.length ∧
          behind + 10 + wordOf payload (behind + 8) ≤ payload.length
      · rw [readAnswers_record hfirst hfits.1 hfits.2]
        exact ih
      · obtain ⟨what, herror⟩ := readAnswers_runsPast hfirst hfits
        rw [herror]
        exact .malformed

end Sections

end SharedInfra.Dnsbl
