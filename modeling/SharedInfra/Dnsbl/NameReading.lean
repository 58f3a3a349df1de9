import SharedInfra.Dnsbl.LookupSafety

/-!
# The names of a message

`_read_name` with the positions it reads (`tracedName`), where a name ends as it stands
(`EndsAt`), and the name that `_encode_name` writes.
-/

namespace SharedInfra.Dnsbl

open Python Dns Effects

section Positions

/-- The loop of `_read_name`, with the position of every byte it reads. -/
def tracedNameFrom (payload : Bytes) (labels : List Str) (after : Option Nat)
    (jumps offset : Nat) : List Nat × Except Raised (Str × Nat) :=
  if _ : payload.length ≤ offset then ([], .error (.malformed .nameRunsPast))
  else
    match byteAt payload offset with
    | .error e => ([offset], .error e)
    | .ok length =>
      if length &&& 0xc0 = 0xc0 then
        if payload.length ≤ offset + 1 then ([offset], .error (.malformed .truncatedPointer))
        else if _ : maxCompressionJumps < jumps + 1 then
          ([offset], .error (.malformed .pointerLoop))
        else
          match byteAt payload (offset + 1) with
          | .error e => ([offset, offset + 1], .error e)
          | .ok low =>
            let rest := tracedNameFrom payload labels (some (after.getD (offset + 2)))
              (jumps + 1) ((length &&& 0x3f) <<< 8 ||| low)
            (offset :: (offset + 1) :: rest.1, rest.2)
      else if length &&& 0xc0 ≠ 0 then ([offset], .error (.malformed .reservedLabel))
      else if length = 0 then ([offset], .ok (joinWith "." labels, after.getD (offset + 1)))
      else if payload.length < offset + 1 + length then
        ([offset], .error (.malformed .labelRunsPast))
      else
        let rest := tracedNameFrom payload
          (labels ++ [decodeLabel ((payload.drop (offset + 1)).take length)]) after jumps
          (offset + 1 + length)
        (offset :: (List.range' (offset + 1) length ++ rest.1), rest.2)
termination_by (maxCompressionJumps - jumps, payload.length - offset)
decreasing_by
  · exact Prod.Lex.left _ _ (by omega)
  · exact Prod.Lex.right _ (by omega)

def tracedName (payload : Bytes) (offset : Nat) : List Nat × Except Raised (Str × Nat) :=
  tracedNameFrom payload [] none 0 offset

variable {payload : Bytes}

theorem tracedNameFrom_result (labels : List Str) (after : Option Nat) (jumps offset : Nat) :
    (tracedNameFrom payload labels after jumps offset).2 =
      readNameFrom payload labels after jumps offset := by
  fun_induction tracedNameFrom payload labels after jumps offset with
  | case1 => simp [readNameFrom, *]
  | case2 => simp [readNameFrom, *]
  | case3 => simp [readNameFrom, *]
  | case4 => simp [readNameFrom, *]
  | case5 => simp [readNameFrom, *]
  | case6 _ _ _ _ hend _ hlength hpointer hlow hjumps _ hbyte _ ih =>
    rw [readNameFrom, dif_neg hend, hlength]
    simp only [if_pos hpointer, if_neg hlow, dif_neg hjumps, hbyte]
    exact ih
  | case7 => simp [readNameFrom, *]
  | case8 => simp [readNameFrom, *]
  | case9 => simp [readNameFrom, *]
  | case10 _ _ _ _ hend _ hlength hpointer hreserved hzero hfits _ ih =>
    rw [readNameFrom, dif_neg hend, hlength]
    simp only [if_neg hpointer, if_neg hreserved, if_neg hzero, if_neg hfits]
    exact ih

theorem tracedNameFrom_within (labels : List Str) (after : Option Nat) (jumps offset : Nat) :
    ∀ i ∈ (tracedNameFrom payload labels after jumps offset).1, i < payload.length := by
  fun_induction tracedNameFrom payload labels after jumps offset with
  | case1 => nofun
  | case6 _ _ _ _ hend _ _ _ hlow _ _ _ _ ih =>
    exact List.forall_mem_cons.mpr ⟨Nat.lt_of_not_le hend,
      List.forall_mem_cons.mpr ⟨Nat.lt_of_not_le hlow, ih⟩⟩
  | case10 _ _ _ _ hend _ _ _ _ _ hfits _ ih =>
    refine List.forall_mem_cons.mpr ⟨Nat.lt_of_not_le hend, fun i hi => ?_⟩
    rcases List.mem_append.mp hi with hi | hi
    · have hlast := (List.mem_range'_1.mp hi).2
      omega
    · exact ih i hi
  | case5 _ _ _ _ hend _ _ _ hlow =>
    simp only [List.forall_mem_cons]
    exact ⟨Nat.lt_of_not_le hend, Nat.lt_of_not_le hlow, nofun⟩
  | _ => simpa using by omega

end Positions

section Standing

/-- Where a name ends as it stands: behind its root label, or behind its first pointer. -/
inductive EndsAt (m : Bytes) : Nat → Nat → Prop where
  | root {offset : Nat} (hbyte : m[offset]? = some 0) : EndsAt m offset (offset + 1)
  | pointer {offset : Nat} {high : UInt8} (hhigh : m[offset]? = some high)
      (hpointer : 192 ≤ high.toNat) : EndsAt m offset (offset + 2)
  | label {offset next : Nat} {length : UInt8} (hbyte : m[offset]? = some length)
      (hpos : length.toNat ≠ 0) (hshort : length.toNat < 64)
      (hrest : EndsAt m (offset + 1 + length.toNat) next) : EndsAt m offset next

variable {m : Bytes} {offset jumps next : Nat} {labels : List Bytes}

theorem NameAt.endsAt (h : NameAt m offset jumps labels next) :
    EndsAt m offset next ∧ next ≤ m.length := by
  have hwithin : ∀ {i : Nat} {b : UInt8}, m[i]? = some b → i + 1 ≤ m.length := fun hb =>
    (List.getElem?_eq_some_iff.mp hb).1
  induction h with
  | root hbyte => exact ⟨.root hbyte, hwithin hbyte⟩
  | label hbyte hpos hshort _ _ ih => exact ⟨.label hbyte hpos hshort ih.1, ih.2⟩
  | pointer hhigh hpointer hlow => exact ⟨.pointer hhigh hpointer, hwithin hlow⟩

end Standing

section Encoded

variable {hostname label : Str} {wire rest : Bytes}

theorem encodeLabel_eq (h : encodeLabel label = some wire) :
    wire = UInt8.ofNat label.length :: label.map asciiByte ∧ 1 ≤ label.length ∧
      label.length ≤ 63 := by
  rw [encodeLabel] at h
  split_ifs at h with hlabel
  exact ⟨(Option.some.inj h).symm, hlabel.2⟩

theorem decodeLabel_map (h : ∀ c ∈ label, c.toNat < 128) :
    decodeLabel (label.map asciiByte) = label := by
  have hsame : ∀ c ∈ label, (decodeByte ∘ asciiByte) c = id c := by
    intro c hc
    have hbyte : (asciiByte c).toNat = c.toNat :=
      Nat.mod_eq_of_lt (Nat.lt_trans (h c hc) (by decide))
    rw [Function.comp_apply, decodeByte, hbyte, if_pos (h c hc), Char.ofNat_toNat, id]
  rw [decodeLabel, List.map_map, List.map_congr_left hsame, List.map_id]

theorem nameAt_labels {labels : List Str} {wires : List Bytes} (front : Bytes)
    (h : labels.mapM encodeLabel = some wires) :
    NameAt (front ++ (wires.flatten ++ 0 :: rest)) front.length 0
      (labels.map (·.map asciiByte)) (front.length + wires.flatten.length + 1) := by
  induction labels generalizing front wires with
  | nil =>
    cases h
    exact .root (by simp)
  | cons label labels ih =>
    rw [List.mapM_cons] at h
    obtain ⟨wire, hwire, h⟩ := Option.bind_eq_some_iff.mp h
    obtain ⟨wires, hwires, h⟩ := Option.bind_eq_some_iff.mp h
    cases h
    obtain ⟨rfl, hpos, hlong⟩ := encodeLabel_eq hwire
    have hlength : (UInt8.ofNat label.length).toNat = label.length := Nat.mod_eq_of_lt (by omega)
    have hrest := ih (front ++ UInt8.ofNat label.length :: label.map asciiByte) hwires
    have hmessage : front ++ (((UInt8.ofNat label.length :: label.map asciiByte) :: wires).flatten
          ++ 0 :: rest) =
        front ++ UInt8.ofNat label.length :: label.map asciiByte ++
          (wires.flatten ++ 0 :: rest) := by simp
    have hend : (front ++ UInt8.ofNat label.length :: label.map asciiByte).length =
        front.length + 1 + label.length := by simp; omega
    rw [hmessage]
    rw [hend] at hrest
    generalize hm : front ++ UInt8.ofNat label.length :: label.map asciiByte ++
      (wires.flatten ++ 0 :: rest) = m at hrest ⊢
    have hbyte : m[front.length]? = some (UInt8.ofNat label.length) := by simp [← hm]
    have hpiece : (m.drop (front.length + 1)).take label.length = label.map asciiByte := by
      simp [← hm, List.drop_append, List.take_append]
    have hfits : front.length + 1 + label.length ≤ m.length := by
      rw [← hm, List.length_append, hend]
      omega
    have hname := NameAt.label hbyte (by omega) (by omega) (by rwa [hlength])
      (by rwa [hlength])
    rw [hlength, hpiece] at hname
    have hnext : front.length + 1 + label.length + wires.flatten.length + 1 =
        front.length + ((UInt8.ofNat label.length :: label.map asciiByte) :: wires).flatten.length
          + 1 := by
      simp
      omega
    rwa [hnext] at hname

theorem labels_ascii {labels : List Str} {wires : List Bytes}
    (h : labels.mapM encodeLabel = some wires) :
    (labels.map (·.map asciiByte)).map decodeLabel = labels := by
  have hsame : ∀ label ∈ labels, (decodeLabel ∘ (·.map asciiByte)) label = id label := by
    intro label hlabel
    obtain ⟨wire, hwire⟩ := Option.isSome_iff_exists.mp (isSome_of_mapM h label hlabel)
    exact decodeLabel_map (encodeLabel_ascii hwire)
  rw [List.map_map, List.map_congr_left hsame, List.map_id]

theorem readName_encoded (front : Bytes) (h : encodeName hostname = some wire) :
    readName (front ++ (wire ++ rest)) front.length =
      .ok (joinWith "." (queryLabels hostname), front.length + wire.length) := by
  rw [encodeName] at h
  split_ifs at h with hnil
  obtain ⟨wires, hwires, rfl⟩ := Option.map_eq_some_iff.mp h
  rw [List.append_assoc, List.singleton_append, List.length_append, List.length_singleton,
    ← Nat.add_assoc, readName_ok_iff]
  exact ⟨0, _, nameAt_labels front hwires, Nat.zero_le _, by rw [labels_ascii hwires]⟩

end Encoded

/-- Every byte that `_read_name` reads is in the message, nothing but a malformed response is
raised, the offset is where the name ends as it stands, and a name that `_encode_name` writes
is read back wherever it stands. -/
theorem readName_within :
    (∀ (payload : Bytes) (offset : Nat), (tracedName payload offset).2 = readName payload offset ∧
      (∀ i ∈ (tracedName payload offset).1, i < payload.length) ∧
      OnlyMalformed (readName payload offset) ∧
      ∀ name next, readName payload offset = .ok (name, next) →
        EndsAt payload offset next ∧ next ≤ payload.length) ∧
    ∀ (hostname : Str) (wire front rest : Bytes), encodeName hostname = some wire →
      readName (front ++ (wire ++ rest)) front.length =
        .ok (joinWith "." (queryLabels hostname), front.length + wire.length) := by
  refine ⟨fun payload offset => ⟨tracedNameFrom_result _ _ _ _, tracedNameFrom_within _ _ _ _,
    readName_onlyMalformed payload offset, fun name next hread => ?_⟩,
    fun _ _ front _ => readName_encoded front⟩
  obtain ⟨jumps, labels, hname, _⟩ := readName_ok_iff.mp hread
  exact NameAt.endsAt hname

theorem readName_within_host :
    readName ([192, 3, 7] ++ ([1, 97, 2, 98, 99, 0] ++ [192, 3])) 3 = .ok ("a.bc".toList, 9) ∧
      EndsAt [192, 3, 7, 1, 97, 2, 98, 99, 0, 192, 3] 3 9 :=
  have hread := readName_within.2 "a.bc".toList [1, 97, 2, 98, 99, 0] [192, 3, 7] [192, 3]
    (by decide)
  ⟨hread, ((readName_within.1 _ _).2.2.2 _ _ hread).1⟩

end SharedInfra.Dnsbl
