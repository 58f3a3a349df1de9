import SharedInfra.Effects.Moves
import SharedInfra.Python.Base64
import SharedInfra.Python.Text

/-!
# OpenPGP packets

`pgpPacketTags` of `cloudInit.ts`: the walk over the packets of a key, each from its header and
its length to the next.  It ends for every byte string, and its verdict is that of RFC 4880: the
bytes are the packets with these tags, to the last byte, or they are not packets with definite
lengths at all (`pgpPacketTags_iff`).
-/

namespace SharedInfra.HetznerHost

open Python

/-- A number, most significant byte first. -/
def number (bytes : Bytes) : Nat := bytes.foldl (fun n byte => n * 256 + byte.toNat) 0

/-- A packet header: its bytes, the tag and the length of the body.  With a new header the length
stands in one, two or five bytes, with an old one in one, two or four. -/
inductive Header : Bytes → Nat → Nat → Prop
  | one {tag : Nat} (first : UInt8) (htag : tag < 64) (hfirst : first.toNat < 192) :
      Header [UInt8.ofNat (192 + tag), first] tag first.toNat
  | two {tag : Nat} (first second : UInt8) (htag : tag < 64) (hlow : 192 ≤ first.toNat)
      (hhigh : first.toNat < 224) :
      Header [UInt8.ofNat (192 + tag), first, second] tag
        ((first.toNat - 192) * 256 + second.toNat + 192)
  | five {tag : Nat} (octets : Bytes) (htag : tag < 64) (hlength : octets.length = 4) :
      Header (UInt8.ofNat (192 + tag) :: 255 :: octets) tag (number octets)
  | old {tag : Nat} (lengthType : Nat) (octets : Bytes) (htag : tag < 16) (htype : lengthType < 3)
      (hlength : octets.length = 2 ^ lengthType) :
      Header (UInt8.ofNat (128 + tag * 4 + lengthType) :: octets) tag (number octets)

inductive Packets : Bytes → List Nat → Prop
  | nil : Packets [] []
  | cons {header body rest : Bytes} {tag : Nat} {tags : List Nat}
      (hheader : Header header tag body.length) (hrest : Packets rest tags) :
      Packets (header ++ (body ++ rest)) (tag :: tags)

section Walk

variable {tag length : Nat} {bytes rest : Bytes} {header : UInt8} {n : Nat}

def midPacket : Str := "A signer key block ends in the middle of an OpenPGP packet.".toList

/-- `packetByte`, with the bytes after it. -/
def packetByte : Bytes → Except Str (Nat × Bytes)
  | [] => .error midPacket
  | byte :: rest => .ok (byte.toNat, rest)

def readLength : Nat → Nat → Bytes → Except Str (Nat × Bytes)
  | 0, length, bytes => .ok (length, bytes)
  | count + 1, length, bytes => do
    let (byte, rest) ← packetByte bytes
    readLength count (length * 256 + byte) rest

def packetHeader (header : Nat) (bytes : Bytes) : Except Str (Nat × Nat × Bytes) :=
  if header &&& 0x80 = 0 then
    .error "A signer key block must start with an OpenPGP packet.".toList
  else if header &&& 0x40 ≠ 0 then do
    let tag := header &&& 0x3f
    let (first, rest) ← packetByte bytes
    if first < 192 then .ok (tag, first, rest)
    else if first < 224 then do
      let (second, rest) ← packetByte rest
      .ok (tag, ((first - 192) <<< 8) + second + 192, rest)
    else if first = 255 then do
      let (length, rest) ← readLength 4 0 rest
      .ok (tag, length, rest)
    else .error "A signer key block must not use a partial packet length.".toList
  else do
    let tag := (header >>> 2) &&& 0x0f
    let lengthType := header &&& 0x03
    if lengthType = 3 then
      .error "A signer key block must not use an indeterminate packet length.".toList
    else do
      let (length, rest) ← readLength (1 <<< lengthType) 0 bytes
      .ok (tag, length, rest)

theorem packetByte_ok_iff :
    packetByte bytes = .ok (n, rest) ↔ ∃ byte : UInt8, bytes = byte :: rest ∧ n = byte.toNat := by
  cases bytes with
  | nil =>
    refine ⟨fun h => ?_, fun ⟨_, h, _⟩ => ?_⟩
    · cases h
    · cases h
  | cons byte bytes =>
    rw [packetByte, Except.ok.injEq, Prod.mk.injEq]
    constructor
    · rintro ⟨rfl, rfl⟩
      exact ⟨byte, rfl, rfl⟩
    · rintro ⟨other, hsame, rfl⟩
      obtain ⟨rfl, rfl⟩ := List.cons.inj hsame
      exact ⟨rfl, rfl⟩

theorem readLength_ok_iff {count start length : Nat} :
    readLength count start bytes = .ok (length, rest) ↔ ∃ octets : Bytes, octets.length = count ∧
      bytes = octets ++ rest ∧
        length = octets.foldl (fun n byte => n * 256 + byte.toNat) start := by
  induction count generalizing start bytes with
  | zero =>
    rw [readLength, Except.ok.injEq, Prod.mk.injEq]
    constructor
    · rintro ⟨rfl, rfl⟩
      exact ⟨[], rfl, rfl, rfl⟩
    · rintro ⟨octets, hlength, rfl, rfl⟩
      rw [List.length_eq_zero_iff.mp hlength]
      exact ⟨rfl, rfl⟩
  | succ count ih =>
    rw [readLength, Effects.bind_eq_ok_iff]
    constructor
    · rintro ⟨⟨n, tail⟩, hbyte, hrest⟩
      obtain ⟨byte, rfl, rfl⟩ := packetByte_ok_iff.mp hbyte
      obtain ⟨octets, hlength, rfl, rfl⟩ := ih.mp hrest
      exact ⟨byte :: octets, congrArg (· + 1) hlength, rfl, rfl⟩
    · rintro ⟨octets, hlength, rfl, rfl⟩
      obtain ⟨byte, octets, rfl⟩ := List.exists_cons_of_length_eq_add_one hlength
      exact ⟨(byte.toNat, octets ++ rest), rfl, ih.mpr ⟨octets, Nat.succ.inj hlength, rfl, rfl⟩⟩

theorem and_bit_eq_zero_iff (n i : Nat) : n &&& 2 ^ i = 0 ↔ n / 2 ^ i % 2 = 0 := by
  rw [Nat.and_two_pow, Nat.testBit_eq_decide_div_mod_eq]
  have hpos : 2 ^ i ≠ 0 := (Nat.two_pow_pos i).ne'
  rcases Nat.mod_two_eq_zero_or_one (n / 2 ^ i) with h | h <;> simp [h]

theorem header_bits (header : UInt8) :
    (header.toNat &&& 0x80 = 0 ↔ header.toNat < 128) ∧
      (128 ≤ header.toNat → (header.toNat &&& 0x40 = 0 ↔ header.toNat < 192)) ∧
        header.toNat &&& 0x3f = header.toNat % 64 ∧
          (header.toNat >>> 2) &&& 0x0f = header.toNat / 4 % 16 ∧
            header.toNat &&& 0x03 = header.toNat % 4 := by
  have hlt := header.toNat_lt
  refine ⟨(and_bit_eq_zero_iff _ 7).trans ?_, fun hhigh => (and_bit_eq_zero_iff _ 6).trans ?_,
    Nat.and_two_pow_sub_one_eq_mod _ 6, ?_, Nat.and_two_pow_sub_one_eq_mod _ 2⟩
  · omega
  · omega
  · rw [Nat.shiftRight_eq_div_pow]
    exact Nat.and_two_pow_sub_one_eq_mod _ 4

theorem byte_eq {byte : UInt8} (h : byte.toNat = n) : byte = UInt8.ofNat n := by
  rw [← h, UInt8.ofNat_toNat]

theorem toNat_ofNat_of_lt (h : n < 256) : (UInt8.ofNat n).toNat = n := by
  rw [UInt8.toNat_ofNat', Nat.mod_eq_of_lt h]

theorem Header.toNat_eq {octets : Bytes}
    (h : Header (header :: octets) tag length) :
    (192 ≤ header.toNat → header.toNat % 64 = tag) ∧
      (header.toNat < 192 → tag < 16 ∧ ∃ lengthType < 3,
        header.toNat = 128 + tag * 4 + lengthType ∧ octets.length = 2 ^ lengthType ∧
          length = number octets) := by
  cases h with
  | one first htag hfirst =>
    rw [toNat_ofNat_of_lt (by omega)]
    exact ⟨fun _ => by omega, fun hlow => absurd hlow (by omega)⟩
  | two first second htag hlow hhigh =>
    rw [toNat_ofNat_of_lt (by omega)]
    exact ⟨fun _ => by omega, fun hlow => absurd hlow (by omega)⟩
  | five octets htag hlength =>
    rw [toNat_ofNat_of_lt (by omega)]
    exact ⟨fun _ => by omega, fun hlow => absurd hlow (by omega)⟩
  | old lengthType octets htag htype hlength =>
    rw [toNat_ofNat_of_lt (by omega)]
    exact ⟨fun hhigh => absurd hhigh (by omega),
      fun _ => ⟨htag, lengthType, htype, rfl, hlength, rfl⟩⟩

theorem packetHeader_new
    (hnew : 192 ≤ header.toNat) : packetHeader header.toNat bytes = .ok (tag, length, rest) ↔
      ∃ octets, bytes = octets ++ rest ∧ Header (header :: octets) tag length := by
  obtain ⟨hbit, hsecond, htag, -, -⟩ := header_bits header
  have hlt := header.toNat_lt
  have hheader : header = UInt8.ofNat (192 + header.toNat % 64) := byte_eq (by omega)
  have hmod : header.toNat % 64 < 64 := Nat.mod_lt _ (by decide)
  rw [packetHeader, if_neg (by rw [hbit]; omega), if_pos (by rw [ne_eq, hsecond (by omega)]; omega),
    htag, Effects.bind_eq_ok_iff]
  constructor
  · rintro ⟨⟨n, tail⟩, hbyte, h⟩
    obtain ⟨first, rfl, rfl⟩ := packetByte_ok_iff.mp hbyte
    by_cases hone : first.toNat < 192
    · simp only [if_pos hone, Except.ok.injEq, Prod.mk.injEq] at h
      obtain ⟨rfl, rfl, rfl⟩ := h
      refine ⟨[first], rfl, ?_⟩
      have hread := Header.one first hmod hone
      rwa [← hheader] at hread
    · by_cases htwo : first.toNat < 224
      · simp only [if_neg hone, if_pos htwo] at h
        obtain ⟨⟨n, tail'⟩, hbyte, h⟩ := Effects.bind_eq_ok_iff.mp h
        obtain ⟨second, rfl, rfl⟩ := packetByte_ok_iff.mp hbyte
        simp only [Except.ok.injEq, Prod.mk.injEq, Nat.shiftLeft_eq] at h
        obtain ⟨rfl, rfl, rfl⟩ := h
        refine ⟨[first, second], rfl, ?_⟩
        have hread := Header.two first second hmod (Nat.not_lt.mp hone) htwo
        rwa [← hheader] at hread
      · by_cases hfive : first.toNat = 255
        · simp only [if_neg hone, if_neg htwo, if_pos hfive] at h
          obtain ⟨⟨n, tail'⟩, hlength, h⟩ := Effects.bind_eq_ok_iff.mp h
          obtain ⟨octets, hcount, rfl, rfl⟩ := readLength_ok_iff.mp hlength
          simp only [Except.ok.injEq, Prod.mk.injEq] at h
          obtain ⟨rfl, rfl, rfl⟩ := h
          refine ⟨first :: octets, rfl, ?_⟩
          have hread := Header.five octets hmod hcount
          rw [← hheader] at hread
          rw [byte_eq hfive]
          exact hread
        · simp only [if_neg hone, if_neg htwo, if_neg hfive] at h
          cases h
  · rintro ⟨octets, rfl, h⟩
    have htags := h.toNat_eq.1 hnew
    cases h with
    | one first _ hfirst =>
      refine ⟨(first.toNat, rest), rfl, ?_⟩
      simp only [if_pos hfirst, htags]
    | two first second _ hlow hhigh =>
      refine ⟨(first.toNat, second :: rest), rfl, ?_⟩
      simp only [if_neg (Nat.not_lt.mpr hlow), if_pos hhigh, htags]
      refine Effects.bind_eq_ok_iff.mpr ⟨(second.toNat, rest), rfl, ?_⟩
      simp only [Nat.shiftLeft_eq]
    | five octets _ hlength =>
      refine ⟨(255, octets ++ rest), rfl, ?_⟩
      simp only [htags]
      refine Effects.bind_eq_ok_iff.mpr ⟨(number octets, rest),
        readLength_ok_iff.mpr ⟨octets, hlength, rfl, rfl⟩, rfl⟩
    | old lengthType octets htag htype hlength =>
      rw [toNat_ofNat_of_lt (by omega)] at hnew
      omega

theorem packetHeader_old
    (hold : header.toNat < 192) : packetHeader header.toNat bytes = .ok (tag, length, rest) ↔
      ∃ octets, bytes = octets ++ rest ∧ Header (header :: octets) tag length := by
  obtain ⟨hbit, hsecond, -, htag, htype⟩ := header_bits header
  have hlt := header.toNat_lt
  rw [packetHeader]
  by_cases hpacket : header.toNat < 128
  · rw [if_pos (hbit.mpr hpacket)]
    refine ⟨fun h => ?_, fun ⟨octets, _, h⟩ => ?_⟩
    · cases h
    · obtain ⟨_, lengthType, _, hheader, _, _⟩ := h.toNat_eq.2 hold
      omega
  · rw [if_neg (hbit.not.mpr hpacket), if_neg (not_not.mpr ((hsecond (by omega)).mpr hold)), htag,
      htype]
    by_cases hthree : header.toNat % 4 = 3
    · simp only [if_pos hthree]
      refine ⟨fun h => ?_, fun ⟨octets, _, h⟩ => ?_⟩
      · cases h
      · obtain ⟨_, lengthType, _, hheader, _, _⟩ := h.toNat_eq.2 hold
        omega
    · simp only [if_neg hthree, Nat.one_shiftLeft]
      rw [Effects.bind_eq_ok_iff]
      constructor
      · rintro ⟨⟨n, tail⟩, hread, h⟩
        obtain ⟨octets, hcount, rfl, rfl⟩ := readLength_ok_iff.mp hread
        simp only [Except.ok.injEq, Prod.mk.injEq] at h
        obtain ⟨rfl, rfl, rfl⟩ := h
        refine ⟨octets, rfl, ?_⟩
        have hheader : header =
            UInt8.ofNat (128 + header.toNat / 4 % 16 * 4 + header.toNat % 4) := byte_eq (by omega)
        have hread := Header.old (header.toNat % 4) octets
          (Nat.mod_lt (header.toNat / 4) (by decide)) (by omega) hcount
        rwa [← hheader] at hread
      · rintro ⟨octets, rfl, h⟩
        obtain ⟨htag, lengthType, htype, hheader, hlength, rfl⟩ := h.toNat_eq.2 hold
        have hkind : header.toNat % 4 = lengthType := by omega
        refine ⟨(number octets, rest), readLength_ok_iff.mpr
          ⟨octets, hlength.trans (by rw [hkind]), rfl, rfl⟩, ?_⟩
        have hsame : header.toNat / 4 % 16 = tag := by omega
        rw [hsame]

theorem packetHeader_ok_iff :
    packetHeader header.toNat bytes = .ok (tag, length, rest) ↔
      ∃ octets, bytes = octets ++ rest ∧ Header (header :: octets) tag length := by
  rcases Nat.lt_or_ge header.toNat 192 with hold | hnew
  · exact packetHeader_old hold
  · exact packetHeader_new hnew

def pgpPacketTags (bytes : Bytes) : Except Str (List Nat) :=
  match bytes with
  | [] => .ok []
  | header :: rest =>
    match _hheader : packetHeader header.toNat rest with
    | .error e => .error e
    | .ok (tag, length, body) =>
      if body.length < length then .error midPacket
      else (pgpPacketTags (body.drop length)).map (tag :: ·)
termination_by bytes.length
decreasing_by
  obtain ⟨octets, rfl, -⟩ := packetHeader_ok_iff.mp _hheader
  simp only [List.length_drop, List.length_cons, List.length_append]
  omega

theorem pgpPacketTags_cons {rest body : Bytes}
    (h : packetHeader header.toNat rest = .ok (tag, length, body)) :
    pgpPacketTags (header :: rest) = if body.length < length then .error midPacket
      else (pgpPacketTags (body.drop length)).map (tag :: ·) := by
  rw [pgpPacketTags]
  split
  · next hread =>
      rw [h] at hread
      cases hread
  · next hread =>
      rw [h] at hread
      cases hread
      rfl

theorem Header.ne_nil {octets : Bytes} (h : Header octets tag length) :
    octets ≠ [] := by
  cases h <;> exact List.cons_ne_nil _ _

theorem pgpPacketTags_iff {bytes : Bytes} {tags : List Nat} :
    pgpPacketTags bytes = .ok tags ↔ Packets bytes tags := by
  constructor
  · intro h
    fun_induction pgpPacketTags bytes generalizing tags with
    | case1 =>
      cases h
      exact .nil
    | case2 => cases h
    | case3 => cases h
    | case4 header rest tag length body hheader hlength ih =>
      obtain ⟨octets, rfl, hread⟩ := packetHeader_ok_iff.mp hheader
      cases hmore : pgpPacketTags (body.drop length) with
      | error e =>
        rw [hmore] at h
        cases h
      | ok more =>
        rw [hmore] at h
        obtain rfl := Except.ok.inj h
        have hbody : (body.take length).length = length :=
          List.length_take_of_le (Nat.not_lt.mp hlength)
        have hpackets : Packets (header :: octets ++ (body.take length ++ body.drop length))
            (tag :: more) := .cons (by rw [hbody]; exact hread) (ih hmore)
        rwa [List.take_append_drop] at hpackets
  · intro h
    induction h with
    | nil => rw [pgpPacketTags]
    | @cons octets body rest tag tags hheader hrest ih =>
      obtain ⟨header, octets, rfl⟩ := List.exists_cons_of_ne_nil hheader.ne_nil
      have hread : packetHeader header.toNat (octets ++ (body ++ rest)) =
          .ok (tag, body.length, body ++ rest) := packetHeader_ok_iff.mpr ⟨octets, rfl, hheader⟩
      rw [List.cons_append, pgpPacketTags_cons hread, if_neg (by simp), List.drop_left, ih]
      rfl

end Walk

end SharedInfra.HetznerHost
