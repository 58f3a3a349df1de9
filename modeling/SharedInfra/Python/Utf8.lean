import SharedInfra.Python.Base64
import SharedInfra.Python.Text

/-!
# UTF-8

`bytes.decode("utf-8")` with strict errors, and `str.encode("utf-8")`, which it
reads back (`utf8Decode_encode`).
-/

namespace SharedInfra.Python

/-- The six bits of a continuation byte. -/
def continuation (b : UInt8) : Option Nat :=
  if 0x80 ≤ b.toNat ∧ b.toNat ≤ 0xbf then some (b.toNat - 0x80) else none

/-- The first character and the bytes after it. -/
def utf8Head : Bytes → Option (Char × Bytes)
  | [] => none
  | b :: rest =>
    let n := b.toNat
    if n < 0x80 then some (Char.ofNat n, rest)
    else if 0xc2 ≤ n ∧ n ≤ 0xdf then
      match rest with
      | b1 :: rest => do
        let x ← continuation b1
        pure (Char.ofNat ((n - 0xc0) * 64 + x), rest)
      | _ => none
    else if 0xe0 ≤ n ∧ n ≤ 0xef then
      match rest with
      | b1 :: b2 :: rest => do
        let x ← continuation b1
        let y ← continuation b2
        let value := (n - 0xe0) * 4096 + x * 64 + y
        -- Neither an overlong form nor a surrogate.
        if value < 0x800 ∨ (0xd800 ≤ value ∧ value ≤ 0xdfff) then none
        else pure (Char.ofNat value, rest)
      | _ => none
    else if 0xf0 ≤ n ∧ n ≤ 0xf4 then
      match rest with
      | b1 :: b2 :: b3 :: rest => do
        let x ← continuation b1
        let y ← continuation b2
        let z ← continuation b3
        let value := (n - 0xf0) * 262144 + x * 4096 + y * 64 + z
        if value < 0x10000 ∨ 0x10ffff < value then none else pure (Char.ofNat value, rest)
      | _ => none
    else none

/-- The loop of the decoder; each turn takes at least one byte. -/
def utf8DecodeFrom : Nat → Bytes → Option Str
  | _, [] => some []
  | 0, _ => none
  | turns + 1, data => do
    let (c, rest) ← utf8Head data
    let more ← utf8DecodeFrom turns rest
    pure (c :: more)

/-- `data.decode("utf-8")`. -/
def utf8Decode (data : Bytes) : Option Str := utf8DecodeFrom data.length data

/-- `text.encode("utf-8")`. -/
def utf8Encode (text : Str) : Bytes := text.flatMap String.utf8EncodeChar

theorem continuation_of_lt {n : Nat} (h : n < 64) :
    continuation (UInt8.ofNat n + 128) = some n := by
  have hbyte : (UInt8.ofNat n + 128).toNat = n + 128 := by
    show (UInt8.ofNat n + UInt8.ofNat 128).toNat = n + 128
    rw [UInt8.toNat_add, UInt8.toNat_ofNat', UInt8.toNat_ofNat']
    omega
  rw [continuation, hbyte, if_pos (by omega), Nat.add_sub_cancel]

theorem toNat_lead (n k : Nat) (h : n + k < 256) : (UInt8.ofNat n + UInt8.ofNat k).toNat = n + k := by
  rw [UInt8.toNat_add, UInt8.toNat_ofNat', UInt8.toNat_ofNat']
  omega

theorem bind_of_eq_some {α : Type} {o p q : Option Nat} {x y z : Nat}
    (f : Nat → Nat → Nat → Option α) (ho : o = some x) (hp : p = some y) (hq : q = some z) :
    (do
      let x ← o
      let y ← p
      let z ← q
      f x y z) = f x y z := by
  rw [ho, hp, hq]
  rfl

theorem valid_toNat (c : Char) :
    c.toNat < 0xd800 ∨ (0xdfff < c.toNat ∧ c.toNat < 0x110000) := c.valid

theorem utf8EncodeChar_eq (c : Char) : String.utf8EncodeChar c =
    if c.toNat ≤ 0x7f then [UInt8.ofNat c.toNat]
    else if c.toNat ≤ 0x7ff then
      [UInt8.ofNat (c.toNat / 64 % 32) + 192, UInt8.ofNat (c.toNat % 64) + 128]
    else if c.toNat ≤ 0xffff then
      [UInt8.ofNat (c.toNat / 4096 % 16) + 224, UInt8.ofNat (c.toNat / 64 % 64) + 128,
        UInt8.ofNat (c.toNat % 64) + 128]
    else
      [UInt8.ofNat (c.toNat / 262144 % 8) + 240, UInt8.ofNat (c.toNat / 4096 % 64) + 128,
        UInt8.ofNat (c.toNat / 64 % 64) + 128, UInt8.ofNat (c.toNat % 64) + 128] := by
  simp [String.utf8EncodeChar]

theorem utf8Head_encode (c : Char) (rest : Bytes) :
    utf8Head (String.utf8EncodeChar c ++ rest) = some (c, rest) := by
  have hvalid := valid_toNat c
  have hmod := Nat.mod_lt c.toNat (by decide : 0 < 64)
  have hmid := Nat.mod_lt (c.toNat / 64) (by decide : 0 < 64)
  have hhigh := Nat.mod_lt (c.toNat / 4096) (by decide : 0 < 64)
  rw [utf8EncodeChar_eq]
  split_ifs with h₁ h₂ h₃
  · have hlead : (UInt8.ofNat c.toNat).toNat = c.toNat := by
      rw [UInt8.toNat_ofNat']
      omega
    simp only [List.singleton_append, utf8Head, hlead]
    rw [if_pos (by omega), Char.ofNat_toNat]
  · have hlead : (UInt8.ofNat (c.toNat / 64 % 32) + 192).toNat = c.toNat / 64 % 32 + 192 :=
      toNat_lead _ 192 (by omega)
    have hvalue : (c.toNat / 64 % 32 + 192 - 0xc0) * 64 + c.toNat % 64 = c.toNat := by omega
    simp only [List.cons_append, List.nil_append, utf8Head, hlead]
    rw [if_neg (by omega), if_pos (by omega), continuation_of_lt hmod]
    simp only [Option.bind_eq_bind, Option.bind_some, hvalue, Char.ofNat_toNat]
    rfl
  · have hlead : (UInt8.ofNat (c.toNat / 4096 % 16) + 224).toNat = c.toNat / 4096 % 16 + 224 :=
      toNat_lead _ 224 (by omega)
    have hvalue : (c.toNat / 4096 % 16 + 224 - 0xe0) * 4096 + c.toNat / 64 % 64 * 64 +
        c.toNat % 64 = c.toNat := by omega
    simp only [List.cons_append, List.nil_append, utf8Head, hlead]
    rw [if_neg (by omega), if_neg (by omega), if_pos (by omega), continuation_of_lt hmid,
      continuation_of_lt hmod]
    simp only [Option.bind_eq_bind, Option.bind_some, hvalue, Char.ofNat_toNat]
    rw [if_neg (by omega)]
    rfl
  · have hlead : (UInt8.ofNat (c.toNat / 262144 % 8) + 240).toNat = c.toNat / 262144 % 8 + 240 :=
      toNat_lead _ 240 (by omega)
    have hvalue : (c.toNat / 262144 % 8 + 240 - 0xf0) * 262144 + c.toNat / 4096 % 64 * 4096 +
        c.toNat / 64 % 64 * 64 + c.toNat % 64 = c.toNat := by omega
    simp only [List.cons_append, List.nil_append, utf8Head, hlead]
    rw [if_neg (by omega), if_neg (by omega), if_neg (by omega), if_pos (by omega)]
    refine (bind_of_eq_some (fun x y z => _) (continuation_of_lt hhigh) (continuation_of_lt hmid)
      (continuation_of_lt hmod)).trans ?_
    simp only [hvalue, Char.ofNat_toNat]
    exact if_neg (by omega)

theorem utf8Encode_cons (c : Char) (text : Str) :
    utf8Encode (c :: text) = String.utf8EncodeChar c ++ utf8Encode text := List.flatMap_cons

theorem utf8DecodeFrom_encode (text : Str) (turns : Nat)
    (hturns : (utf8Encode text).length ≤ turns) :
    utf8DecodeFrom turns (utf8Encode text) = some text := by
  induction text generalizing turns with
  | nil => rw [utf8Encode, List.flatMap_nil, utf8DecodeFrom]
  | cons c text ih =>
    rw [utf8Encode_cons] at hturns ⊢
    obtain ⟨b, bytes, hb⟩ : ∃ b bytes, String.utf8EncodeChar c = b :: bytes := by
      refine List.exists_cons_of_ne_nil fun hnil => ?_
      have hlength := congrArg List.length hnil
      rw [String.length_utf8EncodeChar] at hlength
      exact absurd hlength (Nat.ne_of_gt c.utf8Size_pos)
    have hhead := utf8Head_encode c (utf8Encode text)
    rw [hb, List.cons_append] at hturns hhead ⊢
    cases turns with
    | zero => cases hturns
    | succ turns =>
      rw [List.length_cons, List.length_append] at hturns
      rw [utf8DecodeFrom.eq_3 _ _ (by simp), hhead]
      simp [ih turns (by omega)]

theorem utf8Decode_encode (text : Str) : utf8Decode (utf8Encode text) = some text :=
  utf8DecodeFrom_encode text _ le_rfl

theorem utf8Encode_injective {s t : Str} (h : utf8Encode s = utf8Encode t) : s = t := by
  have hdecode := congrArg utf8Decode h
  rw [utf8Decode_encode, utf8Decode_encode] at hdecode
  exact Option.some.inj hdecode

/-!
# UTF-8 with replacement

`bytes.decode("utf-8", errors="replace")`: what is not the encoding of a
character becomes U+FFFD, once for every longest front of one
(`brokenLength`).  A byte below 0x80 is always a place to start from anew
(`utf8DecodeReplace_append`).
-/

/-- The second bytes that may follow a lead byte of three or four. -/
def secondFits (lead second : UInt8) : Bool :=
  let n := lead.toNat
  let m := second.toNat
  if n = 0xe0 then decide (0xa0 ≤ m ∧ m ≤ 0xbf)
  else if n = 0xed then decide (0x80 ≤ m ∧ m ≤ 0x9f)
  else if n = 0xf0 then decide (0x90 ≤ m ∧ m ≤ 0xbf)
  else if n = 0xf4 then decide (0x80 ≤ m ∧ m ≤ 0x8f)
  else decide (0x80 ≤ m ∧ m ≤ 0xbf)

/-- How many bytes one replacement character stands for, where no character starts. -/
def brokenLength : Bytes → Nat
  | b :: b1 :: rest =>
    let n := b.toNat
    if (0xe0 ≤ n ∧ n ≤ 0xf4) ∧ secondFits b b1 then
      match rest with
      | b2 :: _ => if 0xf0 ≤ n ∧ (continuation b2).isSome then 3 else 2
      | [] => 2
    else 1
  | _ => 1

/-- The loop of the decoder, with so many bytes still to pass. -/
def utf8ReplaceFrom : Nat → Bytes → Str
  | _, [] => []
  | skip + 1, _ :: rest => utf8ReplaceFrom skip rest
  | 0, b :: rest =>
    match utf8Head (b :: rest) with
    | some (c, after) => c :: utf8ReplaceFrom (rest.length - after.length) rest
    | none => '\uFFFD' :: utf8ReplaceFrom (brokenLength (b :: rest) - 1) rest

/-- `data.decode("utf-8", errors="replace")`. -/
def utf8DecodeReplace (data : Bytes) : Str := utf8ReplaceFrom 0 data

section Boundary

variable {b : UInt8} {tail : Bytes}

theorem continuation_of_ascii (h : b.toNat < 0x80) : continuation b = none :=
  if_neg fun hb => absurd hb.1 (Nat.not_le.mpr h)

theorem secondFits_of_ascii (h : b.toNat < 0x80) (lead : UInt8) : secondFits lead b = false := by
  unfold secondFits
  simp only
  split_ifs <;> exact decide_eq_false fun hb => by omega

theorem utf8Head_append (h : b.toNat < 0x80) (a : UInt8) (front : Bytes) :
    utf8Head (a :: front ++ b :: tail) =
      (utf8Head (a :: front)).map fun found => (found.1, found.2 ++ b :: tail) := by
  have hb := continuation_of_ascii h
  unfold utf8Head
  simp only [List.cons_append]
  split_ifs
  · rfl
  · cases front with
    | nil => simp [hb]
    | cons b1 front => cases continuation b1 <;> simp
  · rcases front with _ | ⟨b1, _ | ⟨b2, front⟩⟩
    · cases tail <;> simp [hb]
    · cases continuation b1 <;> simp [hb]
    · rcases h1 : continuation b1 with _ | x
      · simp [h1]
      · rcases h2 : continuation b2 with _ | y
        · simp [h1, h2]
        · simp only [List.cons_append, h1, h2, Option.bind_eq_bind, Option.bind_some]
          split_ifs <;> rfl
  · rcases front with _ | ⟨b1, _ | ⟨b2, _ | ⟨b3, front⟩⟩⟩
    · rcases tail with _ | ⟨_, _ | ⟨_, _⟩⟩ <;> simp [hb]
    · cases tail <;> cases continuation b1 <;> simp [hb]
    · cases continuation b1 <;> cases continuation b2 <;> simp [hb]
    · rcases h1 : continuation b1 with _ | x
      · simp [h1]
      · rcases h2 : continuation b2 with _ | y
        · simp [h1, h2]
        · rcases h3 : continuation b3 with _ | z
          · simp [h1, h2, h3]
          · refine (bind_of_eq_some (fun x y z => _) h1 h2 h3).trans (Eq.trans ?_
              (congrArg (Option.map _) (bind_of_eq_some (fun x y z => _) h1 h2 h3).symm))
            split_ifs <;> rfl
  · rfl

theorem brokenLength_append (h : b.toNat < 0x80) (a : UInt8) (front : Bytes) :
    brokenLength (a :: front ++ b :: tail) = brokenLength (a :: front) := by
  rcases front with _ | ⟨b1, _ | ⟨b2, front⟩⟩
  · simp [brokenLength, secondFits_of_ascii h]
  · simp [brokenLength, continuation_of_ascii h]
  · rfl

theorem brokenLength_le (a : UInt8) (front : Bytes) :
    brokenLength (a :: front) - 1 ≤ front.length := by
  rcases front with _ | ⟨b1, _ | ⟨b2, front⟩⟩
  · simp [brokenLength]
  · simp only [brokenLength]
    split_ifs <;> simp
  · simp only [brokenLength]
    split_ifs <;> simp

theorem utf8ReplaceFrom_append (h : b.toNat < 0x80) {front : Bytes} {skip : Nat}
    (hskip : skip ≤ front.length) :
    utf8ReplaceFrom skip (front ++ b :: tail) =
      utf8ReplaceFrom skip front ++ utf8DecodeReplace (b :: tail) := by
  induction front generalizing skip with
  | nil =>
    obtain rfl := Nat.le_zero.mp hskip
    rfl
  | cons a front ih =>
    rw [List.cons_append]
    cases skip with
    | succ skip => exact ih (Nat.le_of_succ_le_succ hskip)
    | zero =>
      rw [utf8ReplaceFrom, utf8ReplaceFrom, ← List.cons_append, utf8Head_append h,
        brokenLength_append h]
      cases utf8Head (a :: front) with
      | none =>
        simp only [Option.map_none, List.cons_append]
        rw [ih (brokenLength_le a front)]
      | some found =>
        have hlen : (front ++ b :: tail).length - (found.2 ++ b :: tail).length =
            front.length - found.2.length := by
          rw [List.length_append, List.length_append, Nat.add_sub_add_right]
        simp only [Option.map_some, List.cons_append, hlen]
        rw [ih (Nat.sub_le _ _)]

theorem utf8DecodeReplace_append (h : b.toNat < 0x80) (front tail : Bytes) :
    utf8DecodeReplace (front ++ b :: tail) =
      utf8DecodeReplace front ++ utf8DecodeReplace (b :: tail) :=
  utf8ReplaceFrom_append h (Nat.zero_le _)

end Boundary

theorem utf8ReplaceFrom_pass (passed rest : Bytes) :
    utf8ReplaceFrom passed.length (passed ++ rest) = utf8DecodeReplace rest := by
  induction passed with
  | nil => rfl
  | cons a passed ih => exact ih

theorem utf8DecodeReplace_encode (text : Str) : utf8DecodeReplace (utf8Encode text) = text := by
  induction text with
  | nil => rfl
  | cons c text ih =>
    have hhead := utf8Head_encode c (utf8Encode text)
    rw [utf8Encode_cons]
    cases hbytes : String.utf8EncodeChar c with
    | nil => exact absurd hbytes (by simp [String.utf8EncodeChar_ne_nil])
    | cons b more =>
      rw [hbytes, List.cons_append] at hhead
      rw [List.cons_append, utf8DecodeReplace, utf8ReplaceFrom, hhead]
      have hlen : (more ++ utf8Encode text).length - (utf8Encode text).length = more.length := by
        rw [List.length_append, Nat.add_sub_cancel]
      simp only [hlen]
      rw [utf8ReplaceFrom_pass, ih]

end SharedInfra.Python
