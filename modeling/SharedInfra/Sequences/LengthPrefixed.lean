import SharedInfra.Python.Base64

/-!
# Length-prefixed fields

A byte string made of fields, each after its length in four bytes, most significant
first.  `readFields` reads such a string to its last byte; the strings it reads are
those `writeFields` writes, and to one list of fields belongs one string.
-/

namespace SharedInfra.Sequences

open Python

def lengthBytes (n : Nat) : Bytes :=
  [UInt8.ofNat (n / 16777216), UInt8.ofNat (n / 65536 % 256), UInt8.ofNat (n / 256 % 256),
    UInt8.ofNat (n % 256)]

/-- The number in four bytes. -/
def lengthValue (a b c d : UInt8) : Nat :=
  a.toNat * 16777216 + b.toNat * 65536 + c.toNat * 256 + d.toNat

def writeFields (fields : List Bytes) : Bytes :=
  fields.flatMap fun field => lengthBytes field.length ++ field

/-- The fields of a byte string, at most `turns` of them; `none` when a length is cut short or
promises more bytes than there are. -/
def readFields : Nat → Bytes → Option (List Bytes)
  | _, [] => some []
  | turns + 1, a :: b :: c :: d :: rest =>
    if rest.length < lengthValue a b c d then none
    else (readFields turns (rest.drop (lengthValue a b c d))).map
      (rest.take (lengthValue a b c d) :: ·)
  | _, _ => none

theorem lengthValue_lt (a b c d : UInt8) : lengthValue a b c d < 4294967296 := by
  have ha := a.toNat_lt
  have hb := b.toNat_lt
  have hc := c.toNat_lt
  have hd := d.toNat_lt
  rw [lengthValue]
  omega

theorem lengthBytes_lengthValue (a b c d : UInt8) :
    lengthBytes (lengthValue a b c d) = [a, b, c, d] := by
  have ha := a.toNat_lt
  have hb := b.toNat_lt
  have hc := c.toNat_lt
  have hd := d.toNat_lt
  have h1 : lengthValue a b c d / 16777216 = a.toNat := by rw [lengthValue]; omega
  have h2 : lengthValue a b c d / 65536 % 256 = b.toNat := by rw [lengthValue]; omega
  have h3 : lengthValue a b c d / 256 % 256 = c.toNat := by rw [lengthValue]; omega
  have h4 : lengthValue a b c d % 256 = d.toNat := by rw [lengthValue]; omega
  simp [lengthBytes, h1, h2, h3, h4]

theorem lengthValue_lengthBytes {n : Nat} (h : n < 4294967296) :
    ∃ a b c d, lengthBytes n = [a, b, c, d] ∧ lengthValue a b c d = n := by
  refine ⟨_, _, _, _, rfl, ?_⟩
  rw [lengthValue]
  simp only [UInt8.toNat_ofNat', Nat.reducePow]
  omega

theorem readFields_writeFields {fields : List Bytes} {turns : Nat}
    (hsize : ∀ field ∈ fields, field.length < 4294967296) (hturns : fields.length ≤ turns) :
    readFields turns (writeFields fields) = some fields := by
  induction fields generalizing turns with
  | nil => cases turns <;> rfl
  | cons field fields ih =>
    obtain ⟨hfield, hfields⟩ := List.forall_mem_cons.mp hsize
    obtain ⟨turns, rfl⟩ : ∃ m, turns = m + 1 :=
      ⟨turns - 1, by simp only [List.length_cons] at hturns; omega⟩
    obtain ⟨a, b, c, d, hbytes, hvalue⟩ := lengthValue_lengthBytes hfield
    have hwrite : writeFields (field :: fields) =
        a :: b :: c :: d :: (field ++ writeFields fields) := by
      rw [writeFields, List.flatMap_cons, hbytes]
      rfl
    have hfits : ¬ (field ++ writeFields fields).length < field.length := by
      rw [List.length_append]
      omega
    rw [hwrite, readFields, hvalue, if_neg hfits, List.drop_left, List.take_left,
      ih hfields (Nat.le_of_succ_le_succ hturns)]
    rfl

theorem writeFields_of_readFields {turns : Nat} {raw : Bytes} {fields : List Bytes}
    (h : readFields turns raw = some fields) :
    raw = writeFields fields ∧ ∀ field ∈ fields, field.length < 4294967296 := by
  induction turns generalizing raw fields with
  | zero =>
    cases raw with
    | nil =>
      cases h
      exact ⟨rfl, by simp⟩
    | cons a raw => simp [readFields] at h
  | succ turns ih =>
    match raw, h with
    | [], h =>
      cases h
      exact ⟨rfl, by simp⟩
    | a :: b :: c :: d :: rest, h =>
      rw [readFields] at h
      by_cases hshort : rest.length < lengthValue a b c d
      · rw [if_pos hshort] at h
        cases h
      · rw [if_neg hshort, Option.map_eq_some_iff] at h
        obtain ⟨more, hmore, rfl⟩ := h
        obtain ⟨hraw, hsizes⟩ := ih hmore
        have hlength : (rest.take (lengthValue a b c d)).length = lengthValue a b c d := by
          rw [List.length_take]
          omega
        have hsize : (rest.take (lengthValue a b c d)).length < 4294967296 := by
          rw [hlength]
          exact lengthValue_lt a b c d
        refine ⟨?_, List.forall_mem_cons.mpr ⟨hsize, hsizes⟩⟩
        rw [writeFields, List.flatMap_cons, hlength, lengthBytes_lengthValue]
        change _ = [a, b, c, d] ++ rest.take _ ++ writeFields more
        rw [← hraw, List.append_assoc, List.take_append_drop]
        rfl

theorem length_le_writeFields (fields : List Bytes) : fields.length ≤ (writeFields fields).length := by
  induction fields with
  | nil => simp
  | cons field fields ih =>
    rw [writeFields, List.flatMap_cons, List.length_append, List.length_append]
    change _ ≤ 4 + field.length + (writeFields fields).length
    rw [List.length_cons]
    omega

theorem readFields_iff {raw : Bytes} {fields : List Bytes} :
    readFields raw.length raw = some fields ↔
      raw = writeFields fields ∧ ∀ field ∈ fields, field.length < 4294967296 := by
  constructor
  · exact writeFields_of_readFields
  · rintro ⟨rfl, hsize⟩
    exact readFields_writeFields hsize (length_le_writeFields fields)

end SharedInfra.Sequences
