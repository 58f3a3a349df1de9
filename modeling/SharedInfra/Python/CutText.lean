import SharedInfra.Python.Utf8

/-!
# A text that was cut off

What is left of an encoded text after some of its bytes is decoded, if at all, to what is left of
the text (`utf8Decode_take`).
-/

namespace SharedInfra.Python

theorem utf8Head_cut {c : Char} {k : Nat} (hk : 0 < k)
    (hlt : k < (String.utf8EncodeChar c).length) :
    utf8Head ((String.utf8EncodeChar c).take k) = none := by
  have hvalid := valid_toNat c
  rw [utf8EncodeChar_eq] at hlt ⊢
  split_ifs at hlt ⊢ with h₁ h₂ h₃
  · simp only [List.length_singleton] at hlt
    omega
  · have hlead : (UInt8.ofNat (c.toNat / 64 % 32) + 192).toNat = c.toNat / 64 % 32 + 192 :=
      toNat_lead _ 192 (by omega)
    obtain rfl : k = 1 := by
      simp only [List.length_cons, List.length_nil] at hlt
      omega
    simp only [List.take_succ_cons, List.take_zero, utf8Head, hlead]
    rw [if_neg (by omega), if_pos (by omega)]
  · have hlead : (UInt8.ofNat (c.toNat / 4096 % 16) + 224).toNat = c.toNat / 4096 % 16 + 224 :=
      toNat_lead _ 224 (by omega)
    have hcut : k = 1 ∨ k = 2 := by
      simp only [List.length_cons, List.length_nil] at hlt
      omega
    rcases hcut with rfl | rfl
    all_goals
      simp only [List.take_succ_cons, List.take_zero, utf8Head, hlead]
      rw [if_neg (by omega), if_neg (by omega), if_pos (by omega)]
  · have hlead : (UInt8.ofNat (c.toNat / 262144 % 8) + 240).toNat = c.toNat / 262144 % 8 + 240 :=
      toNat_lead _ 240 (by omega)
    have hcut : k = 1 ∨ k = 2 ∨ k = 3 := by
      simp only [List.length_cons, List.length_nil] at hlt
      omega
    rcases hcut with rfl | rfl | rfl
    all_goals
      simp only [List.take_succ_cons, List.take_zero, utf8Head, hlead]
      rw [if_neg (by omega), if_neg (by omega), if_neg (by omega), if_pos (by omega)]

theorem utf8DecodeFrom_take {text t : Str} {turns k : Nat}
    (h : utf8DecodeFrom turns ((utf8Encode text).take k) = some t) :
    ∃ rest, text = t ++ rest ∧ utf8Encode t = (utf8Encode text).take k := by
  induction text generalizing turns k t with
  | nil =>
    rw [utf8Encode, List.flatMap_nil, List.take_nil, utf8DecodeFrom] at h
    cases h
    exact ⟨[], rfl, by simp [utf8Encode]⟩
  | cons c text ih =>
    rw [utf8Encode_cons] at h ⊢
    rcases Nat.eq_zero_or_pos k with rfl | hk
    · rw [List.take_zero, utf8DecodeFrom] at h
      cases h
      exact ⟨c :: text, rfl, by simp [utf8Encode]⟩
    have hpos : 0 < (String.utf8EncodeChar c).length := by
      rw [String.length_utf8EncodeChar]
      exact c.utf8Size_pos
    have hne : ∀ more : Bytes, (String.utf8EncodeChar c ++ more).take k ≠ [] := by
      intro more hnil
      have hlength := congrArg List.length hnil
      rw [List.length_take, List.length_append, List.length_nil] at hlength
      omega
    cases turns with
    | zero =>
      rw [utf8DecodeFrom.eq_2 _ (hne _)] at h
      cases h
    | succ turns =>
      rw [utf8DecodeFrom.eq_3 _ _ (hne _)] at h
      rcases Nat.lt_or_ge k (String.utf8EncodeChar c).length with hlt | hge
      · rw [List.take_append_of_le_length hlt.le, utf8Head_cut hk hlt] at h
        cases h
      · rw [List.take_append, List.take_of_length_le hge, utf8Head_encode] at h
        simp only [Option.bind_eq_bind, Option.bind_some] at h
        obtain ⟨more, hmore, ht⟩ := Option.bind_eq_some_iff.mp h
        obtain ⟨rest, hrest, hencode⟩ := ih hmore
        cases ht
        refine ⟨rest, by rw [hrest, List.cons_append], ?_⟩
        rw [utf8Encode_cons, hencode, List.take_append, List.take_of_length_le hge]

theorem utf8Decode_take {text t : Str} {k : Nat}
    (h : utf8Decode ((utf8Encode text).take k) = some t) :
    ∃ rest, text = t ++ rest ∧ utf8Encode t = (utf8Encode text).take k :=
  utf8DecodeFrom_take h

theorem utf8Encode_append (s t : Str) : utf8Encode (s ++ t) = utf8Encode s ++ utf8Encode t :=
  List.flatMap_append

end SharedInfra.Python
