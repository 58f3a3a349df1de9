import SharedInfra.Python.Base64

/-!
# Spellings of one byte string

`b64decode` does not ask for the bits that the last character carries beyond the
last byte to be zero, as `b64encode` writes them.  So a byte string has more than
one text: two texts are decoded to the same bytes exactly when they differ in
those bits only (`b64decode_eq_iff`).
-/

namespace SharedInfra.Python

variable {b b' raw : Bytes}

/-- A padding and the number by which the character before it is cut: with one `=` its last two
bits say nothing, with two its last four. -/
inductive IsPadding : Bytes → Nat → Prop
  | one : IsPadding [b64pad] 4
  | two : IsPadding [b64pad, b64pad] 16

/-- Two texts that differ in the bits after the last byte only. -/
def PaddingTwins (b b' : Bytes) : Prop :=
  ∃ front padding unit c c' v v', IsPadding padding unit ∧ b = front ++ c :: padding ∧
    b' = front ++ c' :: padding ∧ c ≠ c' ∧ b64value c = some v ∧ b64value c' = some v' ∧
    v / unit = v' / unit

theorem b64value_lt {c : UInt8} {v : Nat} (h : b64value c = some v) : v < 64 := by
  simp only [b64value] at h
  split_ifs at h <;> simp only [Option.some.injEq] at h <;> omega

theorem b64char_b64value {c : UInt8} {v : Nat} (h : b64value c = some v) : b64char v = c := by
  have hv := b64value_lt h
  have hc := c.toNat_lt
  simp only [b64value] at h
  rw [← UInt8.toNat_inj, b64char, UInt8.toNat_ofNat']
  split_ifs at h <;> simp only [Option.some.injEq] at h <;> split_ifs <;> omega

theorem b64value_pad : b64value b64pad = none := by decide

theorem b64value_ne_pad {c : UInt8} {v : Nat} (h : b64value c = some v) : c ≠ b64pad := by
  rintro rfl
  rw [b64value_pad] at h
  cases h

theorem b64decode_cons {w x y z : UInt8} {rest : Bytes} (h : rest ≠ []) :
    b64decode (w :: x :: y :: z :: rest) =
      (b64bytes w x y z).bind fun bytes => (b64decode rest).map (bytes ++ ·) := by
  rw [b64decode.eq_3 _ _ _ _ _ h]
  cases b64bytes w x y z with
  | none => rfl
  | some bytes => cases b64decode rest <;> rfl

theorem b64bytes_eq_some {w x y z : UInt8} {bytes : Bytes} (h : b64bytes w x y z = some bytes) :
    ∃ p q r s, b64value w = some p ∧ b64value x = some q ∧ b64value y = some r ∧
      b64value z = some s ∧
      bytes = [UInt8.ofNat ((p * 262144 + q * 4096 + r * 64 + s) / 65536),
        UInt8.ofNat ((p * 262144 + q * 4096 + r * 64 + s) / 256 % 256),
        UInt8.ofNat ((p * 262144 + q * 4096 + r * 64 + s) % 256)] := by
  simp only [b64bytes, Option.bind_eq_bind, Option.bind_eq_some_iff] at h
  obtain ⟨p, hp, q, hq, r, hr, s, hs, h⟩ := h
  exact ⟨p, q, r, s, hp, hq, hr, hs, (Option.some.inj h).symm⟩

theorem join_bytes {n : Nat} (h : n < 16777216) :
    (UInt8.ofNat (n / 65536)).toNat * 65536 + (UInt8.ofNat (n / 256 % 256)).toNat * 256 +
      (UInt8.ofNat (n % 256)).toNat = n := by
  have htop : n / 65536 < 256 := by omega
  have hsplit : n / 65536 * 256 + n / 256 % 256 = n / 256 := by omega
  rw [UInt8.toNat_ofNat', UInt8.toNat_ofNat', UInt8.toNat_ofNat', Nat.mod_mod, Nat.mod_mod,
    Nat.mod_eq_of_lt htop]
  calc n / 65536 * 65536 + n / 256 % 256 * 256 + n % 256
      = (n / 65536 * 256 + n / 256 % 256) * 256 + n % 256 := by ring
    _ = n / 256 * 256 + n % 256 := by rw [hsplit]
    _ = n := Nat.div_add_mod' n 256

theorem b64group_b64bytes {w x y z : UInt8} {bytes : Bytes} (h : b64bytes w x y z = some bytes) :
    ∃ i j k, bytes = [i, j, k] ∧ b64group i j k = [w, x, y, z] := by
  obtain ⟨p, q, r, s, hp, hq, hr, hs, rfl⟩ := b64bytes_eq_some h
  have hp' := b64value_lt hp
  have hq' := b64value_lt hq
  have hr' := b64value_lt hr
  have hs' := b64value_lt hs
  refine ⟨_, _, _, rfl, ?_⟩
  generalize hn : p * 262144 + q * 4096 + r * 64 + s = n
  have hlt : n < 16777216 := by omega
  have hjoin := join_bytes hlt
  have h1 : n / 262144 = p := by omega
  have h2 : n / 4096 % 64 = q := by omega
  have h3 : n / 64 % 64 = r := by omega
  have h4 : n % 64 = s := by omega
  simp only [b64group, hjoin, h1, h2, h3, h4, b64char_b64value hp, b64char_b64value hq,
    b64char_b64value hr, b64char_b64value hs]

/-- A text is how its bytes are encoded, up to the bits of its last character. -/
inductive Rounds : Bytes → Bytes → Prop
  | same (b : Bytes) : Rounds b b
  | cut {padding : Bytes} {unit : Nat} {c : UInt8} {v : Nat} (front : Bytes) :
      IsPadding padding unit → b64value c = some v →
      Rounds (front ++ c :: padding) (front ++ b64char (v / unit * unit) :: padding)

theorem Rounds.append (first : Bytes) (h : Rounds b b') : Rounds (first ++ b) (first ++ b') := by
  cases h with
  | same => exact .same _
  | cut front hpadding hv =>
    rw [← List.append_assoc, ← List.append_assoc]
    exact .cut _ hpadding hv

theorem rounds_of_b64decode (h : b64decode b = some raw) : Rounds b (b64encode raw) := by
  fun_induction b64decode b generalizing raw with
  | case1 =>
    cases h
    exact .same _
  | case2 w x =>
    rw [Option.map_eq_some_iff] at h
    obtain ⟨bytes, hbytes, rfl⟩ := h
    obtain ⟨p, q, r, s, hp, hq, hr, hs, rfl⟩ := b64bytes_eq_some hbytes
    have hp' := b64value_lt hp
    have hq' := b64value_lt hq
    rw [b64value_b64char (by decide), Option.some.injEq] at hr hs
    subst hr hs
    have hone : (UInt8.ofNat ((p * 262144 + q * 4096 + 0 * 64 + 0) / 65536)).toNat =
        p * 4 + q / 16 := by
      simp only [UInt8.toNat_ofNat', Nat.reducePow]
      omega
    have hfirst : ((p * 4 + q / 16) * 65536 + (0 : UInt8).toNat * 256 + (0 : UInt8).toNat) /
        262144 = p := by
      rw [UInt8.toNat_zero]
      omega
    have hsecond : ((p * 4 + q / 16) * 65536 + (0 : UInt8).toNat * 256 + (0 : UInt8).toNat) /
        4096 % 64 = q / 16 * 16 := by
      rw [UInt8.toNat_zero]
      omega
    have hencode : b64encode [UInt8.ofNat ((p * 262144 + q * 4096 + 0 * 64 + 0) / 65536)] =
        [w] ++ b64char (q / 16 * 16) :: [b64pad, b64pad] := by
      rw [b64encode, b64group, hone, hfirst, hsecond, b64char_b64value hp]
      rfl
    have := Rounds.cut [w] .two hq
    rw [← hencode] at this
    exact this
  | case3 w x y hy =>
    rw [Option.map_eq_some_iff] at h
    obtain ⟨bytes, hbytes, rfl⟩ := h
    obtain ⟨p, q, r, s, hp, hq, hr, hs, rfl⟩ := b64bytes_eq_some hbytes
    have hp' := b64value_lt hp
    have hq' := b64value_lt hq
    have hr' := b64value_lt hr
    rw [b64value_b64char (by decide), Option.some.injEq] at hs
    subst hs
    have hone : (UInt8.ofNat ((p * 262144 + q * 4096 + r * 64 + 0) / 65536)).toNat =
        p * 4 + q / 16 := by
      simp only [UInt8.toNat_ofNat', Nat.reducePow]
      omega
    have htwo : (UInt8.ofNat ((p * 262144 + q * 4096 + r * 64 + 0) / 256 % 256)).toNat =
        q % 16 * 16 + r / 4 := by
      simp only [UInt8.toNat_ofNat', Nat.reducePow]
      omega
    have hfirst : ((p * 4 + q / 16) * 65536 + (q % 16 * 16 + r / 4) * 256 +
        (0 : UInt8).toNat) / 262144 = p := by
      rw [UInt8.toNat_zero]
      omega
    have hsecond : ((p * 4 + q / 16) * 65536 + (q % 16 * 16 + r / 4) * 256 +
        (0 : UInt8).toNat) / 4096 % 64 = q := by
      rw [UInt8.toNat_zero]
      omega
    have hthird : ((p * 4 + q / 16) * 65536 + (q % 16 * 16 + r / 4) * 256 +
        (0 : UInt8).toNat) / 64 % 64 = r / 4 * 4 := by
      have hsum : (p * 4 + q / 16) * 65536 + (q % 16 * 16 + r / 4) * 256 =
          (p * 4096 + q * 64 + r / 4 * 4) * 64 := by omega
      rw [UInt8.toNat_zero, hsum, Nat.add_zero, Nat.mul_div_cancel _ (by decide)]
      omega
    have hencode : b64encode [UInt8.ofNat ((p * 262144 + q * 4096 + r * 64 + 0) / 65536),
        UInt8.ofNat ((p * 262144 + q * 4096 + r * 64 + 0) / 256 % 256)] =
        [w, x] ++ b64char (r / 4 * 4) :: [b64pad] := by
      rw [b64encode, b64group, hone, htwo, hfirst, hsecond, hthird, b64char_b64value hp,
        b64char_b64value hq]
      rfl
    have := Rounds.cut [w, x] .one hr
    rw [← hencode] at this
    exact this
  | case4 w x y z hz =>
    obtain ⟨i, j, k, rfl, hgroup⟩ := b64group_b64bytes h
    have hencode : b64encode [i, j, k] = [w, x, y, z] := by
      rw [b64encode, hgroup]
      rfl
    rw [hencode]
    exact .same _
  | case5 w x y z rest hrest ih =>
    simp only [Option.bind_eq_bind, Option.bind_eq_some_iff] at h
    obtain ⟨bytes, hbytes, more, hmore, h⟩ := h
    obtain rfl := Option.some.inj h
    obtain ⟨i, j, k, rfl, hgroup⟩ := b64group_b64bytes hbytes
    have hencode : b64encode ([i, j, k] ++ more) = [w, x, y, z] ++ b64encode more := by
      rw [← hgroup]
      rfl
    rw [hencode]
    exact (ih hmore).append [w, x, y, z]
  | case6 => cases h

theorem IsPadding.unit_pos {padding : Bytes} {unit : Nat} (h : IsPadding padding unit) :
    0 < unit := by
  cases h <;> decide

theorem twins_of_rounds {whole : Bytes} (h : Rounds b whole) (h' : Rounds b' whole) :
    b = b' ∨ PaddingTwins b b' := by
  have hround : ∀ {unit v : Nat}, 0 < unit → v < 64 →
      b64value (b64char (v / unit * unit)) = some (v / unit * unit) := by
    intro unit v _ hv
    refine b64value_b64char (Nat.lt_of_le_of_lt ?_ hv)
    exact Nat.div_mul_le_self v unit
  have hdiv : ∀ {unit v : Nat}, 0 < unit → v / unit * unit / unit = v / unit := by
    intro unit v hunit
    exact Nat.mul_div_cancel _ hunit
  cases h with
  | same =>
    cases h' with
    | same => exact Or.inl rfl
    | @cut padding unit c v front hpadding hv =>
      by_cases heq : b64char (v / unit * unit) = c
      · exact Or.inl (by rw [heq])
      · exact Or.inr ⟨front, padding, unit, _, c, _, v, hpadding, rfl, rfl, heq,
          hround hpadding.unit_pos (b64value_lt hv), hv, hdiv hpadding.unit_pos⟩
  | @cut padding unit c v front hpadding hv =>
    generalize hwhole : front ++ b64char (v / unit * unit) :: padding = text at h'
    cases h' with
    | same =>
      rw [← hwhole]
      by_cases heq : c = b64char (v / unit * unit)
      · exact Or.inl (by rw [← heq])
      · exact Or.inr ⟨front, padding, unit, c, _, v, _, hpadding, rfl, rfl, heq, hv,
          hround hpadding.unit_pos (b64value_lt hv), (hdiv hpadding.unit_pos).symm⟩
    | @cut padding' unit' c' v' front' hpadding' hv' =>
      have hchar : ∀ {unit v : Nat}, v < 64 → b64char (v / unit * unit) ≠ b64pad :=
        fun hv => b64char_ne_pad (Nat.lt_of_le_of_lt (Nat.div_mul_le_self _ _) hv)
      have hsame : padding = padding' ∧ unit = unit' := by
        have hlast := congrArg List.reverse hwhole
        cases hpadding <;> cases hpadding'
        · exact ⟨rfl, rfl⟩
        · simp at hlast
          exact absurd hlast.1 (hchar (b64value_lt hv))
        · simp at hlast
          exact absurd hlast.1.symm (hchar (b64value_lt hv'))
        · exact ⟨rfl, rfl⟩
      obtain ⟨rfl, rfl⟩ := hsame
      obtain ⟨rfl, hlast⟩ := List.append_inj' hwhole rfl
      have hvalues := congrArg b64value (List.cons.inj hlast).1
      rw [hround hpadding.unit_pos (b64value_lt hv), hround hpadding.unit_pos (b64value_lt hv'),
        Option.some.injEq] at hvalues
      have hquot := Nat.eq_of_mul_eq_mul_right hpadding.unit_pos hvalues
      by_cases heq : c = c'
      · exact Or.inl (by rw [heq])
      · exact Or.inr ⟨front, padding, unit, c, c', v, v', hpadding, rfl, rfl, heq, hv, hv', hquot⟩

theorem b64decode_padding {padding : Bytes} {unit : Nat} (h : IsPadding padding unit) :
    b64decode padding = none := by
  cases h <;> rfl

theorem b64bytes_pad_right (w x y : UInt8) : b64bytes w x y b64pad = none := by
  rw [b64bytes, b64value_pad]
  cases b64value w <;> cases b64value x <;> cases b64value y <;> rfl

theorem b64bytes_two {w c c' : UInt8} {v v' : Nat} (hv : b64value c = some v)
    (hv' : b64value c' = some v') (hquot : v / 16 = v' / 16) :
    (b64bytes w c (b64char 0) (b64char 0)).map (·.take 1) =
      (b64bytes w c' (b64char 0) (b64char 0)).map (·.take 1) := by
  have hzero : b64value (b64char 0) = some 0 := by decide
  cases hp : b64value w with
  | none => simp [b64bytes, hp]
  | some p =>
    have hbyte : ∀ v < 64, (p * 262144 + v * 4096 + 0 * 64 + 0) / 65536 = p * 4 + v / 16 := by
      intro v hv
      have := b64value_lt hp
      omega
    simp only [b64bytes, hp, hv, hv', hzero, Option.bind_eq_bind, Option.bind_some,
      Option.pure_def, Option.map_some, hbyte v (b64value_lt hv), hbyte v' (b64value_lt hv'),
      hquot, List.take_succ_cons, List.take_zero]

theorem b64bytes_one {w x c c' : UInt8} {v v' : Nat} (hv : b64value c = some v)
    (hv' : b64value c' = some v') (hquot : v / 4 = v' / 4) :
    (b64bytes w x c (b64char 0)).map (·.take 2) = (b64bytes w x c' (b64char 0)).map (·.take 2) := by
  have hzero : b64value (b64char 0) = some 0 := by decide
  have hlt := b64value_lt hv
  have hlt' := b64value_lt hv'
  cases hp : b64value w with
  | none => simp [b64bytes, hp]
  | some p =>
    cases hq : b64value x with
    | none => simp [b64bytes, hp, hq]
    | some q =>
      have hbytes : ∀ v < 64, (p * 262144 + q * 4096 + v * 64 + 0) / 65536 = p * 4 + q / 16 ∧
          (p * 262144 + q * 4096 + v * 64 + 0) / 256 % 256 = q % 16 * 16 + v / 4 := by
        intro v hv
        have hquarter : (p * 262144 + q * 4096 + v * 64 + 0) / 256 =
            p * 1024 + q * 16 + v / 4 := by omega
        exact ⟨by omega, by rw [hquarter]; omega⟩
      simp only [b64bytes, hp, hq, hv, hv', hzero, Option.bind_eq_bind, Option.bind_some,
        Option.pure_def, Option.map_some, (hbytes v hlt).1, (hbytes v hlt).2, (hbytes v' hlt').1,
        (hbytes v' hlt').2, hquot, List.take_succ_cons, List.take_zero]

theorem b64decode_last {padding : Bytes} {unit v v' : Nat} {c c' : UInt8}
    (hpadding : IsPadding padding unit) (hv : b64value c = some v) (hv' : b64value c' = some v')
    (hquot : v / unit = v' / unit) (front : Bytes) :
    b64decode (front ++ c :: padding) = b64decode (front ++ c' :: padding) := by
  have hne := b64value_ne_pad hv
  have hne' := b64value_ne_pad hv'
  match front with
  | [] => cases hpadding <;> rfl
  | [w] =>
    cases hpadding with
    | one => rfl
    | two =>
      simp only [List.singleton_append, b64decode, if_true]
      exact b64bytes_two hv hv' hquot
  | [w, x] =>
    cases hpadding with
    | one =>
      simp only [List.cons_append, List.nil_append, b64decode, if_true, if_neg hne, if_neg hne']
      exact b64bytes_one hv hv' hquot
    | two =>
      simp only [List.cons_append, List.nil_append]
      rw [b64decode_cons (by simp), b64decode_cons (by simp), b64bytes_pad_right,
        b64bytes_pad_right]
  | [w, x, y] =>
    have hnone : ∀ d : UInt8, b64decode ([w, x, y] ++ d :: padding) = none := by
      intro d
      have hrest : padding ≠ [] := by cases hpadding <;> simp
      change b64decode (w :: x :: y :: d :: padding) = none
      rw [b64decode_cons hrest, b64decode_padding hpadding]
      cases b64bytes w x y d <;> rfl
    rw [hnone, hnone]
  | w :: x :: y :: z :: front =>
    have hrest : ∀ d : UInt8, front ++ d :: padding ≠ [] := by simp
    simp only [List.cons_append]
    rw [b64decode_cons (hrest c), b64decode_cons (hrest c'),
      b64decode_last hpadding hv hv' hquot front]

theorem b64decode_twins (h : PaddingTwins b b') : b64decode b = b64decode b' := by
  obtain ⟨front, padding, unit, c, c', v, v', hpadding, rfl, rfl, -, hv, hv', hquot⟩ := h
  exact b64decode_last hpadding hv hv' hquot front

theorem b64decode_eq_iff (h : b64decode b = some raw) :
    b64decode b' = some raw ↔ b = b' ∨ PaddingTwins b b' := by
  constructor
  · intro h'
    exact twins_of_rounds (rounds_of_b64decode h) (rounds_of_b64decode h')
  · rintro (rfl | htwins)
    · exact h
    · rw [← b64decode_twins htwins, h]

theorem b64encode_eq_digits (raw : Bytes) :
    ∃ digits padding, b64encode raw = digits ++ padding ∧
      (∀ c ∈ digits, (b64value c).isSome = true) ∧ (∀ c ∈ padding, c = b64pad) ∧
      padding.length ≤ 2 ∧ (raw ≠ [] → digits ≠ []) := by
  have hchar : ∀ {n : Nat}, n < 64 → (b64value (b64char n)).isSome = true := by
    intro n hn
    rw [b64value_b64char hn]
    rfl
  have hgroup : ∀ a b c : UInt8, ∀ d ∈ b64group a b c, (b64value d).isSome = true := by
    intro a b c d hd
    have ha := a.toNat_lt
    have hb := b.toNat_lt
    have hc := c.toNat_lt
    simp only [b64group, List.mem_cons, List.not_mem_nil, or_false] at hd
    rcases hd with rfl | rfl | rfl | rfl
    · exact hchar (by omega)
    · exact hchar (Nat.mod_lt _ (by decide))
    · exact hchar (Nat.mod_lt _ (by decide))
    · exact hchar (Nat.mod_lt _ (by decide))
  fun_induction b64encode raw with
  | case1 a b c rest ih =>
    obtain ⟨digits, padding, heq, hdigits, hpadding, hlength, -⟩ := ih
    refine ⟨b64group a b c ++ digits, padding, by rw [heq, List.append_assoc], ?_, hpadding,
      hlength, fun _ => by simp [b64group]⟩
    intro d hd
    rcases List.mem_append.mp hd with hd | hd
    · exact hgroup a b c d hd
    · exact hdigits d hd
  | case2 a b =>
    exact ⟨(b64group a b 0).take 3, [b64pad], rfl,
      fun d hd => hgroup a b 0 d (List.mem_of_mem_take hd), by simp, by simp,
      fun _ => by simp [b64group]⟩
  | case3 a =>
    exact ⟨(b64group a 0 0).take 2, [b64pad, b64pad], rfl,
      fun d hd => hgroup a 0 0 d (List.mem_of_mem_take hd), by simp, by simp,
      fun _ => by simp [b64group]⟩
  | case4 => exact ⟨[], [], rfl, by simp, by simp, by simp, fun h => absurd rfl h⟩

section Groups

variable {word raw front : Bytes} {a b c : UInt8}

theorem b64decode_group (h : b64decode word = some (a :: b :: c :: raw)) :
    ∃ w x y z rest, word = w :: x :: y :: z :: rest ∧ b64bytes w x y z = some [a, b, c] ∧
      b64decode rest = some raw := by
  fun_cases b64decode word with
  | case1 => cases h
  | case2 w x =>
    rw [b64decode.eq_2, if_pos rfl, if_pos rfl] at h
    obtain ⟨bytes, hbytes, hlength⟩ := Option.map_eq_some_iff.mp h
    have hone := congrArg List.length hlength
    rw [List.length_take, List.length_cons, List.length_cons] at hone
    omega
  | case3 w x y hy =>
    rw [b64decode.eq_2, if_pos rfl, if_neg hy] at h
    obtain ⟨bytes, hbytes, hlength⟩ := Option.map_eq_some_iff.mp h
    have htwo := congrArg List.length hlength
    rw [List.length_take, List.length_cons, List.length_cons, List.length_cons] at htwo
    omega
  | case4 w x y z hz =>
    rw [b64decode.eq_2, if_neg hz] at h
    obtain ⟨i, j, k, hbytes, -⟩ := b64group_b64bytes h
    cases hbytes
    exact ⟨w, x, y, z, [], rfl, h, rfl⟩
  | case5 w x y z rest hrest =>
    rw [b64decode_cons hrest] at h
    obtain ⟨bytes, hbytes, h⟩ := Option.bind_eq_some_iff.mp h
    obtain ⟨more, hmore, h⟩ := Option.map_eq_some_iff.mp h
    obtain ⟨i, j, k, rfl, -⟩ := b64group_b64bytes hbytes
    cases h
    exact ⟨w, x, y, z, rest, rfl, hbytes, hmore⟩
  | case6 =>
    simp [b64decode] at h

theorem b64value_of_b64bytes {w x y z : UInt8} {bytes : Bytes} (h : b64bytes w x y z = some bytes) :
    ∀ c ∈ [w, x, y, z], (b64value c).isSome = true := by
  obtain ⟨p, q, r, s, hp, hq, hr, hs, -⟩ := b64bytes_eq_some h
  simp [hp, hq, hr, hs]

theorem b64decode_front {n : Nat} (h : b64decode word = some raw) (hn : 3 * n ≤ raw.length) :
    ∃ front rest, word = front ++ rest ∧ front.length = 4 * n ∧
      ∀ c ∈ front, (b64value c).isSome = true := by
  induction n generalizing word raw with
  | zero => exact ⟨[], word, rfl, rfl, fun c hc => (by cases hc)⟩
  | succ n ih =>
    obtain ⟨a, b, c, more, rfl⟩ : ∃ a b c more, raw = a :: b :: c :: more := by
      obtain _ | ⟨a, _ | ⟨b, _ | ⟨c, more⟩⟩⟩ := raw
      · simp at hn
      · simp only [List.length_cons, List.length_nil] at hn
        omega
      · simp only [List.length_cons, List.length_nil] at hn
        omega
      · exact ⟨a, b, c, more, rfl⟩
    obtain ⟨w, x, y, z, rest, rfl, hbytes, hrest⟩ := b64decode_group h
    simp only [List.length_cons] at hn
    obtain ⟨front, rest, rfl, hlength, hfront⟩ := ih hrest (by omega)
    refine ⟨[w, x, y, z] ++ front, rest, by simp, ?_, fun c hc => ?_⟩
    · rw [List.length_append, hlength]
      simp only [List.length_cons, List.length_nil]
      omega
    · rcases List.mem_append.mp hc with hc | hc
      · exact b64value_of_b64bytes hbytes c hc
      · exact hfront c hc

theorem length_of_b64decode (h : b64decode word = some raw) :
    raw.length = (word.takeWhile fun c => (b64value c).isSome).length * 3 / 4 := by
  fun_induction b64decode word generalizing raw with
  | case1 =>
    cases h
    rfl
  | case2 w x =>
    obtain ⟨bytes, hbytes, rfl⟩ := Option.map_eq_some_iff.mp h
    obtain ⟨p, q, r, s, hp, hq, -, -, rfl⟩ := b64bytes_eq_some hbytes
    simp [hp, hq, b64value_pad]
  | case3 w x y hy =>
    obtain ⟨bytes, hbytes, rfl⟩ := Option.map_eq_some_iff.mp h
    obtain ⟨p, q, r, s, hp, hq, hr, -, rfl⟩ := b64bytes_eq_some hbytes
    simp [hp, hq, hr, b64value_pad]
  | case4 w x y z hz =>
    obtain ⟨p, q, r, s, hp, hq, hr, hs, rfl⟩ := b64bytes_eq_some h
    simp [hp, hq, hr, hs]
  | case5 w x y z rest hrest ih =>
    obtain ⟨bytes, hbytes, h⟩ := Option.bind_eq_some_iff.mp h
    obtain ⟨more, hmore, h⟩ := Option.bind_eq_some_iff.mp h
    obtain rfl := Option.some.inj h
    obtain ⟨p, q, r, s, hp, hq, hr, hs, rfl⟩ := b64bytes_eq_some hbytes
    have hlength := ih hmore
    simp only [List.takeWhile_cons, hp, hq, hr, hs, Option.isSome_some, if_true, List.length_cons,
      List.length_append, List.length_nil]
    omega
  | case6 => cases h

end Groups

end SharedInfra.Python
