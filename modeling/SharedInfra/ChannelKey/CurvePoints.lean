import SharedInfra.ChannelKey.Ed25519
import SharedInfra.Curves.Edwards

/-!
# The field of the curve

`P` of `safety_channel_key.py` is prime, and `D` is not a square modulo it, so that the curve
of the public key is complete (`ed25519`).
-/

namespace SharedInfra.ChannelKey

open Edwards

theorem powMod_eq (b : Int) (e : Nat) (m : Int) : powMod b e m = b ^ e % m := by
  fun_induction powMod b e m with
  | case1 b => rw [pow_zero]
  | case2 b e hzero half hodd ih =>
    have hsquare : (b * b % m) ^ (e / 2) ≡ b ^ (2 * (e / 2)) [ZMOD m] := by
      rw [pow_mul, sq]
      exact (Int.mod_modEq _ _).pow _
    have he : b ^ e = b * b ^ (2 * (e / 2)) := by
      rw [← pow_succ']
      congr 1
      omega
    rw [show half = (b * b % m) ^ (e / 2) % m from ih, he]
    exact ((Int.mod_modEq _ _).trans hsquare).mul_left b
  | case3 b e hzero half heven ih =>
    have he : b ^ e = (b * b) ^ (e / 2) := by
      rw [← sq, ← pow_mul]
      congr 1
      omega
    rw [show half = (b * b % m) ^ (e / 2) % m from ih, he]
    exact (Int.mod_modEq _ _).pow _

theorem prime_of_powers {p : Nat} (a : Int) (factors : List Nat) (k : Nat) (hp : 1 < p)
    (hprime : ∀ q ∈ factors, q.Prime) (hdvd : factors.prod ^ k % (p - 1) = 0)
    (hone : powMod a (p - 1) p = 1) (hne : ∀ q ∈ factors, powMod a ((p - 1) / q) p ≠ 1) :
    p.Prime := by
  have hcast : ∀ e, (a : ZMod p) ^ e = 1 ↔ powMod a e p = 1 := by
    intro e
    have hsmall : (1 : Int) % p = 1 := Int.emod_eq_of_lt Int.one_nonneg (by exact_mod_cast hp)
    rw [powMod_eq, ← Int.cast_pow, ← Int.cast_one, ZMod.intCast_eq_intCast_iff', hsmall]
  refine lucas_primality p (a : ZMod p) ((hcast _).mpr hone) fun q hq hq1 => ?_
  have hqk := hq.dvd_of_dvd_pow (hq1.trans (Nat.dvd_of_mod_eq_zero hdvd))
  obtain ⟨r, hr, hqr⟩ := (Prime.dvd_prod_iff hq.prime).mp hqk
  obtain rfl := (Nat.prime_dvd_prime_iff_eq hq (hprime r hr)).mp hqr
  exact fun h => hne q hr ((hcast _).mp h)

theorem prime_fieldPrime : Nat.Prime fieldPrime := by
  have h₁ : Nat.Prime 2773320623 :=
    prime_of_powers 5 [2, 2437, 569003] 1 (by decide) (by norm_num) (by decide +kernel)
      (by decide +kernel) (by decide +kernel)
  have h₂ : Nat.Prime 72106336199 := by
    refine prime_of_powers 7 [2, 13, 2773320623] 1 (by decide) ?_ (by decide +kernel)
      (by decide +kernel) (by decide +kernel)
    simp only [List.forall_mem_cons]
    exact ⟨by norm_num, by norm_num, h₁, nofun⟩
  have h₃ : Nat.Prime 8574133 :=
    prime_of_powers 2 [2, 3, 7, 103, 991] 2 (by decide) (by norm_num) (by decide +kernel)
      (by decide +kernel) (by decide +kernel)
  have h₄ : Nat.Prime 1919519569386763 := by
    refine prime_of_powers 2 [2, 3, 7, 19, 47, 127, 8574133] 2 (by decide) ?_ (by decide +kernel)
      (by decide +kernel) (by decide +kernel)
    simp only [List.forall_mem_cons]
    exact ⟨by norm_num, by norm_num, by norm_num, by norm_num, by norm_num, by norm_num, h₃, nofun⟩
  have h₅ : Nat.Prime 75445702479781427272750846543864801 := by
    refine prime_of_powers 7 [2, 3, 5, 75707, 72106336199, 1919519569386763] 5 (by decide) ?_
      (by decide +kernel) (by decide +kernel) (by decide +kernel)
    simp only [List.forall_mem_cons]
    exact ⟨by norm_num, by norm_num, by norm_num, by norm_num, h₂, h₄, nofun⟩
  have h₆ : Nat.Prime 31757755568855353 :=
    prime_of_powers 10 [2, 3, 31, 107, 223, 4153, 430751] 3 (by decide) (by norm_num)
      (by decide +kernel) (by decide +kernel) (by decide +kernel)
  -- the greatest prime factor of P - 1
  have h₇ : Nat.Prime
      74058212732561358302231226437062788676166966415465897661863160754340907 := by
    refine prime_of_powers 2 [2, 3, 353, 57467, 132049, 1923133, 31757755568855353,
      75445702479781427272750846543864801] 1 (by decide) ?_ (by decide +kernel)
      (by decide +kernel) (by decide +kernel)
    simp only [List.forall_mem_cons]
    exact ⟨by norm_num, by norm_num, by norm_num, by norm_num, by norm_num, by norm_num, h₆, h₅,
      nofun⟩
  refine prime_of_powers 2
    [2, 3, 65147, 74058212732561358302231226437062788676166966415465897661863160754340907] 2
    (by decide +kernel) ?_ (by decide +kernel) (by decide +kernel) (by decide +kernel)
  simp only [List.forall_mem_cons]
  exact ⟨by norm_num, by norm_num, by norm_num, h₇, nofun⟩

instance : Fact (Nat.Prime fieldPrime) := ⟨prime_fieldPrime⟩

/-- The field of the coordinates. -/
abbrev K := ZMod fieldPrime

@[simp] theorem cast_red (x : Int) : ((red x : Int) : K) = x := ZMod.intCast_mod x fieldPrime

theorem cast_powMod (b : Int) (e : Nat) : ((powMod b e fieldPrime : Int) : K) = (b : K) ^ e := by
  rw [powMod_eq, ZMod.intCast_mod, Int.cast_pow]

@[simp] theorem cast_invMod (x : Int) : ((invMod x : Int) : K) = (x : K)⁻¹ := by
  rw [invMod, cast_powMod]
  by_cases hx : (x : K) = 0
  · rw [hx, inv_zero, zero_pow (by decide)]
  · refine eq_inv_of_mul_eq_one_left ?_
    rw [← pow_succ]
    exact ZMod.pow_card_sub_one_eq_one hx

theorem eq_of_cast {m n : Int} (hm : 0 ≤ m) (hm' : m < fieldPrime) (hn : 0 ≤ n)
    (hn' : n < fieldPrime) (h : (m : K) = n) : m = n := by
  have hmod := (ZMod.intCast_eq_intCast_iff' m n fieldPrime).mp h
  rwa [Int.emod_eq_of_lt hm hm', Int.emod_eq_of_lt hn hn'] at hmod

theorem two_ne_zero_field : (2 : K) ≠ 0 := by
  have hnot : ¬ fieldPrime ∣ 2 := by norm_num [fieldPrime]
  exact_mod_cast mt (ZMod.natCast_eq_zero_iff 2 fieldPrime).mp hnot

theorem neg_one_ne_one : (-1 : K) ≠ 1 :=
  fun h => two_ne_zero_field (by linear_combination -h)

theorem sqrtMinusOne_sq : ((sqrtMinusOne : Int) : K) ^ 2 = -1 := by
  have heval : (sqrtMinusOne ^ 2 + 1) % fieldPrime = 0 := by decide +kernel
  have hcast : ((sqrtMinusOne ^ 2 + 1 : Int) : K) = 0 := by
    rw [← ZMod.intCast_mod, heval, Int.cast_zero]
  rw [Int.cast_add, Int.cast_pow, Int.cast_one] at hcast
  exact eq_neg_of_add_eq_zero_left hcast

theorem curveD_nonsquare : ¬ IsSquare ((curveD : Int) : K) := by
  have heval : powMod curveD (fieldPrime / 2) fieldPrime = fieldPrime - 1 := by decide +kernel
  have hpower : ((curveD : Int) : K) ^ (fieldPrime / 2) = -1 := by
    rw [← cast_powMod, heval, Int.cast_sub, Int.cast_natCast, ZMod.natCast_self, Int.cast_one,
      zero_sub]
  have hne : ((curveD : Int) : K) ≠ 0 := by
    intro hzero
    rw [hzero, zero_pow (by norm_num [fieldPrime])] at hpower
    exact neg_ne_zero.mpr one_ne_zero hpower.symm
  rw [ZMod.euler_criterion fieldPrime hne, hpower]
  exact neg_one_ne_one

/-- The curve of the public key. -/
def ed25519 : CompleteCurve K where
  a := -1
  d := (curveD : Int)
  root := (sqrtMinusOne : Int)
  two_ne := two_ne_zero_field
  root_sq := sqrtMinusOne_sq
  root_ne := by
    intro hzero
    have hsq := sqrtMinusOne_sq
    rw [hzero, zero_pow two_ne_zero] at hsq
    exact neg_ne_zero.mpr one_ne_zero hsq.symm
  nonsquare := curveD_nonsquare

/-!
# The points of the module

A tuple of extended coordinates (`IsPoint`) stands for one point of the curve, `_point_add`
adds and `_point_mul` multiplies the points that are stood for, and `_recover_x` finds the
coordinate that a point of the curve has.
-/

section Coordinates

variable {p q r : Point} {A B R : Pt ed25519}

/-- Extended coordinates modulo `P`. -/
structure IsPoint (p : Point) : Prop where
  z_ne : ¬ (fieldPrime : Int) ∣ p.2.2.1
  product : p.2.2.2 * p.2.2.1 ≡ p.1 * p.2.1 [ZMOD fieldPrime]
  on : -p.1 ^ 2 * p.2.2.1 ^ 2 + p.2.1 ^ 2 * p.2.2.1 ^ 2 ≡
    p.2.2.1 ^ 4 + curveD * p.1 ^ 2 * p.2.1 ^ 2 [ZMOD fieldPrime]

/-- The coordinates stand for a point of the curve. -/
structure Represents (p : Point) (A : Pt ed25519) : Prop where
  z_ne : (p.2.2.1 : K) ≠ 0
  x : (p.1 : K) = A.x * p.2.2.1
  y : (p.2.1 : K) = A.y * p.2.2.1
  t : (p.2.2.2 : K) = A.x * A.y * p.2.2.1

theorem cast_eq_iff {m n : Int} : (m : K) = n ↔ m ≡ n [ZMOD fieldPrime] :=
  ZMod.intCast_eq_intCast_iff m n fieldPrime

theorem cast_ne_zero_iff {m : Int} : (m : K) ≠ 0 ↔ ¬ (fieldPrime : Int) ∣ m :=
  not_congr (ZMod.intCast_zmod_eq_zero_iff_dvd m fieldPrime)

theorem Represents.isPoint (h : Represents p A) : IsPoint p where
  z_ne := cast_ne_zero_iff.mp h.z_ne
  product := by
    rw [← cast_eq_iff]
    push_cast
    rw [h.x, h.y, h.t]
    ring
  on := by
    have hon : -1 * A.x ^ 2 + A.y ^ 2 = 1 + (curveD : K) * A.x ^ 2 * A.y ^ 2 := A.on
    rw [← cast_eq_iff]
    push_cast
    rw [h.x, h.y]
    linear_combination (p.2.2.1 : K) ^ 4 * hon

/-- The point that coordinates stand for. -/
def IsPoint.affine (h : IsPoint p) : Pt ed25519 where
  x := (p.1 : K) / p.2.2.1
  y := (p.2.1 : K) / p.2.2.1
  on := by
    have hz := cast_ne_zero_iff.mpr h.z_ne
    have hon := cast_eq_iff.mpr h.on
    push_cast at hon
    show -1 * ((p.1 : K) / p.2.2.1) ^ 2 + ((p.2.1 : K) / p.2.2.1) ^ 2 =
      1 + (curveD : K) * ((p.1 : K) / p.2.2.1) ^ 2 * ((p.2.1 : K) / p.2.2.1) ^ 2
    field_simp
    linear_combination hon

theorem IsPoint.represents (h : IsPoint p) : Represents p h.affine := by
  have hz := cast_ne_zero_iff.mpr h.z_ne
  have hproduct := cast_eq_iff.mpr h.product
  push_cast at hproduct
  refine ⟨hz, (div_mul_cancel₀ _ hz).symm, (div_mul_cancel₀ _ hz).symm, ?_⟩
  show (p.2.2.2 : K) = (p.1 : K) / p.2.2.1 * ((p.2.1 : K) / p.2.2.1) * p.2.2.1
  field_simp
  exact hproduct

theorem Represents.affine_eq (h : Represents p A) (hp : IsPoint p) : hp.affine = A := by
  ext
  · exact (div_eq_iff h.z_ne).mpr h.x
  · exact (div_eq_iff h.z_ne).mpr h.y

theorem Represents.add (hp : Represents p A) (hq : Represents q B) :
    Represents (pointAdd p q) (A + B) := by
  have hplus := plus_ne A.on B.on
  have hminus := minus_ne A.on B.on
  have hx : (A + B).x * (1 + ed25519.d * A.x * B.x * A.y * B.y) = A.x * B.y + B.x * A.y :=
    div_mul_cancel₀ _ hplus
  have hy : (A + B).y * (1 - ed25519.d * A.x * B.x * A.y * B.y) = A.y * B.y + A.x * B.x := by
    refine (div_mul_cancel₀ _ hminus).trans ?_
    show A.y * B.y - -1 * A.x * B.x = _
    ring
  have hd : ((curveD : Int) : K) = ed25519.d := rfl
  have hz : (((pointAdd p q).2.2.1 : Int) : K) =
      (2 * p.2.2.1 * q.2.2.1) ^ 2 * (1 - ed25519.d * A.x * B.x * A.y * B.y) *
        (1 + ed25519.d * A.x * B.x * A.y * B.y) := by
    simp only [pointAdd, cast_red, Int.cast_mul, Int.cast_add, Int.cast_sub, Int.cast_ofNat]
    rw [hp.t, hq.t, hd]
    ring
  have hfactor : (2 * (p.2.2.1 : K) * q.2.2.1) ^ 2 ≠ 0 :=
    pow_ne_zero 2 (mul_ne_zero (mul_ne_zero two_ne_zero_field hp.z_ne) hq.z_ne)
  refine ⟨?_, ?_, ?_, ?_⟩
  · rw [hz]
    exact mul_ne_zero (mul_ne_zero hfactor hminus) hplus
  · rw [hz]
    simp only [pointAdd, cast_red, Int.cast_mul, Int.cast_add, Int.cast_sub, Int.cast_ofNat]
    rw [hp.t, hq.t, hd, hp.x, hp.y, hq.x, hq.y]
    linear_combination (-(2 * (p.2.2.1 : K) * q.2.2.1) ^ 2 *
      (1 - ed25519.d * A.x * B.x * A.y * B.y)) * hx
  · rw [hz]
    simp only [pointAdd, cast_red, Int.cast_mul, Int.cast_add, Int.cast_sub, Int.cast_ofNat]
    rw [hp.t, hq.t, hd, hp.x, hp.y, hq.x, hq.y]
    linear_combination (-(2 * (p.2.2.1 : K) * q.2.2.1) ^ 2 *
      (1 + ed25519.d * A.x * B.x * A.y * B.y)) * hy
  · rw [hz]
    simp only [pointAdd, cast_red, Int.cast_mul, Int.cast_add, Int.cast_sub]
    rw [hp.x, hp.y, hq.x, hq.y]
    linear_combination (-(2 * (p.2.2.1 : K) * q.2.2.1) ^ 2 * (A + B).y *
      (1 - ed25519.d * A.x * B.x * A.y * B.y)) * hx -
      (2 * (p.2.2.1 : K) * q.2.2.1) ^ 2 * (A.x * B.y + B.x * A.y) * hy

theorem Represents.mulFrom (n : Nat) (hp : Represents p A) (hr : Represents r R) :
    Represents (pointMulFrom n p r) (R + n • A) := by
  fun_induction pointMulFrom n p r generalizing A R with
  | case1 p r => simpa using hr
  | case2 n p r hpos ih =>
    have hn : n • A = (n % 2) • A + (n / 2) • (A + A) := by
      conv_lhs => rw [← Nat.mod_add_div n 2, add_smul, mul_comm, mul_smul, two_smul]
    have hnext : Represents (if n % 2 = 1 then pointAdd r p else r) (R + (n % 2) • A) := by
      split_ifs with hodd
      · rw [hodd, one_smul]
        exact hr.add hp
      · rw [Nat.mod_two_ne_one.mp hodd, zero_smul, add_zero]
        exact hr
    rw [hn, ← add_assoc]
    exact ih (hp.add hp) hnext

theorem Represents.mul (n : Nat) (hp : Represents p A) : Represents (pointMul n p) (n • A) := by
  have hzero : Represents (0, 1, 1, 0) (0 : Pt ed25519) := ⟨by simp, by simp, by simp, by simp⟩
  rw [← zero_add (n • A)]
  exact hp.mulFrom n hzero

end Coordinates

end SharedInfra.ChannelKey
