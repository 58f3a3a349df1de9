import SharedInfra.ChannelKey.CurvePoints

/-!
# The published key

`_recover_x`, `_compress` and `derive_public` against the points of the curve.  The key is
the one that RFC 8032, section 5.1.5, derives (`rfcPublicKey`).
-/

namespace SharedInfra.ChannelKey

open Python Edwards

section Recovery

variable {x x' y : Int}

theorem denominator_ne (y : K) : ed25519.d * y ^ 2 + 1 ≠ 0 := by
  intro hzero
  have hy : y ≠ 0 := by
    rintro rfl
    simp at hzero
  refine ed25519.nonsquare ⟨ed25519.root / y, ?_⟩
  rw [← sq, div_pow, ed25519.root_sq, eq_div_iff (pow_ne_zero 2 hy)]
  exact eq_neg_of_add_eq_zero_left hzero

theorem on_iff {x y : K} :
    ed25519.On x y ↔ x ^ 2 = (y ^ 2 - 1) * (ed25519.d * y ^ 2 + 1)⁻¹ := by
  rw [eq_mul_inv_iff_mul_eq₀ (denominator_ne y)]
  show -1 * x ^ 2 + y ^ 2 = _ ↔ _
  constructor
  · intro h
    linear_combination -h
  · intro h
    linear_combination -h

theorem eq_of_sq_eq (hx : 0 ≤ x) (hx' : x < fieldPrime) (hy : 0 ≤ x') (hy' : x' < fieldPrime)
    (hsq : (x : K) ^ 2 = (x' : K) ^ 2) (hbit : x % 2 = x' % 2) : x = x' := by
  rcases sq_eq_sq_iff_eq_or_eq_neg.mp hsq with h | h
  · exact eq_of_cast hx hx' hy hy' h
  · rcases hy.eq_or_lt with rfl | hpos
    · exact eq_of_cast hx hx' hy hy' (by simpa using h)
    · have hneg : (x : K) = ((fieldPrime - x' : Int) : K) := by
        rw [h, Int.cast_sub, Int.cast_natCast, ZMod.natCast_self, zero_sub]
      have heq := eq_of_cast hx hx' (by omega) (by omega) hneg
      have hodd : (fieldPrime : Int) % 2 = 1 := by norm_num [fieldPrime]
      omega

theorem root_of_square {w : K} (hw : w ≠ 0) (hsquare : IsSquare w) :
    (w ^ ((fieldPrime + 3) / 8)) ^ 2 = w ∨
      (w ^ ((fieldPrime + 3) / 8) * (sqrtMinusOne : Int)) ^ 2 = w := by
  have hhalf : w ^ (fieldPrime / 2) = 1 := (ZMod.euler_criterion fieldPrime hw).mp hsquare
  have hquarter : (w ^ ((fieldPrime - 1) / 4)) ^ 2 = 1 := by
    rw [← pow_mul, ← hhalf]
    congr 1
  have hcandidate : (w ^ ((fieldPrime + 3) / 8)) ^ 2 = w * w ^ ((fieldPrime - 1) / 4) := by
    rw [← pow_mul, ← pow_succ']
    congr 1
  rcases mul_self_eq_one_iff.mp ((sq _).symm.trans hquarter) with h | h
  · rw [hcandidate, h, mul_one]
    exact Or.inl rfl
  · rw [mul_pow, hcandidate, h, sqrtMinusOne_sq]
    exact Or.inr (by ring)

/-- The root `_recover_x` comes to before it looks at the low bit. -/
def candidateRoot (x2 : Int) : Int :=
  let x := powMod x2 ((fieldPrime + 3) / 8) fieldPrime
  if red (x * x - x2) ≠ 0 then red (x * sqrtMinusOne) else x

theorem red_bounds (n : Int) : 0 ≤ red n ∧ red n < fieldPrime :=
  ⟨Int.emod_nonneg _ (by norm_num [fieldPrime]), Int.emod_lt_of_pos _ (by norm_num [fieldPrime])⟩

theorem candidateRoot_bounds (x2 : Int) :
    0 ≤ candidateRoot x2 ∧ candidateRoot x2 < fieldPrime := by
  unfold candidateRoot
  dsimp only
  split_ifs
  · exact red_bounds _
  · rw [powMod_eq]
    exact red_bounds _

theorem red_eq_zero_iff {n : Int} : red n = 0 ↔ (n : K) = 0 :=
  (ZMod.intCast_zmod_eq_zero_iff_dvd n fieldPrime).trans Int.dvd_iff_emod_eq_zero |>.symm

theorem red_square_iff {n x2 : Int} : red (n * n - x2) = 0 ↔ (n : K) ^ 2 = x2 := by
  rw [red_eq_zero_iff, Int.cast_sub, Int.cast_mul, ← sq, sub_eq_zero]

theorem candidateRoot_sq {x2 : Int} (hne : (x2 : K) ≠ 0) (hsquare : IsSquare (x2 : K)) :
    (candidateRoot x2 : K) ^ 2 = x2 := by
  unfold candidateRoot
  dsimp only
  split_ifs with h
  · rw [Ne, red_square_iff, cast_powMod] at h
    rw [cast_red, Int.cast_mul, cast_powMod]
    exact (root_of_square hne hsquare).resolve_left h
  · exact red_square_iff.mp (not_not.mp h)

/-- The square whose root `_recover_x` looks for. -/
def squareOf (y : Int) : Int := red ((y * y - 1) * invMod (curveD * y * y + 1))

theorem cast_squareOf (y : Int) :
    (squareOf y : K) = ((y : K) ^ 2 - 1) * (ed25519.d * (y : K) ^ 2 + 1)⁻¹ := by
  simp only [squareOf, cast_red, Int.cast_mul, cast_invMod, Int.cast_sub, Int.cast_add,
    Int.cast_one]
  rw [mul_assoc _ (y : K), sq]
  rfl

theorem cast_squareOf_ne_zero (h : squareOf y ≠ 0) : (squareOf y : K) ≠ 0 := fun hzero =>
  h (eq_of_cast (red_bounds _).1 (red_bounds _).2 (Int.le_refl 0) (by norm_num [fieldPrime])
    (hzero.trans Int.cast_zero.symm))

theorem recoverX_eq (y s : Int) : recoverX y s = if y ≥ fieldPrime then none
    else if squareOf y = 0 then if s ≠ 0 then none else some 0
    else if red (candidateRoot (squareOf y) * candidateRoot (squareOf y) - squareOf y) ≠ 0 then none
    else some (if candidateRoot (squareOf y) % 2 ≠ s then fieldPrime - candidateRoot (squareOf y)
      else candidateRoot (squareOf y)) := rfl

theorem on_of_recoverX {s : Int} (hs : s = 0 ∨ s = 1) (h : recoverX y s = some x) :
    0 ≤ x ∧ x < fieldPrime ∧ x % 2 = s ∧ ed25519.On x y := by
  have hodd : (fieldPrime : Int) % 2 = 1 := by norm_num [fieldPrime]
  rw [on_iff, ← cast_squareOf]
  rw [recoverX_eq] at h
  obtain ⟨hpos, hlt⟩ := candidateRoot_bounds (squareOf y)
  split_ifs at h with _ hzero _ hroot hbit
  · obtain rfl := Option.some.inj h
    exact ⟨Int.le_refl 0, by norm_num [fieldPrime], by omega, by simp [hzero]⟩
  · obtain rfl := Option.some.inj h
    have hsq := red_square_iff.mp (not_not.mp hroot)
    have hne : candidateRoot (squareOf y) ≠ 0 := by
      intro hc
      rw [hc, Int.cast_zero, zero_pow two_ne_zero] at hsq
      exact cast_squareOf_ne_zero hzero hsq.symm
    refine ⟨by omega, by omega, by omega, ?_⟩
    rw [Int.cast_sub, Int.cast_natCast, ZMod.natCast_self, zero_sub, neg_sq, hsq]
  · obtain rfl := Option.some.inj h
    exact ⟨hpos, hlt, not_not.mp hbit, red_square_iff.mp (not_not.mp hroot)⟩

theorem recoverX_ne_none {s : Int} (hy : y < fieldPrime) (hx : 0 ≤ x) (hx' : x < fieldPrime)
    (hbit : x % 2 = s) (hon : ed25519.On x y) : recoverX y s ≠ none := by
  have hcast : (squareOf y : K) = (x : K) ^ 2 :=
    (cast_squareOf y).trans (on_iff.mp hon).symm
  rw [recoverX_eq, if_neg (by omega)]
  by_cases hzero : squareOf y = 0
  · have hxzero : x = 0 := by
      rw [hzero, Int.cast_zero] at hcast
      exact eq_of_cast hx hx' (Int.le_refl 0) (by omega)
        ((pow_eq_zero_iff two_ne_zero).mp hcast.symm |>.trans Int.cast_zero.symm)
    rw [if_pos hzero, if_neg (by omega)]
    exact Option.some_ne_none 0
  · have hroot := candidateRoot_sq (cast_squareOf_ne_zero hzero) ⟨x, hcast.trans (sq (x : K))⟩
    rw [if_neg hzero, if_neg (not_not.mpr (red_square_iff.mpr hroot))]
    exact Option.some_ne_none _

theorem recoverX_eq_some_iff {s : Int} (hy : y < fieldPrime) (hs : s = 0 ∨ s = 1) :
    recoverX y s = some x ↔ 0 ≤ x ∧ x < fieldPrime ∧ x % 2 = s ∧ ed25519.On x y := by
  refine ⟨on_of_recoverX hs, fun ⟨hx, hx', hbit, hon⟩ => ?_⟩
  obtain ⟨found, hfound⟩ := Option.ne_none_iff_exists'.mp (recoverX_ne_none hy hx hx' hbit hon)
  obtain ⟨hpos, hlt, hbit', hon'⟩ := on_of_recoverX hs hfound
  have hsq := (on_iff.mp hon).trans (on_iff.mp hon').symm
  rw [hfound, eq_of_sq_eq hx hx' hpos hlt hsq (hbit.trans hbit'.symm)]

end Recovery

section Encoding

/-- The encoding of a point: `y` in 32 octets, and the low bit of `x` on top of the last one. -/
def encoding (A : Pt ed25519) : Bytes :=
  (toLittle 32 A.y.val).modify 31 (· ||| UInt8.ofNat (A.x.val % 2) <<< 7)

theorem octet_facts : (∀ n < 2 ^ 7, ∀ bit < 2, toLittle 1 (n + bit * 2 ^ 7) =
      (toLittle 1 n).modify 0 (· ||| UInt8.ofNat bit <<< 7)) ∧
    ∀ n < 256, n &&& 0xf8 = n / 8 * 8 ∧ n &&& 0x7f ||| 0x40 = n % 64 + 64 := by
  decide +kernel

theorem toLittle_top {k n bit : Nat} (hn : n < 2 ^ (8 * k + 7)) (hbit : bit < 2) :
    toLittle (k + 1) (n + bit * 2 ^ (8 * k + 7)) =
      (toLittle (k + 1) n).modify k (· ||| UInt8.ofNat bit <<< 7) := by
  induction k generalizing n with
  | zero => exact octet_facts.1 n hn bit hbit
  | succ k ih =>
    have hpow : 2 ^ (8 * (k + 1) + 7) = 256 * 2 ^ (8 * k + 7) := by
      rw [show 8 * (k + 1) + 7 = 8 + (8 * k + 7) by omega, pow_add]
      norm_num
    rw [hpow] at hn ⊢
    have hmod : (n + bit * (256 * 2 ^ (8 * k + 7))) % 256 = n % 256 := by
      rw [Nat.mul_left_comm, Nat.add_mul_mod_self_left]
    have hdiv : (n + bit * (256 * 2 ^ (8 * k + 7))) / 256 = n / 256 + bit * 2 ^ (8 * k + 7) := by
      rw [Nat.mul_left_comm, Nat.add_mul_div_left _ _ (by decide)]
    rw [toLittle, hmod, hdiv, ih (by omega)]
    rfl

theorem fromLittle_toLittle (k n : Nat) : fromLittle (toLittle k n) = n % 256 ^ k := by
  induction k generalizing n with
  | zero => rw [toLittle, fromLittle, pow_zero, Nat.mod_one]
  | succ k ih =>
    have hbyte : (UInt8.ofNat (n % 256)).toNat = n % 256 := Nat.mod_mod n 256
    rw [toLittle, fromLittle, ih, hbyte, pow_succ', Nat.mod_mul]

variable {p q : Point} {A B : Pt ed25519}

theorem val_red (n : Int) : (red n).toNat = (n : K).val := by
  rw [red, ← ZMod.val_intCast, Int.toNat_natCast]

theorem y_lt (A : Pt ed25519) : A.y.val < 2 ^ 255 :=
  Nat.lt_trans (ZMod.val_lt A.y) (by norm_num [fieldPrime])

theorem encoding_eq (A : Pt ed25519) :
    encoding A = toLittle 32 (A.y.val + A.x.val % 2 * 2 ^ 255) := by
  have hlt : A.y.val < 2 ^ (8 * 31 + 7) := y_lt A
  have hbit : A.x.val % 2 < 2 := Nat.mod_lt _ (by decide)
  rw [encoding, ← toLittle_top hlt hbit]

theorem Represents.compress (h : Represents p A) : compress p = encoding A := by
  have hx : (red (p.1 * invMod p.2.2.1)).toNat = A.x.val := by
    rw [val_red, Int.cast_mul, cast_invMod, h.x, mul_inv_cancel_right₀ h.z_ne]
  have hy : (red (p.2.1 * invMod p.2.2.1)).toNat = A.y.val := by
    rw [val_red, Int.cast_mul, cast_invMod, h.y, mul_inv_cancel_right₀ h.z_ne]
  have htop : A.y.val ||| ((A.x.val &&& 1) <<< 255) = A.y.val + A.x.val % 2 * 2 ^ 255 := by
    rw [Nat.and_one_is_mod, Nat.or_comm, ← Nat.shiftLeft_add_eq_or_of_lt (y_lt A),
      Nat.shiftLeft_eq, Nat.add_comm]
  show toLittle 32 ((red (p.2.1 * invMod p.2.2.1)).toNat |||
    (((red (p.1 * invMod p.2.2.1)).toNat &&& 1) <<< 255)) = encoding A
  rw [hx, hy, htop, encoding_eq]

theorem encoding_inj (h : encoding A = encoding B) : A = B := by
  have hnumber : ∀ A : Pt ed25519,
      fromLittle (encoding A) = A.y.val + A.x.val % 2 * 2 ^ 255 := by
    intro A
    have hlt := y_lt A
    have hbit : A.x.val % 2 < 2 := Nat.mod_lt _ (by decide)
    rw [encoding_eq, fromLittle_toLittle, Nat.mod_eq_of_lt (by omega)]
  have heq := (hnumber A).symm.trans ((congrArg fromLittle h).trans (hnumber B))
  have hA := y_lt A
  have hB := y_lt B
  have hy : A.y = B.y := ZMod.val_injective _ (by omega)
  have hxbit : A.x.val % 2 = B.x.val % 2 := by omega
  have hsq : A.x ^ 2 = B.x ^ 2 := (on_iff.mp A.on).trans (hy ▸ (on_iff.mp B.on).symm)
  have hval : ∀ x : K, (((x.val : Nat) : Int) : K) = x := by simp
  have hx : (A.x.val : Int) = B.x.val :=
    eq_of_sq_eq (Int.natCast_nonneg _) (by exact_mod_cast ZMod.val_lt A.x)
      (Int.natCast_nonneg _) (by exact_mod_cast ZMod.val_lt B.x) (by rw [hval, hval, hsq])
      (by exact_mod_cast hxbit)
  exact Pt.ext (ZMod.val_injective _ (by exact_mod_cast hx)) hy

end Encoding

/-- The 32 octets of the hash, with the bits set and cleared that a scalar has fixed. -/
def prune (octets : Bytes) : Bytes :=
  (octets.modify 0 (· &&& 0xf8)).modify 31 fun octet => octet &&& 0x7f ||| 0x40

def baseX : Nat := 15112221349535400772501151409588531511454012693041857206046113283949847762202

def baseY : Nat := 46316835694926478169428394003475163141307993866256225615783033603165251855960

theorem base_values : red (-1 * (baseX : Int) ^ 2 + baseY ^ 2 -
    (1 + curveD * baseX ^ 2 * baseY ^ 2)) = 0 ∧ red (4 * invMod 5) = baseY := by
  decide +kernel

theorem on_base : ed25519.On (baseX : Int) (baseY : Int) := by
  have hcast := red_eq_zero_iff.mp base_values.1
  push_cast at hcast
  exact sub_eq_zero.mp hcast

/-- The base point of RFC 8032. -/
def base : Pt ed25519 := ⟨(baseX : Int), (baseY : Int), on_base⟩

theorem basePoint_eq : basePoint = ((baseX : Int), (baseY : Int), 1, red (baseX * baseY)) := by
  have hx : recoverX baseY 0 = some (baseX : Int) :=
    (recoverX_eq_some_iff (by norm_num [baseY, fieldPrime]) (Or.inl rfl)).mpr
      ⟨Int.natCast_nonneg _, by norm_num [baseX, fieldPrime], by norm_num [baseX], on_base⟩
  rw [basePoint, base_values.2, hx]
  rfl

theorem represents_base : Represents basePoint base := by
  rw [basePoint_eq]
  refine ⟨by simp, by simp [base], by simp [base], ?_⟩
  simp [base]

/-- The public key of a seed as RFC 8032 derives it, in its four steps. -/
noncomputable def rfcPublicKey (sha512 : Bytes → Bytes) (seed : Bytes) : Bytes :=
  encoding (fromLittle (prune ((sha512 seed).take 32)) • base)

theorem land_mask (n : Nat) : n &&& ((1 <<< 254) - 8) = n / 8 % 2 ^ 251 * 8 := by
  have hmask : (1 <<< 254) - 8 = (2 ^ 251 - 1) <<< 3 := by norm_num [Nat.shiftLeft_eq]
  have hshift : n / 8 % 2 ^ 251 * 8 = ((n >>> 3) % 2 ^ 251) <<< 3 := by
    rw [Nat.shiftLeft_eq, Nat.shiftRight_eq_div_pow]
  rw [hmask, hshift]
  refine Nat.eq_of_testBit_eq fun i => ?_
  rw [Nat.testBit_and, Nat.testBit_shiftLeft, Nat.testBit_shiftLeft, Nat.testBit_two_pow_sub_one,
    Nat.testBit_mod_two_pow, Nat.testBit_shiftRight]
  by_cases hi : i ≥ 3
  · rw [show 3 + (i - 3) = i by omega]
    simp [hi, Bool.and_comm]
  · simp [hi]

theorem fromLittle_append (xs ys : Bytes) :
    fromLittle (xs ++ ys) = fromLittle xs + 256 ^ xs.length * fromLittle ys := by
  induction xs with
  | nil => simp [fromLittle]
  | cons b xs ih =>
    rw [List.cons_append, fromLittle, ih, fromLittle, List.length_cons, pow_succ']
    ring

theorem fromLittle_lt (xs : Bytes) : fromLittle xs < 256 ^ xs.length := by
  induction xs with
  | nil => exact Nat.one_pos
  | cons b xs ih =>
    have hb := b.toNat_lt
    rw [fromLittle, List.length_cons, pow_succ']
    omega

theorem octet_masks (b : UInt8) : (b &&& 0xf8).toNat = b.toNat / 8 * 8 ∧
    (b &&& 0x7f ||| 0x40).toNat = b.toNat % 64 + 64 := by
  rw [UInt8.toNat_or, UInt8.toNat_and, UInt8.toNat_and]
  exact octet_facts.2 b.toNat b.toNat_lt

theorem modify_last (f : UInt8 → UInt8) (mid : Bytes) (last : UInt8) :
    (mid ++ [last]).modify mid.length f = mid ++ [f last] := by
  induction mid with
  | nil => rfl
  | cons b mid ih => exact congrArg (b :: ·) ih

theorem fromLittle_prune {octets : Bytes} (h : octets.length = 32) :
    (fromLittle octets &&& ((1 <<< 254) - 8)) ||| (1 <<< 254) = fromLittle (prune octets) := by
  obtain ⟨first, rest, rfl⟩ := List.exists_cons_of_length_eq_add_one h
  have hrest : rest ≠ [] := by
    rintro rfl
    cases h
  obtain ⟨mid, last, rfl⟩ : ∃ mid last, rest = mid ++ [last] :=
    ⟨_, _, (List.dropLast_append_getLast hrest).symm⟩
  have hmid : mid.length = 30 := by simpa using h
  have hprune : prune (first :: (mid ++ [last])) =
      (first &&& 0xf8) :: (mid ++ [last &&& 0x7f ||| 0x40]) := by
    have hstep := modify_last (fun octet => octet &&& 0x7f ||| 0x40) mid last
    rw [hmid] at hstep
    exact congrArg ((first &&& 0xf8) :: ·) hstep
  have hfirst := first.toNat_lt
  have hlt := fromLittle_lt mid
  have hbelow : ∀ n, n / 8 % 2 ^ 251 * 8 < 2 ^ 254 := by omega
  rw [hprune, land_mask, Nat.or_comm, ← Nat.shiftLeft_add_eq_or_of_lt (hbelow _), Nat.shiftLeft_eq]
  simp only [fromLittle, fromLittle_append, hmid, (octet_masks first).1, (octet_masks last).2]
    at hlt ⊢
  omega

theorem derivePublic_eq {sha512 : Bytes → Bytes} {seed : Bytes}
    (h : (sha512 seed).length = 64) : derivePublic sha512 seed = rfcPublicKey sha512 seed := by
  have hlength : ((sha512 seed).take 32).length = 32 := by
    rw [List.length_take, h]
    rfl
  rw [derivePublic, fromLittle_prune hlength]
  exact (represents_base.mul _).compress

/-- `_point_add`, `_point_mul`, `_compress`, `_recover_x` and `derive_public` on the curve. -/
theorem published_key :
    (∀ {p q : Point} (hp : IsPoint p) (hq : IsPoint q),
      ∃ h : IsPoint (pointAdd p q), h.affine = hp.affine + hq.affine) ∧
    (∀ (n : Nat) {p : Point} (hp : IsPoint p),
      ∃ h : IsPoint (pointMul n p), h.affine = n • hp.affine) ∧
    (∀ {p q : Point} (hp : IsPoint p) (hq : IsPoint q),
      compress p = compress q ↔ hp.affine = hq.affine) ∧
    (∀ {y s x : Int}, y < fieldPrime → s = 0 ∨ s = 1 →
      (recoverX y s = some x ↔ 0 ≤ x ∧ x < fieldPrime ∧ x % 2 = s ∧ ed25519.On x y)) ∧
    ∀ {sha512 : Bytes → Bytes} {seed : Bytes}, seed.length = 32 → (sha512 seed).length = 64 →
      derivePublic sha512 seed = rfcPublicKey sha512 seed := by
  refine ⟨fun hp hq => ?_, fun n p hp => ?_, fun hp hq => ?_, recoverX_eq_some_iff,
    fun _ => derivePublic_eq⟩
  · have hsum := hp.represents.add hq.represents
    exact ⟨hsum.isPoint, hsum.affine_eq _⟩
  · have hmul := hp.represents.mul n
    exact ⟨hmul.isPoint, hmul.affine_eq _⟩
  · rw [hp.represents.compress, hq.represents.compress]
    exact ⟨encoding_inj, congrArg encoding⟩

theorem published_key_vector :
    (∃ h : IsPoint (pointMul 3 basePoint), h.affine = 3 • represents_base.isPoint.affine) ∧
      (∃ h : IsPoint (pointAdd basePoint basePoint), h.affine =
        represents_base.isPoint.affine + represents_base.isPoint.affine) ∧
      (compress basePoint = compress basePoint ↔
        represents_base.isPoint.affine = represents_base.isPoint.affine) ∧
      (recoverX baseY 0 = some (baseX : Int) ↔ (0 : Int) ≤ baseX ∧ (baseX : Int) < fieldPrime ∧
        (baseX : Int) % 2 = 0 ∧ ed25519.On (baseX : Int) (baseY : Int)) ∧
      ∃ seed hash : Bytes, seed.take 4 = [157, 97, 177, 157] ∧
        derivePublic (fun _ => hash) seed = rfcPublicKey (fun _ => hash) seed :=
  ⟨published_key.2.1 3 represents_base.isPoint,
    published_key.1 represents_base.isPoint represents_base.isPoint,
    published_key.2.2.1 represents_base.isPoint represents_base.isPoint,
    published_key.2.2.2.1 (by decide +kernel) (Or.inl rfl),
    [157, 97, 177, 157, 239, 253, 90, 96, 186, 132, 74, 244, 146, 236, 44, 196, 68, 73, 197, 105,
      123, 50, 105, 25, 112, 59, 172, 3, 28, 174, 127, 96],
    [53, 124, 131, 134, 79, 40, 51, 203, 66, 122, 46, 241, 192, 10, 1, 60, 253, 255, 39, 104, 217,
      128, 192, 163, 165, 32, 240, 6, 144, 77, 233, 15, 155, 79, 10, 254, 40, 11, 116, 106, 119,
      134, 132, 231, 84, 66, 80, 32, 87, 183, 71, 58, 3, 240, 143, 150, 245, 163, 142, 146, 135,
      224, 31, 143], by decide, published_key.2.2.2.2 (by decide) (by decide)⟩

end SharedInfra.ChannelKey
