import Mathlib.Algebra.Field.Basic
import Mathlib.Algebra.Group.Even
import Mathlib.Tactic.FieldSimp
import Mathlib.Tactic.LinearCombination
import Mathlib.Tactic.Ring

/-!
# Twisted Edwards curves

The points of `a x² + y² = 1 + d x² y²` over a field, where `a` is a square and `d` is
not one.  The addition has no exceptional pair of points (`denominator_ne`), and the points
are a commutative group.
-/

namespace SharedInfra.Edwards

universe u

/-- The coefficients of a curve whose addition is complete. -/
structure CompleteCurve (F : Type u) [Field F] where
  a : F
  d : F
  root : F
  two_ne : (2 : F) ≠ 0
  root_sq : root ^ 2 = a
  root_ne : root ≠ 0
  nonsquare : ¬ IsSquare d

variable {F : Type u} [Field F]

def CompleteCurve.On (C : CompleteCurve F) (x y : F) : Prop :=
  C.a * x ^ 2 + y ^ 2 = 1 + C.d * x ^ 2 * y ^ 2

section Sums

variable {C : CompleteCurve F} {x1 y1 x2 y2 x3 y3 : F}

theorem product_ne (h1 : C.On x1 y1) (h2 : C.On x2 y2) {ε : F} (hε : ε ^ 2 = 1) :
    C.d * x1 * x2 * y1 * y2 ≠ ε := by
  intro ht
  unfold CompleteCurve.On at h1 h2
  have hs := C.root_sq
  have hε0 : ε ≠ 0 := by
    rintro rfl
    simp at hε
  have hy : y1 ≠ 0 := by
    rintro rfl
    exact hε0 (by rw [← ht]; ring)
  have hxy : x2 * y2 ≠ 0 := by
    intro hzero
    exact hε0 (by linear_combination -ht + C.d * x1 * y1 * hzero)
  have hsquare : ∀ σ : F, σ ^ 2 = 1 →
      C.d * (x2 * y2) ^ 2 * (C.root * x1 + σ * ε * y1) ^ 2 = (C.root * x2 + σ * y2) ^ 2 := by
    intro σ hσ
    linear_combination (C.d * (x2 * y2) ^ 2) * h1 - h2 +
      (C.d * (x2 * y2) ^ 2 * x1 ^ 2 - x2 ^ 2) * hs +
      (C.d * (x2 * y2) ^ 2 * y1 ^ 2 * ε ^ 2 - y2 ^ 2) * hσ +
      (C.d * (x2 * y2) ^ 2 * y1 ^ 2 + 1 + 2 * C.root * σ * x2 * y2) * hε +
      (C.d * x1 * x2 * y1 * y2 + ε + 2 * C.root * σ * ε * x2 * y2) * ht
  have hzero : ∀ σ : F, σ ^ 2 = 1 → C.root * x1 + σ * ε * y1 = 0 := by
    intro σ hσ
    by_contra hne
    have hden : x2 * y2 * (C.root * x1 + σ * ε * y1) ≠ 0 := mul_ne_zero hxy hne
    refine C.nonsquare ⟨(C.root * x2 + σ * y2) / (x2 * y2 * (C.root * x1 + σ * ε * y1)), ?_⟩
    rw [← sq, div_pow, eq_div_iff (pow_ne_zero 2 hden), ← hsquare σ hσ]
    ring
  have hdouble : 2 * (ε * y1) = 0 := by
    linear_combination hzero 1 (one_pow 2) - hzero (-1) (by ring)
  exact mul_ne_zero C.two_ne (mul_ne_zero hε0 hy) hdouble

theorem plus_ne (h1 : C.On x1 y1) (h2 : C.On x2 y2) : 1 + C.d * x1 * x2 * y1 * y2 ≠ 0 :=
  fun h => product_ne h1 h2 (ε := -1) (by ring) (by linear_combination h)

theorem minus_ne (h1 : C.On x1 y1) (h2 : C.On x2 y2) : 1 - C.d * x1 * x2 * y1 * y2 ≠ 0 :=
  fun h => product_ne h1 h2 (one_pow 2) (by linear_combination -h)

theorem on_sum (h1 : C.On x1 y1) (h2 : C.On x2 y2) :
    C.On ((x1 * y2 + x2 * y1) / (1 + C.d * x1 * x2 * y1 * y2))
      ((y1 * y2 - C.a * x1 * x2) / (1 - C.d * x1 * x2 * y1 * y2)) := by
  have hplus := plus_ne h1 h2
  have hminus := minus_ne h1 h2
  unfold CompleteCurve.On at h1 h2 ⊢
  generalize C.a = a at *
  generalize C.d = d at *
  generalize hp : 1 + d * x1 * x2 * y1 * y2 = p at hplus ⊢
  generalize hq : 1 - d * x1 * x2 * y1 * y2 = q at hminus ⊢
  field_simp
  clear hplus hminus
  subst hp hq
  grind

theorem sum_quotients {n m p q : F} (hp : p ≠ 0) (hq : q ≠ 0) :
    (n / p * y3 + x3 * (m / q)) / (1 + C.d * (n / p) * x3 * (m / q) * y3) =
        (n * q * y3 + x3 * m * p) / (p * q + C.d * n * m * x3 * y3) ∧
      (m / q * y3 - C.a * (n / p) * x3) / (1 - C.d * (n / p) * x3 * (m / q) * y3) =
        (m * p * y3 - C.a * n * q * x3) / (p * q - C.d * n * m * x3 * y3) := by
  have hpq : p * q ≠ 0 := mul_ne_zero hp hq
  constructor
  · rw [← mul_div_mul_left _ _ hpq]
    congr 1 <;> field_simp
  · rw [← mul_div_mul_left _ _ hpq]
    congr 1 <;> field_simp

theorem quotient_ne {n m p q e : F} (hp : p ≠ 0) (hq : q ≠ 0)
    (h : 1 + e * (n / p) * x3 * (m / q) * y3 ≠ 0) : p * q + e * n * m * x3 * y3 ≠ 0 := by
  have hfactor : p * q + e * n * m * x3 * y3 =
      p * q * (1 + e * (n / p) * x3 * (m / q) * y3) := by field_simp
  rw [hfactor]
  exact mul_ne_zero (mul_ne_zero hp hq) h

theorem quotient_sub_ne {n m p q e : F} (hp : p ≠ 0) (hq : q ≠ 0)
    (h : 1 - e * (n / p) * x3 * (m / q) * y3 ≠ 0) : p * q - e * n * m * x3 * y3 ≠ 0 := by
  have hsum : 1 + -e * (n / p) * x3 * (m / q) * y3 ≠ 0 := by
    rwa [neg_mul, neg_mul, neg_mul, neg_mul, ← sub_eq_add_neg]
  have hne := quotient_ne hp hq hsum
  rwa [neg_mul, neg_mul, neg_mul, neg_mul, ← sub_eq_add_neg] at hne

theorem assoc_numerators (h1 : C.On x1 y1) (h2 : C.On x2 y2) (h3 : C.On x3 y3)
    {p q p' q' n m n' m' : F} (hp : 1 + C.d * x1 * x2 * y1 * y2 = p)
    (hq : 1 - C.d * x1 * x2 * y1 * y2 = q) (hp' : 1 + C.d * x2 * x3 * y2 * y3 = p')
    (hq' : 1 - C.d * x2 * x3 * y2 * y3 = q') (hn : x1 * y2 + x2 * y1 = n)
    (hm : y1 * y2 - C.a * x1 * x2 = m) (hn' : x2 * y3 + x3 * y2 = n')
    (hm' : y2 * y3 - C.a * x2 * x3 = m') :
    (n * q * y3 + x3 * m * p) * (p' * q' + C.d * n' * m' * x1 * y1) =
        (n' * q' * y1 + x1 * m' * p') * (p * q + C.d * n * m * x3 * y3) ∧
      (m * p * y3 - C.a * n * q * x3) * (p' * q' - C.d * n' * m' * x1 * y1) =
        (m' * p' * y1 - C.a * n' * q' * x1) * (p * q - C.d * n * m * x3 * y3) := by
  unfold CompleteCurve.On at h1 h2 h3
  subst hp hq hp' hq' hn hm hn' hm'
  generalize C.a = a at *
  generalize C.d = d at *
  constructor
  · grind
  · grind

end Sums

/-- A point of the curve. -/
@[ext]
structure Pt (C : CompleteCurve F) where
  x : F
  y : F
  on : C.On x y

namespace Pt

variable {C : CompleteCurve F}

instance : Zero (Pt C) := ⟨⟨0, 1, by simp [CompleteCurve.On]⟩⟩

instance : Neg (Pt C) := ⟨fun p => ⟨-p.x, p.y, by simpa [CompleteCurve.On] using p.on⟩⟩

instance : Add (Pt C) := ⟨fun p q => ⟨_, _, on_sum p.on q.on⟩⟩

@[simp] theorem zero_x : (0 : Pt C).x = 0 := rfl

@[simp] theorem zero_y : (0 : Pt C).y = 1 := rfl

@[simp] theorem neg_x (p : Pt C) : (-p).x = -p.x := rfl

@[simp] theorem neg_y (p : Pt C) : (-p).y = p.y := rfl

theorem add_x (p q : Pt C) :
    (p + q).x = (p.x * q.y + q.x * p.y) / (1 + C.d * p.x * q.x * p.y * q.y) := rfl

theorem add_y (p q : Pt C) :
    (p + q).y = (p.y * q.y - C.a * p.x * q.x) / (1 - C.d * p.x * q.x * p.y * q.y) := rfl

protected theorem add_comm (p q : Pt C) : p + q = q + p := by
  ext
  · rw [add_x, add_x]
    congr 1 <;> ring
  · rw [add_y, add_y]
    congr 1 <;> ring

protected theorem zero_add (p : Pt C) : 0 + p = p := by
  ext
  · simp [add_x]
  · simp [add_y]

protected theorem neg_add_cancel (p : Pt C) : -p + p = 0 := by
  ext
  · rw [add_x, neg_x, neg_y, zero_x, div_eq_zero_iff]
    exact Or.inl (by ring)
  · rw [add_y, neg_x, neg_y, zero_y, div_eq_one_iff_eq]
    · have hon := p.on
      unfold CompleteCurve.On at hon
      linear_combination hon
    · exact minus_ne (-p).on p.on

theorem add_add (p q r : Pt C) : p + q + r = q + r + p := by
  obtain ⟨hx, hy⟩ := assoc_numerators p.on q.on r.on rfl rfl rfl rfl rfl rfl rfl rfl
  have hplus := plus_ne p.on q.on
  have hminus := minus_ne p.on q.on
  have hplus' := plus_ne q.on r.on
  have hminus' := minus_ne q.on r.on
  ext
  · rw [add_x (p + q), add_x (q + r), add_x p q, add_y p q, add_x q r, add_y q r,
      (sum_quotients hplus hminus).1, (sum_quotients hplus' hminus').1, div_eq_div_iff]
    · exact hx
    · exact quotient_ne hplus hminus (plus_ne (p + q).on r.on)
    · exact quotient_ne hplus' hminus' (plus_ne (q + r).on p.on)
  · rw [add_y (p + q), add_y (q + r), add_x p q, add_y p q, add_x q r, add_y q r,
      (sum_quotients hplus hminus).2, (sum_quotients hplus' hminus').2, div_eq_div_iff]
    · exact hy
    · exact quotient_sub_ne hplus hminus (minus_ne (p + q).on r.on)
    · exact quotient_sub_ne hplus' hminus' (minus_ne (q + r).on p.on)

instance : AddCommGroup (Pt C) where
  add_assoc p q r := by rw [add_add, Pt.add_comm]
  zero_add := Pt.zero_add
  add_zero p := by rw [Pt.add_comm, Pt.zero_add]
  neg_add_cancel := Pt.neg_add_cancel
  add_comm := Pt.add_comm
  nsmul := nsmulRec
  zsmul := zsmulRec

end Pt

end SharedInfra.Edwards
