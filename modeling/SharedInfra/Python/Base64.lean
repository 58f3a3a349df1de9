import Mathlib

/-!
# Base64

`base64.b64encode` and `base64.b64decode(validate=True)` over bytes, with the
standard alphabet and padding.  What was encoded is decoded (`b64decode_b64encode`),
so no two byte strings have one text.
-/

namespace SharedInfra.Python

abbrev Bytes := List UInt8

def b64char (n : Nat) : UInt8 :=
  UInt8.ofNat (if n < 26 then n + 65 else if n < 52 then n + 71 else if n < 62 then n - 4
    else if n = 62 then 43 else 47)

/-- The six bits of a character. -/
def b64value (c : UInt8) : Option Nat :=
  let n := c.toNat
  if 65 ≤ n ∧ n ≤ 90 then some (n - 65)
  else if 97 ≤ n ∧ n ≤ 122 then some (n - 71)
  else if 48 ≤ n ∧ n ≤ 57 then some (n + 4)
  else if n = 43 then some 62
  else if n = 47 then some 63
  else none

/-- `=`. -/
def b64pad : UInt8 := 61

/-- The four characters of three bytes. -/
def b64group (a b c : UInt8) : Bytes :=
  let n := a.toNat * 65536 + b.toNat * 256 + c.toNat
  [b64char (n / 262144), b64char (n / 4096 % 64), b64char (n / 64 % 64), b64char (n % 64)]

/-- `base64.b64encode`. -/
def b64encode : Bytes → Bytes
  | a :: b :: c :: rest => b64group a b c ++ b64encode rest
  | [a, b] => (b64group a b 0).take 3 ++ [b64pad]
  | [a] => (b64group a 0 0).take 2 ++ [b64pad, b64pad]
  | [] => []

/-- The three bytes of four characters. -/
def b64bytes (w x y z : UInt8) : Option Bytes := do
  let n := (← b64value w) * 262144 + (← b64value x) * 4096 + (← b64value y) * 64 + (← b64value z)
  pure [UInt8.ofNat (n / 65536), UInt8.ofNat (n / 256 % 256), UInt8.ofNat (n % 256)]

/-- `base64.b64decode(data, validate=True)`; padding may end the text only. -/
def b64decode : Bytes → Option Bytes
  | [] => some []
  | [w, x, y, z] =>
    if z = b64pad then
      if y = b64pad then (b64bytes w x (b64char 0) (b64char 0)).map (·.take 1)
      else (b64bytes w x y (b64char 0)).map (·.take 2)
    else b64bytes w x y z
  | w :: x :: y :: z :: rest => do
    let bytes ← b64bytes w x y z
    let more ← b64decode rest
    pure (bytes ++ more)
  | _ => none

theorem b64value_b64char {n : Nat} (h : n < 64) : b64value (b64char n) = some n := by
  revert n
  decide

theorem b64char_ne_pad {n : Nat} (h : n < 64) : b64char n ≠ b64pad := by
  revert n
  decide

theorem b64bytes_digits {n : Nat} (h : n < 16777216) :
    b64bytes (b64char (n / 262144)) (b64char (n / 4096 % 64)) (b64char (n / 64 % 64))
        (b64char (n % 64)) =
      some [UInt8.ofNat (n / 65536), UInt8.ofNat (n / 256 % 256), UInt8.ofNat (n % 256)] := by
  have hjoin : n / 262144 * 262144 + n / 4096 % 64 * 4096 + n / 64 % 64 * 64 + n % 64 = n := by
    omega
  have h1 : n / 262144 < 64 := by omega
  have h2 : n / 4096 % 64 < 64 := by omega
  have h3 : n / 64 % 64 < 64 := by omega
  have h4 : n % 64 < 64 := by omega
  simp only [b64bytes, b64value_b64char h1, b64value_b64char h2, b64value_b64char h3,
    b64value_b64char h4, Option.bind_eq_bind, Option.bind_some, hjoin]
  rfl

theorem b64bytes_b64group (a b c : UInt8) {w x y z : UInt8} (h : b64group a b c = [w, x, y, z]) :
    b64bytes w x y z = some [a, b, c] := by
  have ha := a.toNat_lt
  have hb := b.toNat_lt
  have hc := c.toNat_lt
  rw [b64group] at h
  simp only [List.cons.injEq, and_true] at h
  obtain ⟨rfl, rfl, rfl, rfl⟩ := h
  generalize hn : a.toNat * 65536 + b.toNat * 256 + c.toNat = n
  have h1 : n / 65536 = a.toNat := by omega
  have h2 : n / 256 % 256 = b.toNat := by omega
  have h3 : n % 256 = c.toNat := by omega
  rw [b64bytes_digits (by omega), h1, h2, h3]
  simp

theorem exists_b64group (a b c : UInt8) :
    ∃ w x y z, b64group a b c = [w, x, y, z] ∧ y ≠ b64pad ∧ z ≠ b64pad := by
  refine ⟨_, _, _, _, rfl, ?_, ?_⟩
  · exact b64char_ne_pad (Nat.mod_lt _ (by decide))
  · exact b64char_ne_pad (Nat.mod_lt _ (by decide))

theorem b64group_two (a b : UInt8) :
    ∃ w x y, b64group a b 0 = [w, x, y, b64char 0] ∧ y ≠ b64pad := by
  obtain ⟨w, x, y, z, hgroup, hpad, _⟩ := exists_b64group a b 0
  have hlow : (a.toNat * 65536 + b.toNat * 256 + (0 : UInt8).toNat) % 64 = 0 := by
    rw [UInt8.toNat_zero]
    omega
  refine ⟨w, x, y, ?_, hpad⟩
  rw [b64group, hlow] at hgroup ⊢
  simp only [List.cons.injEq, and_true] at hgroup ⊢
  exact ⟨hgroup.1, hgroup.2.1, hgroup.2.2.1⟩

theorem b64group_one (a : UInt8) : ∃ w x, b64group a 0 0 = [w, x, b64char 0, b64char 0] := by
  obtain ⟨w, x, y, hgroup, _⟩ := b64group_two a 0
  have hmiddle : (a.toNat * 65536 + (0 : UInt8).toNat * 256 + (0 : UInt8).toNat) / 64 % 64 = 0 := by
    rw [UInt8.toNat_zero]
    omega
  refine ⟨w, x, ?_⟩
  rw [b64group, hmiddle] at hgroup ⊢
  simp only [List.cons.injEq, and_true] at hgroup ⊢
  exact ⟨hgroup.1, hgroup.2.1, trivial, hgroup.2.2.2⟩

theorem length_b64encode (data : Bytes) : (b64encode data).length = (data.length + 2) / 3 * 4 := by
  fun_induction b64encode data with
  | case1 a b c rest ih =>
    have hgroup : (b64group a b c).length = 4 := rfl
    rw [List.length_append, hgroup, ih]
    simp only [List.length_cons]
    omega
  | case2 | case3 => simp [b64group]
  | case4 => rfl

theorem b64decode_b64encode (data : Bytes) : b64decode (b64encode data) = some data := by
  fun_induction b64encode data with
  | case1 a b c rest ih =>
    obtain ⟨w, x, y, z, hgroup, _, hpad⟩ := exists_b64group a b c
    have hbytes := b64bytes_b64group a b c hgroup
    rw [hgroup]
    cases hrest : b64encode rest with
    | nil =>
      rw [hrest, b64decode, Option.some.injEq] at ih
      subst ih
      simp [b64decode, hpad, hbytes]
    | cons e more =>
      rw [hrest] at ih
      simp [b64decode, hbytes, ih]
  | case2 a b =>
    obtain ⟨w, x, y, hgroup, hpad⟩ := b64group_two a b
    have hbytes := b64bytes_b64group a b 0 hgroup
    rw [hgroup]
    simp [b64decode, hpad, hbytes]
  | case3 a =>
    obtain ⟨w, x, hgroup⟩ := b64group_one a
    have hbytes := b64bytes_b64group a 0 0 hgroup
    rw [hgroup]
    simp [b64decode, hbytes]
  | case4 => rfl

theorem b64encode_injective : Function.Injective b64encode := by
  intro a b h
  have := congrArg b64decode h
  rwa [b64decode_b64encode, b64decode_b64encode, Option.some.injEq] at this

end SharedInfra.Python
