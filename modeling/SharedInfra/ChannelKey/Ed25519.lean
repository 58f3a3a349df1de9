import SharedInfra.Python.Base64

/-!
# The public half of a signing key

`derive_public` of `safety_channel_key.py`: the Ed25519 public half of a 32-byte
seed (RFC 8032, section 5.1.5), over SHA-512 as a parameter.
-/

namespace SharedInfra.ChannelKey

open Python

/-- `pow(b, e, m)`. -/
def powMod (b : Int) (e : Nat) (m : Int) : Int :=
  if e = 0 then 1 % m
  else
    let half := powMod (b * b % m) (e / 2) m
    if e % 2 = 1 then b * half % m else half
termination_by e

/-- `P`. -/
def fieldPrime : Nat := 2 ^ 255 - 19

/-- `x % P`. -/
def red (x : Int) : Int := x % fieldPrime

/-- `pow(x, P - 2, P)`. -/
def invMod (x : Int) : Int := powMod x (fieldPrime - 2) fieldPrime

/-- `D`. -/
def curveD : Int := red (-121665 * invMod 121666)

/-- `SQRT_M1`. -/
def sqrtMinusOne : Int := powMod 2 ((fieldPrime - 1) / 4) fieldPrime

abbrev Point := Int × Int × Int × Int

def recoverX (y : Int) (sign : Int) : Option Int :=
  if y ≥ fieldPrime then none
  else
    let x2 := red ((y * y - 1) * invMod (curveD * y * y + 1))
    if x2 = 0 then (if sign ≠ 0 then none else some 0)
    else
      let x := powMod x2 ((fieldPrime + 3) / 8) fieldPrime
      let x := if red (x * x - x2) ≠ 0 then red (x * sqrtMinusOne) else x
      if red (x * x - x2) ≠ 0 then none
      else some (if x % 2 ≠ sign then fieldPrime - x else x)

/-- `BASE`. -/
def basePoint : Point :=
  let y := red (4 * invMod 5)
  let x := (recoverX y 0).getD 0
  (x, y, 1, red (x * y))

def pointAdd (a b : Point) : Point :=
  let t1 := red ((a.2.1 - a.1) * (b.2.1 - b.1))
  let t2 := red ((a.2.1 + a.1) * (b.2.1 + b.1))
  let t3 := red (2 * a.2.2.2 * b.2.2.2 * curveD)
  let t4 := red (2 * a.2.2.1 * b.2.2.1)
  let e := t2 - t1
  let f := t4 - t3
  let g := t4 + t3
  let h := t2 + t1
  (red (e * f), red (g * h), red (f * g), red (e * h))

/-- The loop of `_point_mul`. -/
def pointMulFrom (scalar : Nat) (point result : Point) : Point :=
  if scalar = 0 then result
  else
    pointMulFrom (scalar / 2) (pointAdd point point)
      (if scalar % 2 = 1 then pointAdd result point else result)
termination_by scalar

def pointMul (scalar : Nat) (point : Point) : Point := pointMulFrom scalar point (0, 1, 1, 0)

/-- `int.from_bytes(data, "little")`. -/
def fromLittle : Bytes → Nat
  | [] => 0
  | b :: rest => b.toNat + 256 * fromLittle rest

/-- `int.to_bytes(n, length, "little")`. -/
def toLittle : Nat → Nat → Bytes
  | 0, _ => []
  | length + 1, n => UInt8.ofNat (n % 256) :: toLittle length (n / 256)

def compress (point : Point) : Bytes :=
  let zInv := invMod point.2.2.1
  let x := (red (point.1 * zInv)).toNat
  let y := (red (point.2.1 * zInv)).toNat
  toLittle 32 (y ||| ((x &&& 1) <<< 255))

def derivePublic (sha512 : Bytes → Bytes) (seed : Bytes) : Bytes :=
  let scalar := fromLittle ((sha512 seed).take 32)
  let scalar := scalar &&& ((1 <<< 254) - 8)
  let scalar := scalar ||| (1 <<< 254)
  compress (pointMul scalar basePoint)

end SharedInfra.ChannelKey
