/-!
Double-precision numbers as exact values: a finite one is a sign, a significand below `2 ^ 53` and
a power of two. Quotients, products and decimals are rounded to the nearest such number in whole
number arithmetic, a half to the even significand.
-/

namespace Preflight

-- `Nat.pow` and not `^`, whose instance depends on what is imported.

/-- A power of two. -/
def pow2 (n : Nat) : Nat :=
  Nat.pow 2 n

/-- A power of ten. -/
def pow10 (n : Nat) : Nat :=
  Nat.pow 10 n

/-- A double-precision number. A finite one is `± significand * 2 ^ exponent`, with the significand
below `2 ^ 53`, and at least `2 ^ 52` unless the exponent is the least, `-1074`. -/
inductive Binary64 where
  | nan
  | infinite (negative : Bool)
  | finite (negative : Bool) (significand : Nat) (exponent : Int)
  deriving DecidableEq, Repr

namespace Binary64

/-- Zero with a sign. -/
def zero (negative : Bool) : Binary64 :=
  .finite negative 0 (-1074)

instance : Inhabited Binary64 :=
  ⟨zero false⟩

/-- Whether a number is neither infinite nor NaN. -/
def isFinite : Binary64 → Bool
  | .finite .. => true
  | _ => false

/-- Whether a number is zero, of either sign. -/
def isZero : Binary64 → Bool
  | .finite _ 0 _ => true
  | _ => false

/-- Equality of values: the two zeros are equal, and so are two NaNs. -/
def sameValue (x y : Binary64) : Bool :=
  x = y || (x.isZero && y.isZero)

/-- A number with the other sign. -/
def negate : Binary64 → Binary64
  | .nan => .nan
  | .infinite n => .infinite !n
  | .finite n s e => .finite (!n) s e

/-- A quotient of whole numbers rounded to a whole number, a half to the even neighbour. -/
def divRound (num den : Nat) : Nat :=
  let q := num / den
  let r := 2 * (num % den)
  if r < den then q else if den < r then q + 1 else if q % 2 = 0 then q else q + 1

/-- The greatest `e` with `2 ^ e * den ≤ num`, for positive `num` and `den`. -/
def floorLog2Ratio (num den : Nat) : Int :=
  let e : Int := (num.log2 : Int) - (den.log2 : Int)
  if den * pow2 e.toNat ≤ num * pow2 (-e).toNat then e else e - 1

/-- The double nearest to `± num / den`, for a positive `den`. -/
def ofRatio (negative : Bool) (num den : Nat) : Binary64 :=
  if num = 0 then zero negative
  else
    let e := max (floorLog2Ratio num den - 52) (-1074)
    let s := divRound (num * pow2 (-e).toNat) (den * pow2 e.toNat)
    let (s, e) := if s = pow2 53 then (pow2 52, e + 1) else (s, e)
    if e > 971 then .infinite negative else .finite negative s e

/-- The double nearest to a natural number. -/
def ofNat (n : Nat) : Binary64 :=
  ofRatio false n 1

/-- The double nearest to `± digits * 10 ^ exponent`. Exponents that lead out of range are settled
by the number of digits, so that no huge power is computed. -/
def ofDecimal (negative : Bool) (digits : Nat) (exponent : Int) : Binary64 :=
  if digits = 0 then zero negative
  else
    let top := exponent + (Nat.toDigits 10 digits).length
    if top > 310 then .infinite negative
    else if top < -330 then zero negative
    else ofRatio negative (digits * pow10 exponent.toNat) (pow10 (-exponent).toNat)

/-- The rounded product of a double and the double nearest to a natural number. -/
def mulNat (x : Binary64) (n : Nat) : Binary64 :=
  match x, ofNat n with
  | .finite a s e, .finite _ t f =>
    ofRatio a (s * t * pow2 (e + f).toNat) (pow2 (-(e + f)).toNat)
  | .finite _ 0 _, .infinite _ => .nan
  | .finite a _ _, .infinite _ => .infinite a
  | x, _ => x

/-- The rounded quotient of a double and the double nearest to a positive natural number. -/
def divNat (x : Binary64) (n : Nat) : Binary64 :=
  match x, ofNat n with
  | .finite a s e, .finite _ t f =>
    ofRatio a (s * pow2 (e - f).toNat) (t * pow2 (f - e).toNat)
  | .finite a _ _, .infinite _ => zero a
  | x, _ => x

end Binary64

end Preflight
