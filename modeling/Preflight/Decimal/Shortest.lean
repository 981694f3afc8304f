import Preflight.Decimal.Binary64
/-!
The fewest digits that read back. Around each double lies the interval of reals that round to it;
the shortest decimal is the one of fewest digits in that interval, and of those the nearest to the
double.
-/

namespace Preflight.Decimal

/-- The positive number `digits * 10 ^ exponent`. -/
structure Scaled where
  digits : Nat
  exponent : Int
  deriving DecidableEq, Repr

/-- Which of two equally near decimals of one length is taken. -/
inductive Tie where
  | up
  | even
  deriving DecidableEq, Repr

/-- The number `significand * 2 ^ exponent` in quarters of its last place, with the ends of the
interval that rounds to it; `low` is nearer below a power of two. The ends belong to the interval
exactly when the significand is even. -/
structure Interval where
  low : Nat
  mid : Nat
  high : Nat
  closed : Bool
  /-- A quarter of the last place is `2 ^ unit`. -/
  unit : Int

/-- The interval of the reals that round to a positive finite double. -/
def Interval.of (significand : Nat) (exponent : Int) : Interval where
  low := 4 * significand - (if significand = pow2 52 ∧ exponent > -1074 then 1 else 2)
  mid := 4 * significand
  high := 4 * significand + 2
  closed := significand % 2 = 0
  unit := exponent - 2

/-- Whether `n * 10 ^ e` lies in an interval. -/
def Interval.contains (i : Interval) (n : Nat) (e : Int) : Bool :=
  let x := n * pow10 e.toNat * pow2 (-i.unit).toNat
  let scale := pow2 i.unit.toNat * pow10 (-e).toNat
  if i.closed then i.low * scale ≤ x && x ≤ i.high * scale
  else i.low * scale < x && x < i.high * scale

/-- The number of digits of a positive number before the point, or minus the number of zeros that
follow the point: `10 ^ (t - 1) ≤ num / den < 10 ^ t`. -/
def tensPlaces (num den : Nat) : Int :=
  if den ≤ num then (Nat.toDigits 10 (num / den)).length
  else
    let t := (Nat.toDigits 10 (den / num)).length
    if den ≤ num * pow10 (t - 1) then 2 - (t : Int) else 1 - (t : Int)

/-- The neighbour of the middle of an interval on the grid of multiples of `10 ^ e`, if one of the
two lies in the interval: the nearer if both do. -/
def Interval.onGrid (i : Interval) (tie : Tie) (e : Int) : Option Nat :=
  let num := i.mid * pow2 i.unit.toNat * pow10 (-e).toNat
  let den := pow2 (-i.unit).toNat * pow10 e.toNat
  let below := num / den
  let above := below + 1
  let rest := 2 * (num % den)
  match i.contains below e && 0 < below, i.contains above e with
  | true, false => some below
  | false, true => some above
  | false, false => none
  | true, true =>
    if rest < den then some below
    else if den < rest then some above
    else
      match tie with
      | .up => some above
      | .even => some (if below % 2 = 0 then below else above)

/-- A decimal without zeros at its end; at most `fuel` zeros are taken off. -/
def Scaled.strip : Nat → Scaled → Scaled
  | 0, d => d
  | fuel + 1, d =>
    if d.digits % 10 = 0 ∧ d.digits ≠ 0 then
      Scaled.strip fuel ⟨d.digits / 10, d.exponent + 1⟩
    else d

/-- The shortest decimal that reads back as the double `significand * 2 ^ exponent`. Seventeen
digits always suffice. -/
def shortest (tie : Tie) (significand : Nat) (exponent : Int) : Scaled :=
  if significand = 0 then ⟨0, 0⟩
  else
    let i := Interval.of significand exponent
    let places := tensPlaces (significand * pow2 exponent.toNat) (pow2 (-exponent).toNat)
    let found := (List.range 17).findSome? fun (n : Nat) =>
      let e : Int := places - (n + 1)
      (i.onGrid tie e).map fun d => Scaled.strip 20 ⟨d, e⟩
    found.getD ⟨0, 0⟩

end Preflight.Decimal
