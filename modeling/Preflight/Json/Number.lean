import Preflight.Json.Basic
/-!
The value of a JSON number. A number without fraction and exponent that fits 64 bits is a whole
number. Of any other the first digits that fit an unsigned 64-bit word are kept, and the double
nearest to them is multiplied or divided by a power of ten: the result is rounded twice.
-/

namespace Preflight.Json

/-- A number as it is written: its sign, the digits before and after the point, and the exponent
with its sign. -/
structure Numeral where
  negative : Bool
  whole : List Nat
  fraction : Option (List Nat)
  exponent : Option (Bool × List Nat)

/-- The greatest unsigned 64-bit word. -/
def maxWord : Nat :=
  pow2 64 - 1

/-- The digits that fit a word, and how many whole digits after them are left out. -/
def wholeDigits (digits : List Nat) : Nat × Nat :=
  digits.foldl next (0, 0)
where
  next : Nat × Nat → Nat → Nat × Nat
    | (n, 0), d => if n * 10 + d ≤ maxWord then (n * 10 + d, 0) else (n, 1)
    | (n, left + 1), _ => (n, left + 2)

/-- A word continued by the digits of a fraction as long as they fit, and how many do. -/
def fractionDigits (word : Nat) : List Nat → Nat × Nat
  | [] => (word, 0)
  | d :: ds =>
    if word * 10 + d ≤ maxWord then
      let (n, used) := fractionDigits (word * 10 + d) ds
      (n, used + 1)
    else (word, 0)

/-- A double times a power of ten, if that is in range. An exponent below `-308` is applied in
steps of 308, of which no word needs more than four. -/
def scale : Nat → Binary64 → Int → Option Binary64
  | 0, x, _ => some x
  | steps + 1, x, e =>
    if e.natAbs ≤ 308 then
      if 0 ≤ e then
        let y := x.mulNat (pow10 e.natAbs)
        if y.isFinite then some y else none
      else some (x.divNat (pow10 e.natAbs))
    else if x.isZero then some x
    else if 0 < e then none
    else scale steps (x.divNat (pow10 308)) (e + 308)

/-- The exponent's value; absent when it does not fit a signed 32-bit word. -/
def exponentValue (digits : List Nat) : Option Nat :=
  let n := digits.foldl (fun n d => n * 10 + d) 0
  if n ≤ pow2 31 - 1 then some n else none

/-- The floating-point value of a word with an exponent. -/
def floatValue (negative : Bool) (word : Nat) (exponent : Int) : Option Json :=
  (scale 5 (.ofNat word) exponent).map fun x => .float (if negative then x.negate else x)

/-- The value of a number, if it is in range. -/
def Numeral.value? (n : Numeral) : Option Json :=
  let (word, left) := wholeDigits n.whole
  match n.fraction, n.exponent, left with
  | none, none, 0 =>
    if !n.negative then some (.int word)
    else if word = 0 then some (.float (.zero true))
    else if word ≤ pow2 63 then some (.int (-word))
    else some (.float (Binary64.ofNat word).negate)
  | fraction, exponent, left =>
    let (word, used) := fractionDigits word (fraction.getD [])
    let start : Int := (left : Int) - used
    match exponent with
    | none => floatValue n.negative word start
    | some (below, digits) =>
      match exponentValue digits with
      | some e => floatValue n.negative word (if below then start - e else start + e)
      | none =>
        if word = 0 ∨ below then some (.float (.zero n.negative)) else none

end Preflight.Json
