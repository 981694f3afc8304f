import Preflight.Decimal.Binary64
/-!
Reading numbers: whole ones in a base, and decimals with a point or an exponent, rounded to the
nearest double.
-/

namespace Preflight.Decimal

/-- The value of a digit up to `z`, in either case. -/
def digit? (c : Char) : Option Nat :=
  if '0' ≤ c ∧ c ≤ '9' then some (c.toNat - '0'.toNat)
  else if 'a' ≤ c ∧ c ≤ 'z' then some (c.toNat - 'a'.toNat + 10)
  else if 'A' ≤ c ∧ c ≤ 'Z' then some (c.toNat - 'A'.toNat + 10)
  else none

/-- The number that digits spell in a base, if there is at least one digit and all are below it. -/
def natInBase? (base : Nat) (digits : List Char) : Option Nat :=
  if digits.isEmpty then none
  else digits.foldlM (fun n c => do
    let d ← digit? c
    if d < base then return n * base + d else none) 0

/-- A decimal as it is written: its digits as one number, and the power of ten they count. -/
structure Numeral where
  negative : Bool
  digits : Nat
  exponent : Int

/-- The nearest double. -/
def Numeral.toBinary64 (n : Numeral) : Binary64 :=
  .ofDecimal n.negative n.digits n.exponent

/-- The exponent that a text is, with an optional sign. -/
def exponent? : List Char → Option Int
  | '-' :: cs => (natInBase? 10 cs).map fun n => -(n : Int)
  | '+' :: cs => (natInBase? 10 cs).map fun n => (n : Int)
  | cs => (natInBase? 10 cs).map fun n => (n : Int)

/-- The decimal that a text without sign is: digits with at most one point among them, at least one
digit, and an optional exponent. -/
def unsigned? (negative : Bool) (cs : List Char) : Option Numeral := do
  let isE := fun c => c == 'e' || c == 'E'
  let mantissa := cs.takeWhile fun c => !isE c
  let power ← match cs.dropWhile fun c => !isE c with
    | [] => some 0
    | _ :: rest => exponent? rest
  let whole := mantissa.takeWhile (· != '.')
  let fraction := (mantissa.dropWhile (· != '.')).drop 1
  let digits ← natInBase? 10 (whole ++ fraction)
  return ⟨negative, digits, power - fraction.length⟩

/-- The decimal that a text is, with an optional sign. -/
def numeral? : List Char → Option Numeral
  | '-' :: cs => unsigned? true cs
  | '+' :: cs => unsigned? false cs
  | cs => unsigned? false cs

end Preflight.Decimal
