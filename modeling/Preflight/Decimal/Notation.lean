import Preflight.Decimal.Shortest
/-!
How a double is written: positional or with an exponent, with or without a point in whole numbers.
A `Notation64` holds these decisions; the three notations in use are `bare` for names, `pointed`
for messages, and `scientific` for messages about JSON and for the keys of JSON objects.
-/

namespace Preflight.Decimal

/-- The decisions of a way to write doubles. -/
structure Notation64 where
  /-- Whether whole numbers end in `.0`. -/
  pointWhole : Bool
  /-- The numbers of digits before the point for which no exponent is written; always if absent. -/
  positional : Option (Int × Int)
  /-- Which of two equally near shortest decimals is written. -/
  tie : Tie

/-- Names are the digits alone: no exponent, and no point in a whole number. -/
def bare : Notation64 := ⟨false, none, .up⟩

/-- Messages write a point in every number and never an exponent. -/
def pointed : Notation64 := ⟨true, none, .up⟩

/-- Messages about JSON write an exponent from `1e16` up and below `1e-5`. -/
def scientific : Notation64 := ⟨true, some (-4, 16), .even⟩

/-- The digits of a decimal with its point where it belongs, and zeros to fill. -/
def positionalText (pointWhole : Bool) (d : Scaled) : String :=
  let ds := Nat.toDigits 10 d.digits
  if 0 ≤ d.exponent then
    let whole := ds ++ (if d.digits = 0 then [] else List.replicate d.exponent.toNat '0')
    String.ofList (if pointWhole then whole ++ ['.', '0'] else whole)
  else
    let places := (-d.exponent).toNat
    if places < ds.length then
      String.ofList (ds.take (ds.length - places) ++ '.' :: ds.drop (ds.length - places))
    else
      String.ofList ('0' :: '.' :: (List.replicate (places - ds.length) '0' ++ ds))

/-- The digits of a decimal with the point after the first and the power of ten after an `e`. -/
def exponentText (d : Scaled) : String :=
  let ds := Nat.toDigits 10 d.digits
  let power := d.exponent + ds.length - 1
  let lead := match ds with
    | [] => []
    | [c] => [c]
    | c :: cs => c :: '.' :: cs
  String.ofList lead ++ "e" ++ (if power < 0 then "-" else "+") ++ toString power.natAbs

/-- A double in a notation. -/
def Notation64.write (n : Notation64) : Binary64 → String
  | .nan => "NaN"
  | .infinite false => "inf"
  | .infinite true => "-inf"
  | .finite negative s e =>
    let d := shortest n.tie s e
    let places := d.exponent + (Nat.toDigits 10 d.digits).length
    let isPositional := d.digits = 0 || n.positional.all fun (lo, hi) => lo ≤ places && places ≤ hi
    (if negative then "-" else "") ++
      if isPositional then positionalText n.pointWhole d else exponentText d

end Preflight.Decimal
