/-!
Digits in base sixteen, and the characters that they name.
-/

namespace Preflight.Text

/-- The value of a digit in base sixteen, in either case for those above nine. -/
def hexDigit? (c : Char) : Option Nat :=
  if '0' ≤ c ∧ c ≤ '9' then some (c.toNat - '0'.toNat)
  else if 'a' ≤ c ∧ c ≤ 'f' then some (c.toNat - 'a'.toNat + 10)
  else if 'A' ≤ c ∧ c ≤ 'F' then some (c.toNat - 'A'.toNat + 10)
  else none

/-- The character that digits in base sixteen name. -/
def hexChar? (digits : List Char) : Option Char := do
  let n ← digits.foldlM (fun n c => (hexDigit? c).map (n * 16 + ·)) 0
  if 0xD800 ≤ n ∧ n < 0xE000 ∨ 0x10FFFF < n then none else some (Char.ofNat n)

end Preflight.Text
