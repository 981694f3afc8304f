import Preflight.Json.Number
import Preflight.Text.Hex
/-!
The tokens of a JSON text. Texts and numbers are decoded here; blanks between tokens are dropped.
-/

namespace Preflight.Json

/-- What a JSON text is made of. -/
inductive Token where
  | openArray
  | closeArray
  | openObject
  | closeObject
  | comma
  | colon
  /-- A value that is not an array or object. -/
  | scalar (value : Json)

/-- A blank between tokens. -/
def isSpace (c : Char) : Bool :=
  c == ' ' || c == '\n' || c == '\t' || c == '\r'

/-- The code unit that four digits name. -/
def unit? (a b c d : Char) : Option Nat := do
  return ((← Text.hexDigit? a) * 16 + (← Text.hexDigit? b)) * 256 + (← Text.hexDigit? c) * 16 + (← Text.hexDigit? d)

/-- What stands for itself after a backslash, or is named by a letter. -/
def escaped? (c : Char) : Option Char :=
  match c with
  | '"' => some '"'
  | '\\' => some '\\'
  | '/' => some '/'
  | 'b' => some '\x08'
  | 'f' => some '\x0c'
  | 'n' => some '\n'
  | 'r' => some '\r'
  | 't' => some '\t'
  | _ => none

/-- A text up to its closing quote, decoded, and what follows. Control characters must be escaped,
and a code unit of a pair stands only before its partner. -/
def unquote : List Char → Option (List Char × List Char)
  | [] => none
  | '"' :: cs => some ([], cs)
  | '\\' :: 'u' :: a :: b :: c :: d :: cs => do
    let n ← unit? a b c d
    if 0xD800 ≤ n ∧ n < 0xDC00 then
      match cs with
      | '\\' :: 'u' :: e :: f :: g :: h :: cs =>
        let m ← unit? e f g h
        if 0xDC00 ≤ m ∧ m < 0xE000 then
          let (s, rest) ← unquote cs
          return (Char.ofNat (0x10000 + (n - 0xD800) * 0x400 + (m - 0xDC00)) :: s, rest)
        else none
      | _ => none
    else if 0xDC00 ≤ n ∧ n < 0xE000 then none
    else
      let (s, rest) ← unquote cs
      return (Char.ofNat n :: s, rest)
  | '\\' :: c :: cs => do
    let e ← escaped? c
    let (s, rest) ← unquote cs
    return (e :: s, rest)
  | c :: cs =>
    if c.toNat < 0x20 || c == '\\' then none
    else (unquote cs).map fun (s, rest) => (c :: s, rest)

/-- The digits a text starts with, and what follows them. -/
def spanDigits : List Char → List Nat × List Char
  | [] => ([], [])
  | c :: cs =>
    if '0' ≤ c ∧ c ≤ '9' then
      let (ds, rest) := spanDigits cs
      ((c.toNat - '0'.toNat) :: ds, rest)
    else ([], c :: cs)

/-- The fraction of a number, if the text starts with a point. -/
def fraction? : List Char → Option (Option (List Nat) × List Char)
  | '.' :: cs =>
    match spanDigits cs with
    | ([], _) => none
    | (ds, rest) => some (some ds, rest)
  | cs => some (none, cs)

/-- The digits of an exponent, after its sign. -/
def exponentDigits? (below : Bool) (cs : List Char) :
    Option (Option (Bool × List Nat) × List Char) :=
  match spanDigits cs with
  | ([], _) => none
  | (ds, rest) => some (some (below, ds), rest)

/-- The exponent of a number, if the text starts with its letter. -/
def exponent? : List Char → Option (Option (Bool × List Nat) × List Char)
  | c :: cs =>
    if c = 'e' ∨ c = 'E' then
      match cs with
      | '+' :: cs => exponentDigits? false cs
      | '-' :: cs => exponentDigits? true cs
      | cs => exponentDigits? false cs
    else some (none, c :: cs)
  | [] => some (none, [])

/-- The number that a text starts with, after its sign, and what follows. A zero in front stands
alone. -/
def number? (negative : Bool) (cs : List Char) : Option (Json × List Char) := do
  let (whole, cs) := spanDigits cs
  if whole.isEmpty || (whole.head? == some 0 && whole.length > 1) then none
  let (fraction, cs) ← fraction? cs
  let (exponent, cs) ← exponent? cs
  let value ← Numeral.value? ⟨negative, whole, fraction, exponent⟩
  return (value, cs)

/-- The token that a text starts with, and what follows. -/
def token? : List Char → Option (Token × List Char)
  | '[' :: cs => some (.openArray, cs)
  | ']' :: cs => some (.closeArray, cs)
  | '{' :: cs => some (.openObject, cs)
  | '}' :: cs => some (.closeObject, cs)
  | ',' :: cs => some (.comma, cs)
  | ':' :: cs => some (.colon, cs)
  | '"' :: cs => (unquote cs).map fun (s, rest) => (.scalar (.text (String.ofList s)), rest)
  | 't' :: 'r' :: 'u' :: 'e' :: cs => some (.scalar (.bool true), cs)
  | 'f' :: 'a' :: 'l' :: 's' :: 'e' :: cs => some (.scalar (.bool false), cs)
  | 'n' :: 'u' :: 'l' :: 'l' :: cs => some (.scalar .null, cs)
  | '-' :: cs => (number? true cs).map fun (v, rest) => (.scalar v, rest)
  | cs => (number? false cs).map fun (v, rest) => (.scalar v, rest)

/-- The tokens of a text. Every token takes a character, so `fuel` characters allow as many. -/
def tokensWithin : Nat → List Char → Option (List Token)
  | 0, cs => if (cs.dropWhile isSpace).isEmpty then some [] else none
  | fuel + 1, cs =>
    match cs.dropWhile isSpace with
    | [] => some []
    | cs => do
      let (t, rest) ← token? cs
      return t :: (← tokensWithin fuel rest)

/-- The tokens of a text, unless it holds something that is none. -/
def tokens? (cs : List Char) : Option (List Token) :=
  tokensWithin cs.length cs

end Preflight.Json
