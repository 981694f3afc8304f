import Preflight.Json.Basic
import Preflight.Decimal.Notation
/-!
Writing JSON, on one line or with one entry per line and an indent of two blanks. Only quotes,
backslashes and control characters are escaped; an empty array or object stays closed.
-/

namespace Preflight.Json

/-- A digit of base sixteen, in lower case. -/
def hexChar (n : Nat) : Char :=
  Char.ofNat (if n < 10 then '0'.toNat + n else 'a'.toNat + n - 10)

/-- A character as it stands between quotes. -/
def escape (c : Char) : List Char :=
  match c with
  | '"' => ['\\', '"']
  | '\\' => ['\\', '\\']
  | '\x08' => ['\\', 'b']
  | '\x0c' => ['\\', 'f']
  | '\n' => ['\\', 'n']
  | '\r' => ['\\', 'r']
  | '\t' => ['\\', 't']
  | c =>
    if c.toNat < 0x20 then ['\\', 'u', '0', '0', hexChar (c.toNat / 16), hexChar (c.toNat % 16)]
    else [c]

/-- A text between quotes. -/
def quote (s : String) : String :=
  String.ofList ('"' :: (s.toList.flatMap escape ++ ['"']))

/-- A number with fraction; JSON has no infinities, so they are written as null. -/
def writeFloat (x : Binary64) : String :=
  if x.isFinite then Decimal.scientific.write x else "null"

/-- A line break and the blanks of a depth. -/
def newline (depth : Nat) : String :=
  String.ofList ('\n' :: List.replicate (2 * depth) ' ')

mutual

/-- A value on one line. -/
def compact : Json → String
  | .null => "null"
  | .bool b => if b then "true" else "false"
  | .int n => toString n
  | .float x => writeFloat x
  | .text s => quote s
  | .array items => "[" ++ ",".intercalate (compactItems items) ++ "]"
  | .object entries => "\x7b" ++ ",".intercalate (compactEntries entries) ++ "\x7d"

/-- The items of an array, each on one line. -/
def compactItems : List Json → List String
  | [] => []
  | v :: vs => compact v :: compactItems vs

/-- The entries of an object, each on one line. -/
def compactEntries : List (String × Json) → List String
  | [] => []
  | (name, v) :: es => (quote name ++ ":" ++ compact v) :: compactEntries es

end

mutual

/-- A value with one entry per line, inside as many arrays and objects as `depth` says. -/
def prettyAt (depth : Nat) : Json → String
  | .array (v :: vs) =>
    "[" ++ ",".intercalate (prettyItems (depth + 1) (v :: vs)) ++ newline depth ++ "]"
  | .object (e :: es) =>
    "\x7b" ++ ",".intercalate (prettyEntries (depth + 1) (e :: es)) ++ newline depth ++ "\x7d"
  | v => compact v

/-- The items of an array, each on a line of its own. -/
def prettyItems (depth : Nat) : List Json → List String
  | [] => []
  | v :: vs => (newline depth ++ prettyAt depth v) :: prettyItems depth vs

/-- The entries of an object, each on a line of its own. -/
def prettyEntries (depth : Nat) : List (String × Json) → List String
  | [] => []
  | (name, v) :: es =>
    (newline depth ++ quote name ++ ": " ++ prettyAt depth v) :: prettyEntries depth es

end

/-- A value with one entry per line. -/
def pretty (v : Json) : String :=
  prettyAt 0 v

end Preflight.Json
