import Preflight.Decimal.Reading
import Preflight.Document.Tree
/-!
What a scalar means. A plain scalar is null, a truth value, a whole number or a number with a
fraction if it is spelled like one, and a text otherwise; so is a scalar under a tag of the
document's own. A tag of YAML's own asks for one of these kinds, and every other for a text.
-/

namespace Preflight.Yaml

/-- Reads null. -/
def null? : String → Option Tree
  | "null" | "Null" | "NULL" | "~" => some .null
  | _ => none

/-- Reads a truth value. -/
def bool? : String → Option Tree
  | "true" | "True" | "TRUE" => some (.bool true)
  | "false" | "False" | "FALSE" => some (.bool false)
  | _ => none

/-- Digits with a zero in front: a text, not a number. -/
def isZeroLed (cs : List Char) : Bool :=
  let digits := match cs with
    | '-' :: ds => ds
    | '+' :: ds => ds
    | ds => ds
  digits.length > 1 && digits.head? == some '0' && digits.all Char.isDigit

/-- The base that two characters in front of digits name. -/
def base? : List Char → Option (Nat × List Char)
  | '0' :: 'x' :: cs => some (16, cs)
  | '0' :: 'o' :: cs => some (8, cs)
  | '0' :: 'b' :: cs => some (2, cs)
  | _ => none

/-- The digits of a whole number, in decimal or in the base they name. -/
def digits? (cs : List Char) : Option Nat :=
  (base? cs).bind (fun (base, ds) => Decimal.natInBase? base ds) <|> Decimal.natInBase? 10 cs

/-- The whole number that a scalar is spelled like. -/
def whole? (cs : List Char) : Option Int :=
  if isZeroLed cs then none
  else
    match cs with
    | '+' :: ds => (digits? ds).map fun n => (n : Int)
    | '-' :: ds => (digits? ds).map fun n => -(n : Int)
    | ds => (digits? ds).map fun n => (n : Int)

/-- What becomes of a scalar that is spelled like a whole number. -/
inductive WholeKind where
  /-- It is one, within 64 bits. -/
  | fits
  /-- It is none that can be read, though it fits 128 bits. -/
  | wide
  /-- It is further out, and counts as a number with a fraction. -/
  | huge
  deriving DecidableEq

/-- The size of a whole number. Positive ones may use all bits of a word, negative ones all but
the sign. -/
def wholeKind (n : Int) : WholeKind :=
  if -(pow2 63 : Int) ≤ n ∧ n < pow2 64 then .fits
  else if -(pow2 127 : Int) ≤ n ∧ n < pow2 128 then .wide
  else .huge

/-- Reads a number with a fraction, or one of the values that are not finite. -/
def float? (text : String) : Option Tree :=
  let unsigned := match text.toList with
    | '+' :: cs => cs
    | cs => cs
  let isInfinity := fun (s : String) => s == ".inf" || s == ".Inf" || s == ".INF"
  if text.toList.head? == some '+' && (unsigned.head?.any fun c => c == '+' || c == '-') then none
  else if isInfinity (String.ofList unsigned) then some (.float (.infinite false))
  else if text == "-.inf" || text == "-.Inf" || text == "-.INF" then
    some (.float (.infinite true))
  else if text == ".nan" || text == ".NaN" || text == ".NAN" then some (.float .nan)
  else do
    let x := (← Decimal.numeral? unsigned).toBinary64
    if x.isFinite then some (.float x) else none

/-- Reads a plain scalar; fails on a whole number that is too wide. -/
def resolvePlain (text : String) : Option Tree :=
  if text = "" then some .null
  else
    match null? text <|> bool? text with
    | some t => some t
    | none =>
      match (whole? text.toList).map fun n => (n, wholeKind n) with
      | some (n, .fits) => some (.int n)
      | some (_, .wide) => none
      | _ =>
        if isZeroLed text.toList then some (.text text)
        else some ((float? text).getD (.text text))

/-- Reads a scalar under one of YAML's own tags; fails if it is not spelled like what the tag asks
for. -/
def resolveStandard (tag text : String) : Option Tree :=
  if tag = "tag:yaml.org,2002:bool" then bool? text
  else if tag = "tag:yaml.org,2002:int" then
    match (whole? text.toList).map fun n => (n, wholeKind n) with
    | some (n, .fits) => some (.int n)
    | _ => none
  else if tag = "tag:yaml.org,2002:float" then float? text
  else if tag = "tag:yaml.org,2002:null" then null? text
  else some (.text text)

/-- The name of a tag of the document's own: what follows its mark, or the mark if it stands
alone. -/
def ownTag? (tag : String) : Option String :=
  match tag.toList with
  | '!' :: [] => some "!"
  | '!' :: name => some (String.ofList name)
  | _ => none

/-- A value under a tag. Only tags of the document's own are kept. -/
def underTag (tag : Option String) (t : Tree) : Tree :=
  match tag.bind ownTag? with
  | some name => .tagged name t
  | none => t

/-- Reads a scalar. -/
def resolve (tag : Option String) (isPlain : Bool) (text : String) : Option Tree :=
  let content := if isPlain then resolvePlain text else some (.text text)
  match tag with
  | none => content
  | some name =>
    if (ownTag? name).isSome then content.map (underTag tag) else resolveStandard name text

end Preflight.Yaml
