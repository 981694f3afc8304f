import Preflight.Toml.Text
import Preflight.Decimal.Reading
import Preflight.Document.Tree
/-!
Numbers, dates and times in a TOML document. Underscores may stand between digits; a date is kept
as its text in one standard form.
-/

namespace Preflight.Toml

/-- The digits a text starts with, without the underscores between them, and what follows. An
underscore must stand between two digits. `after` says whether a digit came just before. -/
def digitsAfter (isDigit : Char → Bool) (after : Bool) : Scan (List Char)
  | [] => if after then some ([], []) else none
  | c :: cs =>
    if isDigit c then (digitsAfter isDigit true cs).map (consTo c)
    else if !after then none
    else if c == '_' then digitsAfter isDigit false cs
    else some ([], c :: cs)

/-- Reads at least one digit. -/
def digits (isDigit : Char → Bool) : Scan (List Char) :=
  digitsAfter isDigit false

/-- Reads an optional sign. -/
def sign (cs : List Char) : List Char × List Char :=
  match cs with
  | '+' :: cs => ([], cs)
  | '-' :: cs => (['-'], cs)
  | cs => ([], cs)

/-- Reads a whole number in decimal: a zero in front stands alone. -/
def decimal (cs : List Char) : Option (List Char × List Char) :=
  let (s, cs) := sign cs
  match cs with
  | '0' :: cs => some (s ++ ['0'], cs)
  | cs => (digits Char.isDigit cs).map fun (ds, rest) => (s ++ ds, rest)

/-- A whole number, if it fits 64 bits with a sign. -/
def fits? (n : Int) : Option Tree :=
  if -(pow2 63 : Int) ≤ n ∧ n < pow2 63 then some (.int n) else none

/-- Reads digits in the base that was named. -/
def inBase (base : Nat) (cs : List Char) : Option (Tree × List Char) := do
  let isDigit := fun c => (Decimal.digit? c).any (· < base)
  let (ds, rest) ← digits isDigit cs
  let n ← Decimal.natInBase? base ds
  return (← fits? n, rest)

/-- Reads a whole number. -/
def integer (cs : List Char) : Option (Tree × List Char) :=
  match cs with
  | '0' :: 'x' :: cs => inBase 16 cs
  | '0' :: 'o' :: cs => inBase 8 cs
  | '0' :: 'b' :: cs => inBase 2 cs
  | cs => do
    let (ds, rest) ← decimal cs
    let n ← match ds with
      | '-' :: ds => (Decimal.natInBase? 10 ds).map fun n => -(n : Int)
      | ds => (Decimal.natInBase? 10 ds).map fun n => (n : Int)
    return (← fits? n, rest)

/-- Reads a fraction, with its point. -/
def fraction (cs : List Char) : Option (List Char × List Char) :=
  match cs with
  | '.' :: cs => (digits Char.isDigit cs).map (consTo '.')
  | _ => none

/-- Reads an exponent, with its letter. -/
def exponent (cs : List Char) : Option (List Char × List Char) :=
  match cs with
  | c :: cs =>
    if c == 'e' || c == 'E' then
      let (s, cs) := sign cs
      (digits Char.isDigit cs).map fun (ds, rest) => ('e' :: (s ++ ds), rest)
    else none
  | [] => none

/-- Reads what may be missing. -/
def optional (read : List Char → Option (List Char × List Char)) (cs : List Char) :
    List Char × List Char :=
  (read cs).getD ([], cs)

/-- Reads an exponent, or a fraction that an exponent may follow. -/
def afterWhole (cs : List Char) : Option (List Char × List Char) :=
  exponent cs <|> (fraction cs).map fun (f, cs) =>
    let (e, cs) := optional exponent cs
    (f ++ e, cs)

/-- Reads a number with a fraction or an exponent; one that is too great is refused. -/
def float (cs : List Char) : Option (Tree × List Char) := do
  let (whole, cs) ← decimal cs
  let (part, cs) ← afterWhole cs
  let x := (← Decimal.numeral? (whole ++ part)).toBinary64
  -- Only positive infinity counts as too great.
  if x = .infinite false then none else return (.float x, cs)

/-- Reads infinity or the value that is no number, with an optional sign. -/
def special (cs : List Char) : Option (Tree × List Char) :=
  let (s, cs) := sign cs
  match cs with
  | 'i' :: 'n' :: 'f' :: cs => some (.float (.infinite !s.isEmpty), cs)
  | 'n' :: 'a' :: 'n' :: cs => some (.float .nan, cs)
  | _ => none

/-! ## Dates and times -/

/-- Reads as many digits as `count` says, within bounds. -/
def fixedDigits (count low high : Nat) (cs : List Char) : Option (Nat × List Char) := do
  let ds := cs.take count
  if ds.length < count then none
  let n ← if ds.all Char.isDigit then Decimal.natInBase? 10 ds else none
  if low ≤ n ∧ n ≤ high then return (n, cs.drop count) else none

/-- What follows a character, if the text starts with it. -/
def expect (c : Char) (cs : List Char) : Option (List Char) :=
  match cs with
  | d :: cs => if d == c then some cs else none
  | [] => none

/-- A number with zeros in front, up to a width. -/
def padded (width n : Nat) : String :=
  let ds := Nat.toDigits 10 n
  String.ofList (List.replicate (width - ds.length) '0' ++ ds)

/-- The number of days in a month. -/
def daysIn (year month : Nat) : Nat :=
  if month == 2 then
    if year % 4 == 0 && (year % 100 != 0 || year % 400 == 0) then 29 else 28
  else if month == 4 || month == 6 || month == 9 || month == 11 then 30
  else 31

/-- Reads a date. -/
def date (cs : List Char) : Option (String × List Char) := do
  let (year, cs) ← fixedDigits 4 0 9999 cs
  let cs ← expect '-' cs
  let (month, cs) ← fixedDigits 2 1 12 cs
  let cs ← expect '-' cs
  let (day, cs) ← fixedDigits 2 1 31 cs
  if day > daysIn year month then none
  return (padded 4 year ++ "-" ++ padded 2 month ++ "-" ++ padded 2 day, cs)

/-- The fraction of a second as it is written: at most nine digits count, and no zeros at the
end. -/
def secondFraction (ds : List Char) : String :=
  let kept := ((ds.take 9).reverse.dropWhile (· == '0')).reverse
  if kept.isEmpty then "" else String.ofList ('.' :: kept)

/-- Reads a time of day. -/
def time (cs : List Char) : Option (String × List Char) := do
  let (hour, cs) ← fixedDigits 2 0 23 cs
  let cs ← expect ':' cs
  let (minute, cs) ← fixedDigits 2 0 59 cs
  let cs ← expect ':' cs
  let (second, cs) ← fixedDigits 2 0 60 cs
  let text := padded 2 hour ++ ":" ++ padded 2 minute ++ ":" ++ padded 2 second
  match cs with
  | '.' :: rest =>
    let ds := rest.takeWhile Char.isDigit
    if ds.isEmpty then none
    return (text ++ secondFraction ds, rest.dropWhile Char.isDigit)
  | cs => return (text, cs)

/-- Reads the offset of a time from universal time, which may be missing. -/
def offset (cs : List Char) : Option (String × List Char) :=
  match cs with
  | 'Z' :: cs => some ("Z", cs)
  | 'z' :: cs => some ("Z", cs)
  | c :: rest =>
    if c == '+' || c == '-' then do
      let (hour, rest) ← fixedDigits 2 0 23 rest
      let rest ← expect ':' rest
      let (minute, rest) ← fixedDigits 2 0 59 rest
      let mark := if c == '-' && hour + minute != 0 then "-" else "+"
      return (mark ++ padded 2 hour ++ ":" ++ padded 2 minute, rest)
    else some ("", c :: rest)
  | [] => some ("", [])

/-- Reads the time after a date, which may be missing: a letter or a blank stands before it. -/
def timeAfterDate (cs : List Char) : Option (String × List Char) :=
  match cs with
  | c :: rest =>
    if c == 'T' || c == 't' || c == ' ' then do
      let (t, rest) ← time rest
      let (o, rest) ← offset rest
      return ("T" ++ t ++ o, rest)
    else none
  | [] => none

/-- Reads a date, a time, or both. -/
def dateTime (cs : List Char) : Option (Tree × List Char) :=
  match date cs with
  | some (d, rest) =>
    let (t, rest) := (timeAfterDate rest).getD ("", rest)
    some (.date (d ++ t), rest)
  | none => (time cs).map fun (t, rest) => (.date t, rest)

/-- Reads a number, date or time. -/
def number (cs : List Char) : Option (Tree × List Char) :=
  dateTime cs <|> float cs <|> special cs <|> integer cs

end Preflight.Toml
