import Preflight.Text.Hex
/-!
Texts in a TOML document: quoted in one of four ways, and keys. Each reader takes the characters
after the opening quote and gives the text with what follows it.
-/

namespace Preflight.Toml

/-- A way to read a value from the front of a text. -/
abbrev Scan (α : Type) := List Char → Option (α × List Char)

/-- A blank within a line. -/
def isBlank (c : Char) : Bool :=
  c == ' ' || c == '\t'

/-- A text without the blanks in front. -/
def skipBlanks (cs : List Char) : List Char :=
  cs.dropWhile isBlank

/-- A character that may stand in a comment or a quoted text: no control but the tab. -/
def isShown (c : Char) : Bool :=
  c == '\t' || (0x20 ≤ c.toNat && c.toNat != 0x7F)

/-- What follows a line break, if the text starts with one. -/
def lineBreak? : List Char → Option (List Char)
  | '\n' :: cs => some cs
  | '\r' :: '\n' :: cs => some cs
  | _ => none

/-- What follows the end of a line, if the text is at one. -/
def lineEnd? : List Char → Option (List Char)
  | [] => some []
  | cs => lineBreak? cs

/-- What follows a line that holds nothing more but a comment. -/
def restOfLine? (cs : List Char) : Option (List Char) :=
  match skipBlanks cs with
  | '#' :: cs => lineEnd? (cs.dropWhile isShown)
  | cs => lineEnd? cs

/-- The character that a letter after a backslash stands for. -/
def escapeLetter? (c : Char) : Option Char :=
  match c with
  | 'b' => some '\x08'
  | 't' => some '\t'
  | 'n' => some '\n'
  | 'f' => some '\x0c'
  | 'r' => some '\r'
  | '"' => some '"'
  | '\\' => some '\\'
  | _ => none

/-- Puts a character in front of a text that was read. -/
def consTo (c : Char) (r : List Char × List Char) : List Char × List Char :=
  (c :: r.1, r.2)

/-- Reads a text between double quotes on one line. -/
def basic : Scan (List Char)
  | [] => none
  | '"' :: cs => some ([], cs)
  | '\\' :: 'u' :: a :: b :: c :: d :: cs => do
    return consTo (← Text.hexChar? [a, b, c, d]) (← basic cs)
  | '\\' :: 'U' :: a :: b :: c :: d :: e :: f :: g :: h :: cs => do
    return consTo (← Text.hexChar? [a, b, c, d, e, f, g, h]) (← basic cs)
  | '\\' :: c :: cs => do return consTo (← escapeLetter? c) (← basic cs)
  | c :: cs => if isShown c && c != '\\' then (basic cs).map (consTo c) else none

/-- Reads a text between single quotes on one line. -/
def literal : Scan (List Char)
  | [] => none
  | c :: cs =>
    if c == '\x27' then some ([], cs)
    else if isShown c then (literal cs).map (consTo c)
    else none

/-- Whether only blanks stand before the end of the line. -/
def atBlankLineEnd (cs : List Char) : Bool :=
  (lineBreak? (skipBlanks cs)).isSome

/-- Reads a text between triple double quotes. Up to two quotes may stand before the closing three.
After a backslash at the end of a line, `trim` says that blanks and line breaks are passed over. -/
def longBasic (trim : Bool) : Scan (List Char)
  | [] => none
  | '"' :: '"' :: '"' :: '"' :: '"' :: cs => some (['"', '"'], cs)
  | '"' :: '"' :: '"' :: '"' :: cs => some (['"'], cs)
  | '"' :: '"' :: '"' :: cs => some ([], cs)
  | '\r' :: '\n' :: cs =>
    if trim then longBasic true cs else (longBasic false cs).map (consTo '\n')
  | '\\' :: 'u' :: a :: b :: c :: d :: cs => do
    return consTo (← Text.hexChar? [a, b, c, d]) (← longBasic false cs)
  | '\\' :: 'U' :: a :: b :: c :: d :: e :: f :: g :: h :: cs => do
    return consTo (← Text.hexChar? [a, b, c, d, e, f, g, h]) (← longBasic false cs)
  | '\\' :: c :: cs =>
    if atBlankLineEnd (c :: cs) then longBasic true (c :: cs)
    else do return consTo (← escapeLetter? c) (← longBasic false cs)
  | c :: cs =>
    if trim && (isBlank c || c == '\n') then longBasic true cs
    else if c == '\n' || (isShown c && c != '\\') then (longBasic false cs).map (consTo c)
    else none

/-- Reads a text between triple single quotes. -/
def longLiteral : Scan (List Char)
  | [] => none
  | '\x27' :: '\x27' :: '\x27' :: '\x27' :: '\x27' :: cs => some (['\x27', '\x27'], cs)
  | '\x27' :: '\x27' :: '\x27' :: '\x27' :: cs => some (['\x27'], cs)
  | '\x27' :: '\x27' :: '\x27' :: cs => some ([], cs)
  | '\r' :: '\n' :: cs => (longLiteral cs).map (consTo '\n')
  | c :: cs => if c == '\n' || isShown c then (longLiteral cs).map (consTo c) else none

/-- A text without a line break in front. -/
def dropLineBreak (cs : List Char) : List Char :=
  (lineBreak? cs).getD cs

/-- Reads a text in any of the four ways. -/
def quotedText (cs : List Char) : Option (String × List Char) :=
  let read := match cs with
    | '"' :: '"' :: '"' :: cs => longBasic false (dropLineBreak cs)
    | '"' :: cs => basic cs
    | '\x27' :: '\x27' :: '\x27' :: cs => longLiteral (dropLineBreak cs)
    | '\x27' :: cs => literal cs
    | _ => none
  read.map fun (s, rest) => (String.ofList s, rest)

/-- A character of a key without quotes. -/
def isBareChar (c : Char) : Bool :=
  c.isAlphanum || c == '-' || c == '_'

/-- Reads one part of a key. -/
def keyPart (cs : List Char) : Option (String × List Char) :=
  match cs with
  | '"' :: cs => (basic cs).map fun (s, rest) => (String.ofList s, rest)
  | '\x27' :: cs => (literal cs).map fun (s, rest) => (String.ofList s, rest)
  | cs =>
    let word := cs.takeWhile isBareChar
    if word.isEmpty then none else some (String.ofList word, cs.dropWhile isBareChar)

/-- Reads the parts of a key; each takes a character, so `fuel` characters allow as many. -/
def keyParts : Nat → Scan (List String)
  | 0, _ => none
  | fuel + 1, cs => do
    let (part, cs) ← keyPart (skipBlanks cs)
    match skipBlanks cs with
    | '.' :: cs =>
      let (parts, cs) ← keyParts fuel cs
      return (part :: parts, cs)
    | cs => return ([part], cs)

/-- How deep tables and arrays may be nested, less one. -/
def maxDepth : Nat := 79

/-- Reads a key: parts between points, fewer than the limit on nesting. -/
def key (cs : List Char) : Option (List String × List Char) := do
  let (parts, rest) ← keyParts cs.length cs
  if parts.length ≤ maxDepth then return (parts, rest) else none

end Preflight.Toml
