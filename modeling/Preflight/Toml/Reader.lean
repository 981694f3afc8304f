import Preflight.Toml.Number
import Preflight.Toml.Section
/-!
Reading TOML. A document is a list of lines: keys with values, and headers that say to which table
the keys after them belong. Tables come out with their names ascending.
-/

namespace Preflight.Toml

/-! ## Values -/

/-- Passes over blanks, line breaks and comments; `comment` says whether one is open. -/
def skipLines (comment : Bool) : List Char → List Char
  | [] => []
  | '\r' :: '\n' :: cs => skipLines false cs
  | c :: cs =>
    if c == '\n' then skipLines false cs
    else if comment then if isShown c then skipLines true cs else c :: cs
    else if isBlank c then skipLines false cs
    else if c == '#' then skipLines true cs
    else c :: cs

mutual

/-- Reads a value in which arrays and tables stand at most `depth` deep. Every call but the first
follows a character, so `fuel` is twice the length of the text. -/
def value (fuel depth : Nat) (cs : List Char) : Option (Tree × List Char) :=
  match fuel with
  | 0 => none
  | fuel + 1 =>
    match cs with
    | '[' :: cs =>
      if depth = 0 then none
      else (items fuel (depth - 1) cs).map fun (ts, rest) => (.list ts, rest)
    | '{' :: cs =>
      if depth = 0 then none
      else
        match skipBlanks cs with
        | '}' :: cs => some (.map [], cs)
        | cs => (pairs fuel (depth - 1) [] cs).map fun (es, rest) =>
          (treeOfEntries (entryTrees es), rest)
    | 't' :: 'r' :: 'u' :: 'e' :: cs => some (.bool true, cs)
    | 'f' :: 'a' :: 'l' :: 's' :: 'e' :: cs => some (.bool false, cs)
    | c :: _ =>
      if c == '"' || c == '\x27' then (quotedText cs).map fun (s, rest) => (.text s, rest)
      else number cs
    | [] => none

/-- Reads the items of an array after its bracket or a comma, up to its end. -/
def items (fuel depth : Nat) (cs : List Char) : Option (List Tree × List Char) :=
  match fuel with
  | 0 => none
  | fuel + 1 =>
    match skipLines false cs with
    | ']' :: cs => some ([], cs)
    | cs => do
      let (t, cs) ← value fuel depth cs
      match skipLines false cs with
      | ',' :: cs =>
        let (ts, cs) ← items fuel depth cs
        return (t :: ts, cs)
      | ']' :: cs => return ([t], cs)
      | _ => none

/-- Reads the keys and values of a table in braces, up to its end. It stands on one line, and no
comma may stand before its end. -/
def pairs (fuel depth : Nat) (es : Entries) (cs : List Char) : Option (Entries × List Char) :=
  match fuel with
  | 0 => none
  | fuel + 1 => do
    let (k, cs) ← key cs
    let cs ← expect '=' cs
    let (t, cs) ← value fuel depth (skipBlanks cs)
    let es ← addKey k t .header es
    match skipBlanks cs with
    | ',' :: cs => pairs fuel depth es cs
    | '}' :: cs => return (es, cs)
    | _ => none

end

/-! ## Documents -/

/-- What has been read of a document: all its tables, and the path of the one being filled. -/
structure Draft where
  entries : Entries
  path : List String

/-- Reads the rest of a header after its brackets, and enters it. -/
def header (isElement : Bool) (d : Draft) (cs : List Char) : Option (Draft × List Char) := do
  let (k, cs) ← key cs
  let cs ← expect ']' cs
  let cs ← if isElement then expect ']' cs else some cs
  let rest ← restOfLine? cs
  return (⟨← addHeader isElement k d.entries, k⟩, rest)

/-- Reads a key and its value, and enters them into the table being filled. -/
def keyValue (d : Draft) (cs : List Char) : Option (Draft × List Char) := do
  let (k, cs) ← key cs
  let cs ← expect '=' cs
  let cs := skipBlanks cs
  let (t, cs) ← value (2 * cs.length + 2) maxDepth cs
  let rest ← restOfLine? cs
  return (⟨← change false (addKey k t) d.path .header d.entries, d.path⟩, rest)

/-- Reads the lines of a document; each takes a character, so `fuel` characters allow as many. -/
def lines : Nat → Draft → List Char → Option Draft
  | 0, d, cs => if (skipBlanks cs).isEmpty then some d else none
  | fuel + 1, d, cs =>
    match skipBlanks cs with
    | [] => some d
    | '[' :: '[' :: cs => do
      let (d, cs) ← header true d cs
      lines fuel d cs
    | '[' :: cs => do
      let (d, cs) ← header false d cs
      lines fuel d cs
    | c :: cs =>
      if c == '#' || c == '\n' || c == '\r' then do
        lines fuel d (← restOfLine? (c :: cs))
      else do
        let (d, cs) ← keyValue d (c :: cs)
        lines fuel d cs

/-- The tree of a TOML text. A mark of the byte order in front is passed over. -/
def parse? (text : String) : Option Tree :=
  let cs := match text.toList with
    | '\ufeff' :: cs => cs
    | cs => cs
  (lines cs.length ⟨[], []⟩ cs).map fun d => treeOfEntries (entryTrees d.entries)

end Preflight.Toml
