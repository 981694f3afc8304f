import Preflight.Text.Hex
import Preflight.Yaml.Spot
/-!
The scalars of a YAML text: plain ones, quoted ones, and blocks of lines. Each is read from the
place where it starts; what is read is given with the place and the text that follow.
-/

namespace Preflight.Yaml

/-- A scalar that was read, and what follows it. -/
structure Scanned where
  text : String
  spot : Spot
  rest : List Char
  /-- Whether the text that follows starts on a later line than the scalar ends on. -/
  onNewLine : Bool

/-- A scalar from its characters, the last first. -/
def Scanned.of (out : List Char) (p : Spot) (rest : List Char) (onNewLine : Bool) : Scanned :=
  ⟨String.ofList out.reverse, p, rest, onNewLine⟩

/-! ## Plain scalars -/

/-- A character that ends a plain scalar inside brackets. -/
def isFlowMark (c : Char) : Bool :=
  c == ',' || c == '[' || c == ']' || c == '{' || c == '}'

/-- Whether a text goes on with a character that may not follow a colon inside brackets. -/
def atColonTrap : List Char → Bool
  | c :: _ => isFlowMark c || c == '?'
  | [] => false

/-- Reads a plain scalar. `flow` says whether brackets are open; otherwise a line that starts
before column `indent` ends the scalar. -/
def plain (flow : Bool) (indent : Nat) (p : Spot) (gap : Gap) (out : List Char) :
    List Char → Option Scanned
  | [] => some (.of out p [] gap.isBreak)
  | '\r' :: '\n' :: cs => plain flow indent (p.newLine 2) (gap.lineBreak '\n') out cs
  | c :: cs =>
    if isBlank c then
      if gap.isBreak && p.column < indent && c == '\t' then none
      else plain flow indent p.next (gap.blank c) out cs
    else if isBreak c then plain flow indent (p.newLine 1) (gap.lineBreak c) out cs
    else
      let afterGap := match gap with
        | .none => false
        | _ => true
      -- A lesser indent, a comment or the mark of a document ends the scalar.
      if afterGap && ((!flow && p.column < indent) || c == '#' ||
          (p.column == 0 && atDocumentMark (c :: cs))) then
        some (.of out p (c :: cs) gap.isBreak)
      else if flow && c == ':' && atColonTrap cs then none
      -- So does a colon that makes it a key, and a bracket or comma around it.
      else if (c == ':' && atGap cs) || (flow && isFlowMark c) then
        some (.of out p (c :: cs) gap.isBreak)
      else plain flow indent p.next .none (c :: (gap.folded ++ out)) cs

/-! ## Quoted scalars -/

/-- The character that a letter after a backslash stands for. -/
def escapeLetter? (c : Char) : Option Char :=
  match c with
  | '0' => some '\x00'
  | 'a' => some '\x07'
  | 'b' => some '\x08'
  | 't' => some '\t'
  | '\t' => some '\t'
  | 'n' => some '\n'
  | 'v' => some '\x0b'
  | 'f' => some '\x0c'
  | 'r' => some '\r'
  | 'e' => some '\x1b'
  | ' ' => some ' '
  | '"' => some '"'
  | '/' => some '/'
  | '\\' => some '\\'
  | 'N' => some '\x85'
  | '_' => some '\xa0'
  | 'L' => some '\u2028'
  | 'P' => some '\u2029'
  | _ => none

/-- Reads a quoted scalar after its opening quote; `double` says which of the two quotes it is. -/
def quotedScalar (double : Bool) (p : Spot) (gap : Gap) (out : List Char) :
    List Char → Option Scanned
  | [] => none
  | '\r' :: '\n' :: cs => quotedScalar double (p.newLine 2) (gap.lineBreak '\n') out cs
  | c :: cs =>
    if isBlank c then quotedScalar double p.next (gap.blank c) out cs
    else if isBreak c then quotedScalar double (p.newLine 1) (gap.lineBreak c) out cs
    else if p.column == 0 && atDocumentMark (c :: cs) then none
    else
      let out := gap.folded ++ out
      if !double && c == '\x27' then
        match cs with
        | '\x27' :: cs => quotedScalar double (p.move 2) .none ('\x27' :: out) cs
        | cs => some (.of out p.next cs false)
      else if double && c == '"' then some (.of out p.next cs false)
      else if double && c == '\\' then
        match cs with
        -- An escaped line break leaves nothing, and the blanks of the next line do not count.
        | '\r' :: '\n' :: cs => quotedScalar double (p.next.newLine 2) (.breaks [] []) out cs
        | 'x' :: a :: b :: cs => do
          let e ← Text.hexChar? [a, b]
          quotedScalar double (p.move 4) .none (e :: out) cs
        | 'u' :: a :: b :: c :: d :: cs => do
          let e ← Text.hexChar? [a, b, c, d]
          quotedScalar double (p.move 6) .none (e :: out) cs
        | 'U' :: a :: b :: c :: d :: e :: f :: g :: h :: cs => do
          let e ← Text.hexChar? [a, b, c, d, e, f, g, h]
          quotedScalar double (p.move 10) .none (e :: out) cs
        | e :: cs =>
          if isBreak e then quotedScalar double (p.next.newLine 1) (.breaks [] []) out cs
          else do
            let e ← escapeLetter? e
            quotedScalar double (p.move 2) .none (e :: out) cs
        | [] => none
      else quotedScalar double p.next .none (c :: out) cs

/-! ## Block scalars -/

/-- What becomes of the line breaks at the end of a block. -/
inductive Chomp where
  | strip
  | clip
  | keep
  deriving DecidableEq, Repr

/-- What the first line of a block scalar says. -/
structure BlockHeader where
  literal : Bool
  chomp : Chomp
  /-- The columns by which the block is indented further than what it stands in, if given. -/
  indent : Option Nat

/-- What has been read of a block scalar; texts have their last character first. -/
structure Block where
  out : List Char
  /-- The break that ended the last line, and the empty lines since. -/
  leading : List Char
  trailing : List Char
  /-- Whether the last line started with a blank. -/
  indented : Bool
  /-- The column at which lines start, once known. -/
  column : Option Nat
  /-- The furthest column reached by the blanks of empty lines. -/
  reached : Nat

/-- A block at the first character of one of its lines: breaks before the line are folded or kept. -/
def Block.line (literal : Bool) (b : Block) (c : Char) : Block :=
  let folds := !literal && b.leading == ['\n'] && !b.indented && !isBlank c
  let joint := if folds then (if b.trailing.isEmpty then [' '] else []) else b.leading
  { b with out := c :: (b.trailing ++ joint ++ b.out), leading := [], trailing := [],
           indented := isBlank c }

/-- A finished block. -/
def Block.text (chomp : Chomp) (b : Block) : List Char :=
  match chomp with
  | .strip => b.out
  | .clip => b.leading ++ b.out
  | .keep => b.trailing ++ b.leading ++ b.out

/-- The column of a block's lines when it is first needed: not given, it is the furthest reached by
blanks so far, and at least `least`. -/
def Block.start (least : Nat) (b : Block) (p : Spot) : Nat :=
  b.column.getD (max (max b.reached p.column) least)

/-- Reads the lines of a block scalar. `inLine` says whether a line has started; before that, blanks
up to the block's column and empty lines are passed over. -/
def blockLines (h : BlockHeader) (least : Nat) (inLine : Bool) (b : Block) (p : Spot) :
    List Char → Option Scanned
  | [] => some (.of (b.text h.chomp) p [] true)
  | '\r' :: '\n' :: cs =>
    if inLine then blockLines h least false { b with leading := ['\n'] } (p.newLine 2) cs
    else
      blockLines h least false
        { b with trailing := '\n' :: b.trailing, reached := max b.reached p.column }
        (p.newLine 2) cs
  | c :: cs =>
    if isBreak c then
      if inLine then blockLines h least false { b with leading := [breakText c] } (p.newLine 1) cs
      else
        blockLines h least false
          { b with trailing := breakText c :: b.trailing, reached := max b.reached p.column }
          (p.newLine 1) cs
    else if inLine then blockLines h least true { b with out := c :: b.out } p.next cs
    else if c == ' ' && b.column.all (p.column < ·) then
      blockLines h least false b p.next cs
    else if c == '\t' && b.column.all (p.column < ·) then none
    else
      -- The first line that is not empty settles the column of all lines.
      let column := b.start least p
      if p.column == column then
        blockLines h least true ({ b with column := some column }.line h.literal c) p.next cs
      else some (.of (b.text h.chomp) p (c :: cs) true)

/-- The digit of an indent. -/
def indentDigit? (c : Char) : Option Nat :=
  if '0' ≤ c ∧ c ≤ '9' then some (c.toNat - '0'.toNat) else none

/-- A sign that says what becomes of the breaks at the end. -/
def chomp? (c : Char) : Option Chomp :=
  if c == '+' then some .keep else if c == '-' then some .strip else none

/-- The signs after the mark of a block scalar, in either order, and what follows. An indent of
zero is refused. -/
def blockHeader (literal : Bool) (cs : List Char) : Option (BlockHeader × Nat × List Char) :=
  match cs with
  | [] => some (⟨literal, .clip, none⟩, 0, [])
  | c :: cs =>
    match chomp? c, indentDigit? c with
    | some chomp, _ =>
      match cs with
      | [] => some (⟨literal, chomp, none⟩, 1, [])
      | d :: ds =>
        match indentDigit? d with
        | some 0 => none
        | some n => some (⟨literal, chomp, some n⟩, 2, ds)
        | none => some (⟨literal, chomp, none⟩, 1, d :: ds)
    | none, some 0 => none
    | none, some n =>
      match cs with
      | [] => some (⟨literal, .clip, some n⟩, 1, [])
      | d :: ds =>
        match chomp? d with
        | some chomp => some (⟨literal, chomp, some n⟩, 2, ds)
        | none => some (⟨literal, .clip, some n⟩, 1, d :: ds)
    | none, none => some (⟨literal, .clip, none⟩, 0, c :: cs)

/-- Passes over blanks and a comment to the end of the line; anything else is refused. -/
def restOfLine (comment : Bool) (p : Spot) : List Char → Option (Spot × List Char)
  | [] => some (p, [])
  | '\r' :: '\n' :: cs => some (p.newLine 2, cs)
  | c :: cs =>
    if isBreak c then some (p.newLine 1, cs)
    else if comment || isBlank c then restOfLine comment p.next cs
    else if c == '#' then restOfLine true p.next cs
    else none

/-- Reads a block scalar after its mark; `indent` is the column of what it stands in, or `-1`. -/
def blockScalar (literal : Bool) (indent : Int) (p : Spot) (cs : List Char) : Option Scanned := do
  let (h, width, cs) ← blockHeader literal cs
  let (p, cs) ← restOfLine false (p.move width) cs
  let column := h.indent.map fun (n : Nat) => if 0 ≤ indent then indent.toNat + n else n
  blockLines h (max (indent + 1).toNat 1) false ⟨[], [], [], false, column, 0⟩ p cs

end Preflight.Yaml
