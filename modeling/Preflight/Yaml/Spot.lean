/-!
Places in a YAML text, the characters that separate its tokens, and the gaps between the words of a
scalar. A line break inside a scalar is folded into a blank unless more breaks follow it.
-/

namespace Preflight.Yaml

/-- A place in a text: characters before it, lines before it, and characters before it on its
line. -/
structure Spot where
  index : Nat
  line : Nat
  column : Nat
  deriving Repr

/-- The start of a text. -/
def Spot.start : Spot :=
  ⟨0, 0, 0⟩

/-- The place after one more character of the line. -/
def Spot.next (p : Spot) : Spot :=
  ⟨p.index + 1, p.line, p.column + 1⟩

/-- The place after some more characters of the line. -/
def Spot.move (p : Spot) (n : Nat) : Spot :=
  ⟨p.index + n, p.line, p.column + n⟩

/-- The place after a line break of `width` characters. -/
def Spot.newLine (p : Spot) (width : Nat) : Spot :=
  ⟨p.index + width, p.line + 1, 0⟩

/-- A blank or a tab. -/
def isBlank (c : Char) : Bool :=
  c == ' ' || c == '\t'

/-- A character that ends a line. -/
def isBreak (c : Char) : Bool :=
  c == '\n' || c == '\r' || c == '\x85' || c == '\u2028' || c == '\u2029'

/-- A line break as it counts in a scalar: only the two separators of Unicode stay as they are. -/
def breakText (c : Char) : Char :=
  if c == '\u2028' || c == '\u2029' then c else '\n'

/-- Whether a text is at its end, or starts with a blank or a line break. -/
def atGap : List Char → Bool
  | [] => true
  | c :: _ => isBlank c || isBreak c

/-- Whether a text is at its end, or starts with a line break. -/
def atLineEnd : List Char → Bool
  | [] => true
  | c :: _ => isBreak c

/-- Whether a text starts with the mark between documents or the mark at the end of one. -/
def atDocumentMark : List Char → Bool
  | '-' :: '-' :: '-' :: cs => atGap cs
  | '.' :: '.' :: '.' :: cs => atGap cs
  | _ => false

/-- A letter or digit of ASCII, a hyphen or an underscore. -/
def isWordChar (c : Char) : Bool :=
  c.isAlphanum || c == '-' || c == '_'

/-- What separates two words of a scalar, each part with the last character first. -/
inductive Gap where
  | none
  /-- Blanks on one line. -/
  | blanks (text : List Char)
  /-- A line break, and the further breaks after it. An escaped line break counts as empty. -/
  | breaks (first : List Char) (more : List Char)

/-- A gap and one more blank; blanks after a line break do not count. -/
def Gap.blank (c : Char) : Gap → Gap
  | .none => .blanks [c]
  | .blanks text => .blanks (c :: text)
  | .breaks first more => .breaks first more

/-- A gap and one more line break; blanks before the first do not count. -/
def Gap.lineBreak (c : Char) : Gap → Gap
  | .breaks first more => .breaks first (breakText c :: more)
  | _ => .breaks [breakText c] []

/-- Whether a gap reaches over the end of a line. -/
def Gap.isBreak : Gap → Bool
  | .breaks .. => true
  | _ => false

/-- What a gap leaves in the scalar, the last character first. -/
def Gap.folded : Gap → List Char
  | .none => []
  | .blanks text => text
  | .breaks ['\n'] [] => [' ']
  | .breaks ['\n'] more => more
  | .breaks first more => more ++ first

end Preflight.Yaml
