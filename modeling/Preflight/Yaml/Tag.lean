import Preflight.Yaml.Scalar
import Preflight.Yaml.Token
/-!
Names in a YAML text: anchors, tags, and the directives in front of a document.
-/

namespace Preflight.Yaml

/-- The characters a text starts with that satisfy `p`, and what follows them. -/
def spanChars (p : Char → Bool) (cs : List Char) : List Char × List Char :=
  (cs.takeWhile p, cs.dropWhile p)

/-- Whether the character after an anchor's name may stand there. -/
def endsAnchor : List Char → Bool
  | [] => true
  | c :: _ =>
    isBlank c || isBreak c || c == '?' || c == ':' || c == ',' || c == ']' || c == '}' ||
      c == '%' || c == '@' || c == '\x60'

/-- The name of an anchor or alias, and what follows. -/
def anchorName (cs : List Char) : Option (List Char × List Char) :=
  let (name, rest) := spanChars isWordChar cs
  if name.isEmpty || !endsAnchor rest then none else some (name, rest)

/-- A character of a tag; inside angle brackets three more may stand. -/
def isTagChar (verbatim : Bool) (c : Char) : Bool :=
  isWordChar c || c == ';' || c == '/' || c == '?' || c == ':' || c == '@' || c == '&' ||
    c == '=' || c == '+' || c == '$' || c == '.' || c == '!' || c == '~' || c == '*' ||
    c == '\x27' || c == '(' || c == ')' || (verbatim && (c == ',' || c == '[' || c == ']'))

/-- How many octets follow the first of an encoded character, and the bits the first one gives. -/
def leadOctet? (n : Nat) : Option (Nat × Nat) :=
  if n < 0x80 then some (0, n)
  else if 0xC0 ≤ n ∧ n < 0xE0 then some (1, n - 0xC0)
  else if 0xE0 ≤ n ∧ n < 0xF0 then some (2, n - 0xE0)
  else if 0xF0 ≤ n ∧ n < 0xF8 then some (3, n - 0xF0)
  else none

/-- The text of a tag with its escapes decoded, the characters it takes, and what follows. `open_`
holds how many octets of an escaped character are still due and the bits read so far. -/
def tagText (verbatim : Bool) (open_ : Option (Nat × Nat)) (width : Nat) (out : List Char) :
    List Char → Option (List Char × Nat × List Char)
  | '%' :: a :: b :: cs => do
    let n := (← Text.hexDigit? a) * 16 + (← Text.hexDigit? b)
    let (due, bits) ← match open_ with
      | none => leadOctet? n
      | some (due, bits) =>
        if 0x80 ≤ n ∧ n < 0xC0 then some (due - 1, bits * 64 + (n - 0x80)) else none
    if due = 0 then tagText verbatim none (width + 3) (Char.ofNat bits :: out) cs
    else tagText verbatim (some (due, bits)) (width + 3) out cs
  | c :: cs =>
    if open_.isSome || c == '%' then none
    else if isTagChar verbatim c then tagText verbatim none (width + 1) (c :: out) cs
    else some (out.reverse, width, c :: cs)
  | [] => if open_.isSome then none else some (out.reverse, width, [])

/-- A handle: an exclamation mark, or a word between two of them; and what follows. -/
def tagHandle : List Char → Option (List Char × List Char)
  | '!' :: cs =>
    let (word, rest) := spanChars isWordChar cs
    match rest with
    | '!' :: rest => some ('!' :: (word ++ ['!']), rest)
    | rest => some ('!' :: word, rest)
  | _ => none

/-- A tag, the characters it takes, and what follows. -/
def tag (flow : Bool) (cs : List Char) : Option (Token × Nat × List Char) := do
  let (handle, suffix, width, rest) ← (match cs with
    | '!' :: '<' :: cs => do
      let (suffix, width, rest) ← tagText true none 0 [] cs
      match rest with
      | '>' :: rest => if width = 0 then none else some ([], suffix, width + 3, rest)
      | _ => none
    | cs => do
      let (handle, rest) ← tagHandle cs
      if handle.length > 1 && handle.getLast? == some '!' then
        let (suffix, width, rest) ← tagText false none 0 [] rest
        if width = 0 then none else some (handle, suffix, handle.length + width, rest)
      else
        let (suffix, width, rest) ← tagText false none 0 (handle.drop 1).reverse rest
        if suffix.isEmpty then some ([], ['!'], handle.length + width, rest)
        else some (['!'], suffix, handle.length + width, rest))
  if atGap rest || (flow && rest.head? == some ',') then
    return (.tag (String.ofList handle) (String.ofList suffix), width, rest)
  else none

/-- A number in a directive: at most nine digits, and what follows them. -/
def directiveNumber (cs : List Char) : Option (Nat × Nat × List Char) :=
  let (digits, rest) := spanChars Char.isDigit cs
  if digits.isEmpty || digits.length > 9 then none
  else some (digits.foldl (fun n c => n * 10 + (c.toNat - '0'.toNat)) 0, digits.length, rest)

/-- A directive after its percent sign, the characters it takes, and what follows. -/
def directive (cs : List Char) : Option (Token × Nat × List Char) := do
  let (name, rest) := spanChars isWordChar cs
  if name.isEmpty || !atGap rest then none
  let (blanks, rest) := spanChars isBlank rest
  let before := name.length + blanks.length
  if name = "YAML".toList then
    let (major, w, rest) ← directiveNumber rest
    match rest with
    | '.' :: rest =>
      let (minor, w', rest) ← directiveNumber rest
      return (.versionDirective major minor, before + w + 1 + w', rest)
    | _ => none
  else if name = "TAG".toList then
    let (handle, rest) ← tagHandle rest
    if handle.length > 1 && handle.getLast? != some '!' then none
    let (gap, rest) := spanChars isBlank rest
    if gap.isEmpty then none
    let (expansion, width, rest) ← tagText true none 0 [] rest
    if width = 0 || !atGap rest then none
    return (.tagDirective (String.ofList handle) (String.ofList expansion),
      before + handle.length + gap.length + width, rest)
  else none

end Preflight.Yaml
