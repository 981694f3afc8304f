import Preflight.Yaml.Tag
/-!
From a YAML text to its tokens. A colon may turn what stands before it on its line into a key, so
tokens wait in a queue as long as a key may still start before them. Tokens are let go as early as
that allows: where the text breaks off with an error, all that precede it are still given.
-/

namespace Preflight.Yaml

/-- A place at which a key may start, if a colon follows it on the same line. -/
structure KeyStart where
  /-- Whether nothing but a key may stand there. -/
  required : Bool
  /-- The number of the token that the key starts with. -/
  token : Nat
  spot : Spot
  deriving Repr

/-- What is known between two tokens. -/
structure Lexer where
  spot : Spot
  rest : List Char
  /-- The column of the innermost block, or `-1`, and those of the blocks around it. -/
  indent : Int
  outerIndents : List Int
  /-- The key that may have started inside the innermost brackets, and those outside of them. -/
  keyStart : Option KeyStart
  outerKeyStarts : List (Option KeyStart)
  /-- Whether a key may start here. -/
  keyAllowed : Bool
  /-- The tokens that wait. -/
  queue : List Token
  /-- How many tokens were let go before them. -/
  released : Nat

namespace Lexer

/-- Whether brackets are open. -/
def inFlow (l : Lexer) : Bool :=
  !l.outerKeyStarts.isEmpty

/-- Adds a token to the queue. -/
def push (l : Lexer) (t : Token) : Lexer :=
  { l with queue := l.queue ++ [t] }

/-- Puts a token before the one of a number. -/
def insertAt (l : Lexer) (number : Nat) (t : Token) : Lexer :=
  let at_ := number - l.released
  { l with queue := l.queue.take at_ ++ t :: l.queue.drop at_ }

/-- Passes over some characters of the line. -/
def skip (l : Lexer) (n : Nat) : Lexer :=
  { l with spot := l.spot.move n, rest := l.rest.drop n }

/-- Ends the blocks that are indented further than a column. -/
def dedentFrom (column : Int) (l : Lexer) : List Int → Lexer
  | [] => l
  | outer :: outers =>
    if column < l.indent then
      dedentFrom column { l.push .blockEnd with indent := outer, outerIndents := outers } outers
    else l

/-- Ends the blocks that are indented further than a column; brackets keep blocks open. -/
def dedent (column : Int) (l : Lexer) : Lexer :=
  if l.inFlow then l else l.dedentFrom column l.outerIndents

/-- Starts a block at a column if it is indented further than the innermost one. The token that
starts it goes before the one of a number, or to the end of the queue. -/
def openBlock (column : Nat) (number : Option Nat) (t : Token) (l : Lexer) : Lexer :=
  if !l.inFlow && l.indent < column then
    let l := { l with indent := column, outerIndents := l.indent :: l.outerIndents }
    match number with
    | some n => l.insertAt n t
    | none => l.push t
  else l

/-- Gives up the key that may have started, unless it must be one. -/
def dropKey (l : Lexer) : Option Lexer :=
  if l.keyStart.any (·.required) then none else some { l with keyStart := none }

/-- Notes that a key may start here. -/
def startKey (l : Lexer) : Option Lexer :=
  if l.keyAllowed then do
    let l ← l.dropKey
    let required := !l.inFlow && l.indent == l.spot.column
    return { l with keyStart := some ⟨required, l.released + l.queue.length, l.spot⟩ }
  else some l

/-- Whether what may be a key has become too long: a key ends on its line, and within 1024
characters. -/
def isStale (p : Spot) (k : KeyStart) : Bool :=
  k.spot.line < p.line || k.spot.index + 1024 < p.index

/-- Gives up the keys that have become too long, unless one must be a key. -/
def dropStale (l : Lexer) : Option Lexer :=
  if (l.keyStart :: l.outerKeyStarts).any (·.any fun k => k.required && isStale l.spot k) then none
  else
    let keep := fun (k : Option KeyStart) => k.filter fun k => !isStale l.spot k
    some { l with keyStart := keep l.keyStart, outerKeyStarts := l.outerKeyStarts.map keep }

/-- Passes over blanks, comments and line breaks. Tabs count as blanks where no key may start.
Outside of brackets a key may start on each new line. A mark of the byte order may stand in front of
the text; it takes the first column. -/
def toNext (flow comment allowed : Bool) (p : Spot) : List Char → Bool × Spot × List Char
  | [] => (allowed, p, [])
  | '\r' :: '\n' :: cs => toNext flow false (allowed || !flow) (p.newLine 2) cs
  | c :: cs =>
    if isBreak c then toNext flow false (allowed || !flow) (p.newLine 1) cs
    else if comment || c == ' ' || (c == '\t' && (flow || !allowed)) ||
        (c == '\ufeff' && p.index == 0) then
      toNext flow comment allowed p.next cs
    else if c == '#' then toNext flow true allowed p.next cs
    else (allowed, p, c :: cs)

/-- Takes a scalar that was read. -/
def scanned (l : Lexer) (isPlain : Bool) (s : Scanned) : Lexer :=
  { l.push (.scalar s.text isPlain) with spot := s.spot, rest := s.rest }

/-- An opening bracket. -/
def openFlow (t : Token) (l : Lexer) : Option Lexer := do
  let l ← l.startKey
  let l := { l with keyStart := none, outerKeyStarts := l.keyStart :: l.outerKeyStarts,
                    keyAllowed := true }
  return (l.skip 1).push t

/-- A closing bracket. -/
def closeFlow (t : Token) (l : Lexer) : Option Lexer := do
  let l ← l.dropKey
  let l := match l.outerKeyStarts with
    | [] => l
    | k :: ks => { l with keyStart := k, outerKeyStarts := ks }
  return ({ l with keyAllowed := false }.skip 1).push t

/-- The mark of an entry, or of a key that is written out. -/
def mark (opens t : Token) (allowed : Bool) (l : Lexer) : Option Lexer := do
  if !l.inFlow && !l.keyAllowed then none
  let l := l.openBlock l.spot.column none opens
  let l ← l.dropKey
  return ({ l with keyAllowed := allowed }.skip 1).push t

/-- The mark of a value. -/
def valueMark (l : Lexer) : Option Lexer :=
  match l.keyStart with
  | some k =>
    -- What was read since the key started becomes the key, and opens a block where it started.
    let l := l.insertAt k.token .key
    let l := l.openBlock k.spot.column (some k.token) .blockMapStart
    some (({ l with keyStart := none, keyAllowed := false }.skip 1).push .value)
  | none => do
    if !l.inFlow && !l.keyAllowed then none
    let l := l.openBlock l.spot.column none .blockMapStart
    return ({ l with keyAllowed := !l.inFlow }.skip 1).push .value

/-- Ends all blocks, before a directive or the mark of a document. -/
def leaveBlocks (l : Lexer) : Option Lexer := do
  let l ← (l.dedent (-1)).dropKey
  return { l with keyAllowed := false }

/-- A directive. -/
def takeDirective (l : Lexer) : Option Lexer := do
  let l ← l.leaveBlocks
  let (t, width, rest) ← directive (l.rest.drop 1)
  let (spot, rest) ← restOfLine false (l.spot.move (width + 1)) rest
  return { l.push t with spot, rest }

/-- An anchor or alias, after its mark. -/
def takeAnchor (make : String → Token) (l : Lexer) : Option Lexer := do
  let l ← l.startKey
  let (name, rest) ← anchorName (l.rest.drop 1)
  return { l.push (make (String.ofList name)) with
    keyAllowed := false, spot := l.spot.move (name.length + 1), rest }

/-- A tag. -/
def takeTag (l : Lexer) : Option Lexer := do
  let l ← l.startKey
  let (t, width, rest) ← tag l.inFlow l.rest
  return { l.push t with keyAllowed := false, spot := l.spot.move width, rest }

/-- A block scalar. -/
def takeBlock (literal : Bool) (l : Lexer) : Option Lexer := do
  let l ← l.dropKey
  let s ← blockScalar literal l.indent l.spot.next (l.rest.drop 1)
  return { l with keyAllowed := true }.scanned false s

/-- A quoted scalar. -/
def takeQuoted (double : Bool) (l : Lexer) : Option Lexer := do
  let l ← l.startKey
  let s ← quotedScalar double l.spot.next .none [] (l.rest.drop 1)
  return { l with keyAllowed := false }.scanned false s

/-- A plain scalar. If it ends on an earlier line than the text goes on, a key may start there. -/
def takePlain (l : Lexer) : Option Lexer := do
  let l ← l.startKey
  let s ← plain l.inFlow (l.indent + 1).toNat l.spot .none [] l.rest
  return { l with keyAllowed := s.onNewLine }.scanned true s

/-- A character that starts no plain scalar. -/
def isIndicator (c : Char) : Bool :=
  "-?:,[]\x7b\x7d#&*!|>'\"%@\x60".toList.contains c

/-- The token that starts with a character, before the text `cs`. -/
def take (c : Char) (cs : List Char) (l : Lexer) : Option Lexer :=
  if l.spot.column == 0 && c == '%' then l.takeDirective
  else if l.spot.column == 0 && atDocumentMark (c :: cs) then do
    let l ← l.leaveBlocks
    return (l.skip 3).push (if c == '-' then .documentStart else .documentEnd)
  else
    match c with
    | '[' => l.openFlow .flowListStart
    | '{' => l.openFlow .flowMapStart
    | ']' => l.closeFlow .flowListEnd
    | '}' => l.closeFlow .flowMapEnd
    | ',' => do
      let l ← l.dropKey
      return ({ l with keyAllowed := true }.skip 1).push .flowEntry
    | '*' => l.takeAnchor .reference
    | '&' => l.takeAnchor .anchor
    | '!' => l.takeTag
    | '\x27' => l.takeQuoted false
    | '"' => l.takeQuoted true
    | c =>
      -- These three are marks only before a gap; brackets make the last two marks anywhere.
      if c == '-' && atGap cs then l.mark .blockListStart .blockEntry true
      else if c == '?' && (l.inFlow || atGap cs) then l.mark .blockMapStart .key (!l.inFlow)
      else if c == ':' && (l.inFlow || atGap cs) then l.valueMark
      else if c == '|' && !l.inFlow then l.takeBlock true
      else if c == '>' && !l.inFlow then l.takeBlock false
      else if isBlank c then none
      else if !isIndicator c || c == '-' || (!l.inFlow && (c == '?' || c == ':')) then
        l.takePlain
      else none

/-- Reads one more token, or the end of the text; tells which. -/
def fetch (l : Lexer) : Option (Lexer × Bool) := do
  let (keyAllowed, spot, rest) := toNext l.inFlow false l.keyAllowed l.spot l.rest
  let l ← { l with keyAllowed, spot, rest }.dropStale
  let l := l.dedent l.spot.column
  match l.rest with
  | [] =>
    let l ← l.leaveBlocks
    return (l.push .streamEnd, true)
  | c :: cs => return (← l.take c cs, false)

/-- Lets go the tokens before the first at which a key may still start. -/
def release (l : Lexer) : List Token × Lexer :=
  let starts := (l.keyStart :: l.outerKeyStarts).filterMap (·.map (·.token - l.released))
  let ready := starts.foldl min l.queue.length
  (l.queue.take ready, { l with queue := l.queue.drop ready, released := l.released + ready })

/-- The tokens that a text yields before its end or its first error. Each step takes at least one
character, so `fuel` need not exceed the length of the text by more than one. -/
def run : Nat → Lexer → List Token
  | 0, _ => []
  | fuel + 1, l =>
    match l.fetch with
    | none => []
    | some (l, true) => l.queue
    | some (l, false) =>
      match l.dropStale with
      | none => []
      | some l =>
        let (ready, l) := l.release
        ready ++ run fuel l

/-- What is known at the start of a text. -/
def start (cs : List Char) : Lexer where
  spot := .start
  rest := cs
  indent := -1
  outerIndents := []
  keyStart := none
  outerKeyStarts := []
  keyAllowed := true
  queue := []
  released := 1

end Lexer

/-- A character that may stand in a YAML text. -/
def isAllowed (c : Char) : Bool :=
  let n := c.toNat
  n == 0x09 || n == 0x0A || n == 0x0D || (0x20 ≤ n && n ≤ 0x7E) || n == 0x85 ||
    (0xA0 ≤ n && n ≤ 0xFFFD) || 0x10000 ≤ n

/-- The tokens of a text, without the end of the stream if an error comes before it. -/
def tokens (text : String) : List Token :=
  let cs := text.toList
  if cs.all isAllowed then .streamStart :: Lexer.run (cs.length + 2) (Lexer.start cs) else []

end Preflight.Yaml
