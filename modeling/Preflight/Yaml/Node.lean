import Preflight.Yaml.Token
/-!
The grammar of YAML: from tokens to the nodes of the first document of a stream. Aliases are kept
as the number of the anchor they name; the nodes they stand for are found in a second step.

A document is complete before the token that follows it is understood, so what stands after the
first document only tells whether there is more.
-/

namespace Preflight.Yaml

/-- A node of a document, with its tag in full. -/
inductive Node where
  | scalar (tag : Option String) (isPlain : Bool) (text : String)
  | list (tag : Option String) (items : List Node)
  | map (tag : Option String) (entries : List (Node × Node))
  /-- An alias of an anchored node. -/
  | reference (anchor : Nat)
  /-- A node that aliases may stand for. -/
  | anchored (anchor : Nat) (node : Node)

instance : Inhabited Node :=
  ⟨.scalar none true ""⟩

/-- A node without content. -/
def Node.empty : Node :=
  .scalar none true ""

/-- What the parser knows between two tokens. -/
structure Reader where
  tokens : List Token
  /-- The anchors named so far, and the number that each name stands for now. -/
  anchors : List (String × Nat)
  /-- The handles of the document's tags, and what each is short for. -/
  handles : List (String × String)

/-- A step of the parser; it fails on tokens that are not in the grammar. -/
abbrev Parse := StateT Reader Option

namespace Parse

/-- The next token; fails where the tokens end. -/
def peek : Parse Token := do
  match (← get).tokens with
  | t :: _ => return t
  | [] => failure

/-- Passes over a token. -/
def skip : Parse Unit :=
  modify fun r => { r with tokens := r.tokens.drop 1 }

/-- The number of a new anchor: how many names there were before it. A name used again takes a new
number and keeps its place among the names. -/
def bind (name : String) : Parse Nat := do
  let r ← get
  let number := r.anchors.length
  let others := r.anchors.filter (·.1 != name)
  set { r with anchors := (name, number) :: others }
  return number

/-- A tag in full: its handle must be known, unless it has none. -/
def expand (handle suffix : String) : Parse String := do
  if handle = "" then return suffix
  match (← get).handles.lookup handle with
  | some expansion => return expansion ++ suffix
  | none => failure

end Parse

/-- The anchor and tag in front of a node. -/
structure Properties where
  anchor : Option Nat
  tag : Option String

/-- The node of an anchor, if one is given. -/
def Properties.on (p : Properties) (n : Node) : Node :=
  match p.anchor with
  | some a => .anchored a n
  | none => n

/-- Reads a tag, if one comes next. -/
def tag? : Parse (Option (String × String)) := do
  match ← Parse.peek with
  | .tag handle suffix => Parse.skip; return some (handle, suffix)
  | _ => return none

/-- Reads an anchor, if one comes next. -/
def anchor? : Parse (Option String) := do
  match ← Parse.peek with
  | .anchor name => Parse.skip; return some name
  | _ => return none

/-- Reads the anchor and tag in front of a node, in either order. -/
def properties : Parse Properties := do
  let first ← anchor?
  let tag ← tag?
  let second ← if first.isNone && tag.isSome then anchor? else pure none
  let full ← tag.mapM fun (handle, suffix) => Parse.expand handle suffix
  let number ← (first <|> second).mapM Parse.bind
  return ⟨number, full⟩

/-- Where a node stands, which decides what it may be. -/
inductive Place where
  /-- In a block. -/
  | block
  /-- After the mark of a key or value in a block, where a list need not be indented further. -/
  | entry
  /-- In brackets. -/
  | flow
  deriving DecidableEq

/-- Tokens before which the item of a block list is empty. -/
def endsItem : Token → Bool
  | .blockEntry | .blockEnd => true
  | _ => false

/-- Tokens before which the item of a list that is not indented is empty. -/
def endsLooseItem : Token → Bool
  | .blockEntry | .key | .value | .blockEnd => true
  | _ => false

/-- Tokens before which a key or value of a block map is empty. -/
def endsBlockPart : Token → Bool
  | .key | .value | .blockEnd => true
  | _ => false

/-- Tokens before which a key in brackets is empty. -/
def endsFlowKey (close : Token) (t : Token) : Bool :=
  t == .value || t == .flowEntry || t == close

/-- Tokens before which a value in brackets is empty. -/
def endsFlowValue (close : Token) (t : Token) : Bool :=
  t == .flowEntry || t == close

mutual

/-- Reads a node. Every call of the grammar takes a token within a few steps, so `fuel` is a small
multiple of the number of tokens. -/
def node (fuel : Nat) (place : Place) : Parse Node :=
  match fuel with
  | 0 => failure
  | fuel + 1 => do
    if let .reference name ← Parse.peek then
      Parse.skip
      match (← get).anchors.lookup name with
      | some number => return .reference number
      | none => failure
    else
      let p ← properties
      match ← Parse.peek, place with
      | .blockEntry, .entry => return p.on (.list p.tag (← looseItems fuel))
      | .scalar text isPlain, _ =>
        Parse.skip
        return p.on (.scalar (p.tag.filter (· != "!")) isPlain text)
      | .flowListStart, _ => Parse.skip; return p.on (.list p.tag (← flowItems fuel true))
      | .flowMapStart, _ => Parse.skip; return p.on (.map p.tag (← flowEntries fuel true))
      | .blockListStart, .block | .blockListStart, .entry =>
        Parse.skip
        return p.on (.list p.tag (← blockItems fuel))
      | .blockMapStart, .block | .blockMapStart, .entry =>
        Parse.skip
        return p.on (.map p.tag (← blockEntries fuel))
      | _, _ =>
        if p.anchor.isSome || p.tag.isSome then return p.on (.scalar p.tag true "")
        else failure

/-- Reads a node, or an empty one before a token that ends it. -/
def nodeUnless (fuel : Nat) (ends : Token → Bool) (place : Place) : Parse Node :=
  match fuel with
  | 0 => failure
  | fuel + 1 => do
    if ends (← Parse.peek) then return .empty
    else node fuel place

/-- Reads the items of a block list up to its end. -/
def blockItems (fuel : Nat) : Parse (List Node) :=
  match fuel with
  | 0 => failure
  | fuel + 1 => do
    match ← Parse.peek with
    | .blockEntry =>
      Parse.skip
      let n ← nodeUnless fuel endsItem .block
      return n :: (← blockItems fuel)
    | .blockEnd => Parse.skip; return []
    | _ => failure

/-- Reads the items of a list that is not indented further than the map it stands in. -/
def looseItems (fuel : Nat) : Parse (List Node) :=
  match fuel with
  | 0 => failure
  | fuel + 1 => do
    match ← Parse.peek with
    | .blockEntry =>
      Parse.skip
      let n ← nodeUnless fuel endsLooseItem .block
      return n :: (← looseItems fuel)
    | _ => return []

/-- Reads the entries of a block map up to its end. -/
def blockEntries (fuel : Nat) : Parse (List (Node × Node)) :=
  match fuel with
  | 0 => failure
  | fuel + 1 => do
    match ← Parse.peek with
    | .key =>
      Parse.skip
      let k ← nodeUnless fuel endsBlockPart .entry
      let v ← blockValue fuel
      return (k, v) :: (← blockEntries fuel)
    | .blockEnd => Parse.skip; return []
    | _ => failure

/-- Reads the value of an entry in a block map; without its mark it is empty. -/
def blockValue (fuel : Nat) : Parse Node :=
  match fuel with
  | 0 => failure
  | fuel + 1 => do
    match ← Parse.peek with
    | .value => Parse.skip; nodeUnless fuel endsBlockPart .entry
    | _ => return .empty

/-- Reads the items of a list in brackets up to its end; after the first, commas stand between
them, and one may stand before the end. -/
def flowItems (fuel : Nat) (first : Bool) : Parse (List Node) :=
  match fuel with
  | 0 => failure
  | fuel + 1 => do
    if (← Parse.peek) == .flowListEnd then Parse.skip; return []
    else
      if !first then
        if (← Parse.peek) == .flowEntry then Parse.skip else failure
      match ← Parse.peek with
      | .flowListEnd => Parse.skip; return []
      | .key =>
        Parse.skip
        let entry ← flowPair fuel
        return .map none [entry] :: (← flowItems fuel false)
      | _ =>
        let n ← node fuel .flow
        return n :: (← flowItems fuel false)

/-- Reads the single entry of a map that stands in a list without brackets of its own. If its key
is empty, the token after the key's mark is passed over. -/
def flowPair (fuel : Nat) : Parse (Node × Node) :=
  match fuel with
  | 0 => failure
  | fuel + 1 => do
    let k ← (do
      if endsFlowKey .flowListEnd (← Parse.peek) then Parse.skip; return .empty
      else node fuel .flow)
    return (k, ← flowValue fuel .flowListEnd)

/-- Reads the value of an entry in brackets; without its mark it is empty. -/
def flowValue (fuel : Nat) (close : Token) : Parse Node :=
  match fuel with
  | 0 => failure
  | fuel + 1 => do
    match ← Parse.peek with
    | .value => Parse.skip; nodeUnless fuel (endsFlowValue close) .flow
    | _ => return .empty

/-- Reads the entries of a map in brackets up to its end; after the first, commas stand between
them, and one may stand before the end. -/
def flowEntries (fuel : Nat) (first : Bool) : Parse (List (Node × Node)) :=
  match fuel with
  | 0 => failure
  | fuel + 1 => do
    if (← Parse.peek) == .flowMapEnd then Parse.skip; return []
    else
      if !first then
        if (← Parse.peek) == .flowEntry then Parse.skip else failure
      match ← Parse.peek with
      | .flowMapEnd => Parse.skip; return []
      | .key =>
        Parse.skip
        let k ← nodeUnless fuel (endsFlowKey .flowMapEnd) .flow
        let v ← flowValue fuel .flowMapEnd
        return (k, v) :: (← flowEntries fuel false)
      | _ =>
        let k ← node fuel .flow
        return (k, .empty) :: (← flowEntries fuel false)

end

/-! ## Documents -/

/-- The handles that every document knows. -/
def standardHandles : List (String × String) :=
  [("!", "!"), ("!!", "tag:yaml.org,2002:")]

/-- Reads the directives in front of a document: at most one version, which must be known, and
each handle at most once. -/
def directives (version : Bool) (handles : List (String × String)) :
    List Token → Option (List (String × String) × List Token)
  | .versionDirective major minor :: ts =>
    if version || major != 1 || (minor != 1 && minor != 2) then none
    else directives true handles ts
  | .tagDirective handle expansion :: ts =>
    if (handles.lookup handle).isSome then none
    else directives version ((handle, expansion) :: handles) ts
  | ts => some (handles ++ standardHandles, ts)

/-- Tokens before which a document with a mark in front is empty. -/
def endsDocument : Token → Bool
  | .versionDirective .. | .tagDirective .. | .documentStart | .documentEnd | .streamEnd => true
  | _ => false

/-- Tokens that begin a document with a mark in front, or its directives. -/
def startsMarked : Token → Bool
  | .versionDirective .. | .tagDirective .. | .documentStart => true
  | _ => false

/-- The first document of a stream, if there is one. -/
inductive Stream where
  | empty
  /-- A document; `more` says whether anything follows it. -/
  | document (root : Node) (more : Bool)

/-- Whether anything but the marks that end documents follows. -/
def hasMore : List Token → Bool
  | .documentEnd :: ts => hasMore ts
  | [.streamEnd] => false
  | _ => true

/-- The first document of the tokens of a stream. -/
def Stream.ofTokens? : List Token → Option Stream
  | [.streamStart, .streamEnd] => some .empty
  | .streamStart :: t :: ts => do
    let fuel := 4 * ts.length + 16
    let (root, r) ←
      if startsMarked t then do
        let (handles, ts) ← directives false [] (t :: ts)
        match ts with
        | .documentStart :: ts => (nodeUnless fuel endsDocument .block).run ⟨ts, [], handles⟩
        | _ => none
      else (node fuel .block).run ⟨t :: ts, [], standardHandles⟩
    if r.tokens.isEmpty then none
    else return .document root (hasMore r.tokens)
  | _ => none

end Preflight.Yaml
