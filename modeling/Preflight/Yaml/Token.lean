/-!
The tokens of a YAML text. Indentation has become tokens of its own: a block starts where its first
line is indented further, and ends where a line is indented less.
-/

namespace Preflight.Yaml

/-- What a YAML text is made of. -/
inductive Token where
  | streamStart
  | streamEnd
  | versionDirective (major minor : Nat)
  | tagDirective (handle expansion : String)
  | documentStart
  | documentEnd
  | blockListStart
  | blockMapStart
  | blockEnd
  | flowListStart
  | flowListEnd
  | flowMapStart
  | flowMapEnd
  | blockEntry
  | flowEntry
  | key
  | value
  /-- An alias of an anchored node. -/
  | reference (name : String)
  | anchor (name : String)
  | tag (handle suffix : String)
  | scalar (text : String) (isPlain : Bool)
  deriving DecidableEq, Repr

end Preflight.Yaml
