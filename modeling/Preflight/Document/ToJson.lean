import Preflight.Document.Tree
import Preflight.Decimal.Notation
import Preflight.Names.Table
/-!
The JSON value of a tree. Keys become texts; a key that has no text form (null, a number that is not
finite, a list, a map, a tagged value) leaves the whole tree without one. Names ascend, and of
several keys with one text the last counts.
-/

namespace Preflight.Tree

/-- The text of a key in a JSON object, if it has one. -/
def keyText? : Tree → Option String
  | .text s | .date s => some s
  | .bool b => some (if b then "true" else "false")
  | .int n => some (toString n)
  | .float x => if x.isFinite then some (Decimal.scientific.write x) else none
  | _ => none

/-- The name under which the text of a date stands in a JSON object. -/
def dateKey : String :=
  "$__toml_private_datetime"

/-- A tag as the name of an object's entry. -/
def tagKey (tag : String) : String :=
  "!" ++ tag

mutual

/-- The JSON value of a tree, if all its keys have one. -/
def toJson? : Tree → Option Json
  | .null => some .null
  | .bool b => some (.bool b)
  | .int n => some (.int n)
  | .float x => some (if x.isFinite then .float x else .null)
  | .text s => some (.text s)
  | .date s => some (.object [(dateKey, .text s)])
  | .list items => (toJsonItems? items).map .array
  | .map entries => (toJsonEntries? entries).map fun es => .object (NameTable.ofList es).entries
  | .tagged tag t => (toJson? t).map fun v => .object [(tagKey tag, v)]

/-- The JSON values of the items of a list. -/
def toJsonItems? : List Tree → Option (List Json)
  | [] => some []
  | t :: ts => do return (← toJson? t) :: (← toJsonItems? ts)

/-- The names and JSON values of the entries of a map. -/
def toJsonEntries? : List (Tree × Tree) → Option (List (String × Json))
  | [] => some []
  | (k, v) :: es => do return (← keyText? k, ← toJson? v) :: (← toJsonEntries? es)

end

end Preflight.Tree
