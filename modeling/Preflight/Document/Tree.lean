import Preflight.Json.Basic
/-!
What a document says, whatever notation it is written in: a tree of scalars, lists and maps. Maps
keep their entries in the order in which they are to be visited, and their keys are trees, since
not every notation limits keys to texts.
-/

namespace Preflight

/-- The content of a document. -/
inductive Tree where
  | null
  | bool (value : Bool)
  | int (value : Int)
  | float (value : Binary64)
  | text (value : String)
  /-- A date or time, kept as its text. -/
  | date (value : String)
  | list (items : List Tree)
  | map (entries : List (Tree × Tree))
  /-- A value under a tag of the document's own, written without the `!` in front. -/
  | tagged (tag : String) (value : Tree)
  deriving Repr

namespace Tree

instance : Inhabited Tree :=
  ⟨.null⟩

/-- A value without its tags. -/
def untag : Tree → Tree
  | .tagged _ t => t.untag
  | t => t

mutual

/-- Whether a tag occurs anywhere in a value. -/
def hasTag : Tree → Bool
  | .tagged .. => true
  | .list items => hasTagItems items
  | .map entries => hasTagEntries entries
  | _ => false

/-- Whether a tag occurs anywhere in a list. -/
def hasTagItems : List Tree → Bool
  | [] => false
  | t :: ts => t.hasTag || hasTagItems ts

/-- Whether a tag occurs anywhere in the keys and values of a map. -/
def hasTagEntries : List (Tree × Tree) → Bool
  | [] => false
  | (k, v) :: es => k.hasTag || v.hasTag || hasTagEntries es

end

mutual

/-- The tree of a JSON value. -/
def ofJson : Json → Tree
  | .null => .null
  | .bool b => .bool b
  | .int n => .int n
  | .float x => .float x
  | .text s => .text s
  | .array items => .list (ofJsonItems items)
  | .object entries => .map (ofJsonEntries entries)

/-- The trees of the items of an array. -/
def ofJsonItems : List Json → List Tree
  | [] => []
  | v :: vs => ofJson v :: ofJsonItems vs

/-- The trees of the entries of an object. -/
def ofJsonEntries : List (String × Json) → List (Tree × Tree)
  | [] => []
  | (name, v) :: es => (.text name, ofJson v) :: ofJsonEntries es

end

theorem ofJsonItems_eq_map (items : List Json) : ofJsonItems items = items.map ofJson := by
  induction items with
  | nil => rfl
  | cons v vs ih => simp [ofJsonItems, ih]

theorem ofJsonEntries_eq_map (entries : List (String × Json)) :
    ofJsonEntries entries = entries.map fun e => (.text e.1, ofJson e.2) := by
  induction entries with
  | nil => rfl
  | cons e es ih => obtain ⟨name, v⟩ := e; simp [ofJsonEntries, ih]

end Tree

end Preflight
