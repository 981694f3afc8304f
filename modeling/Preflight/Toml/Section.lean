import Preflight.Document.Tree
import Preflight.Names.Table
/-!
The tables of a TOML document while it is read. A table may be said once under a header of its own;
one that only stood on the way to another may still get its header, and one made by a dotted key may
only be added to by dotted keys.
-/

namespace Preflight.Toml

/-- How a table came about. -/
inductive Origin where
  /-- It has a header, or is an element of a list of tables. -/
  | header
  /-- It stands on the way to a table with a header. -/
  | onTheWay
  /-- It stands on the way of a dotted key. -/
  | dotted
  deriving DecidableEq, Repr

/-- What a name stands for. -/
inductive Item where
  | value (t : Tree)
  | table (origin : Origin) (entries : List (String × Item))
  /-- A list of tables, the last one first. -/
  | tables (elements : List (List (String × Item)))

/-- The entries of a table, the last one first. -/
abbrev Entries := List (String × Item)

/-- A list of entries with the item of one name replaced. -/
def replace (name : String) (item : Item) : Entries → Entries
  | [] => []
  | e :: es => if e.1 == name then (name, item) :: es else e :: replace name item es

/-- Changes the table at the end of a path. Tables on the way are made where they are missing; a
list of tables stands for its last element; and dotted keys do not enter a table with a header. -/
def change (byKey : Bool) (f : Origin → Entries → Option Entries) :
    List String → Origin → Entries → Option Entries
  | [], origin, es => f origin es
  | name :: path, _, es =>
    let made := if byKey then Origin.dotted else Origin.onTheWay
    match es.lookup name with
    | none => do return (name, .table made (← change byKey f path made [])) :: es
    | some (.value _) => none
    | some (.tables []) => none
    | some (.tables (last :: before)) => do
      return replace name (.tables ((← change byKey f path .header last) :: before)) es
    | some (.table origin inner) =>
      if byKey && origin == .header then none
      else do return replace name (.table origin (← change byKey f path origin inner)) es

/-- Adds a value under a new name. A dotted key adds only to tables made by dotted keys, and a key
without dots never does. -/
def addValue (isDotted : Bool) (name : String) (t : Tree) (origin : Origin) (es : Entries) :
    Option Entries :=
  if (origin == .dotted) != isDotted || (es.lookup name).isSome then none
  else some ((name, .value t) :: es)

/-- Adds a value under a key. -/
def addKey (key : List String) (t : Tree) (origin : Origin) (es : Entries) : Option Entries :=
  match key.reverse with
  | [] => none
  | name :: path => change true (addValue (!path.isEmpty) name t) path.reverse origin es

/-- Gives a table its header. -/
def openTable (name : String) (_ : Origin) (es : Entries) : Option Entries :=
  match es.lookup name with
  | none => some ((name, .table .header []) :: es)
  | some (.table .onTheWay inner) => some (replace name (.table .header inner) es)
  | _ => none

/-- Adds an element to a list of tables. -/
def openElement (name : String) (_ : Origin) (es : Entries) : Option Entries :=
  match es.lookup name with
  | none => some ((name, .tables [[]]) :: es)
  | some (.tables elements) => some (replace name (.tables ([] :: elements)) es)
  | _ => none

/-- Enters a header into the tables of a document. -/
def addHeader (isElement : Bool) (key : List String) (es : Entries) : Option Entries :=
  match key.reverse with
  | [] => none
  | name :: path =>
    change false (if isElement then openElement name else openTable name) path.reverse .header es

/-- The tree of a table whose entries have trees: the names ascend. -/
def treeOfEntries (entries : List (String × Tree)) : Tree :=
  .map ((NameTable.ofList entries).entries.map fun e => (.text e.1, e.2))

mutual

/-- The tree of an item. -/
def Item.toTree : Item → Tree
  | .value t => t
  | .table _ entries => treeOfEntries (entryTrees entries)
  | .tables elements => .list (elementTrees elements).reverse

/-- The trees of the entries of a table. -/
def entryTrees : List (String × Item) → List (String × Tree)
  | [] => []
  | (name, item) :: es => (name, item.toTree) :: entryTrees es

/-- The trees of the elements of a list of tables. -/
def elementTrees : List (List (String × Item)) → List Tree
  | [] => []
  | es :: rest => treeOfEntries (entryTrees es) :: elementTrees rest

end

end Preflight.Toml
