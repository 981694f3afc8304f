import Preflight.Document.Fault
import Preflight.Names.Table
import Preflight.Names.Set
/-!
Readers of trees. Each takes a tree apart according to a dialect and gives a value or the first
fault met, visiting entries in the order of the tree. A record is read from a map by `readEntries`,
which passes over keys that name no field, and where the dialect allows it from a list, field by
field.
-/

namespace Preflight

/-- A way to get a value from a tree. -/
abbrev Read (α : Type) := Dialect → Tree → Except Fault α

/-- A fault seen from outside the entry of a name. -/
def Fault.within (name : String) (f : Fault) : Fault :=
  { f with path := name :: f.path }

/-- Fails with a cause at the place where the reader stands. -/
def fail (cause : Cause) : Except Fault α :=
  .error ⟨cause, []⟩

/-- Reads the value of an entry; its faults lie within the entry. -/
def inEntry (name : String) (r : Except Fault α) : Except Fault α :=
  r.mapError (·.within name)

/-! ## Scalars -/

/-- Reads a text. -/
def readText : Read String := fun _ t =>
  match t.untag with
  | .text s | .date s => .ok s
  | t => fail (.unexpected t .text)

/-- Reads what may be absent: null is nothing. -/
def readOption (read : Read α) : Read (Option α) := fun d t =>
  match t with
  | .null => .ok none
  | t => (read d t).map some

/-- The one textual form of a scalar: texts as they are, whole numbers in decimal, other numbers by
their shortest digits. -/
def Tree.scalarText? : Tree → Option String
  | .text s | .date s => some s
  | .int n => some (toString n)
  | .float x => some (Decimal.bare.write x)
  | .bool b => some (if b then "true" else "false")
  | _ => none

/-- Reads a name: any scalar, as its text. A tag anywhere in it is refused. -/
def readName : Read String := fun _ t =>
  if t.hasTag then fail .taggedName
  else
    match t.scalarText? with
    | some s => .ok s
    | none => fail .notScalar

/-! ## Lists and maps -/

/-- The items of a list. -/
def readItems : Read (List Tree) := fun d t =>
  match t.untag with
  | .list items => .ok items
  | .null => if d.nullIsEmpty then .ok [] else fail (.unexpected .null .list)
  | t => fail (.unexpected t .list)

/-- Reads a list of names as a set. -/
def readNameSet : Read NameSet := fun d t => do
  let items ← readItems d t
  return .ofList (← items.mapM (readName d))

/-- The entries of a map. -/
def readPairs : Read (List (Tree × Tree)) := fun d t =>
  match t.untag with
  | .map entries => .ok entries
  | .null => if d.nullIsEmpty then .ok [] else fail (.unexpected .null .map)
  | t => fail (.unexpected t .map)

/-- Reads one entry of a table. -/
def readPair (readKey : Read String) (read : Read α) (d : Dialect) (e : Tree × Tree) :
    Except Fault (String × α) := do
  let name ← readKey d e.1
  let value ← inEntry name (read d e.2)
  return (name, value)

/-- Reads a map as a table; of several keys with one text the last counts. -/
def readTable (readKey : Read String) (read : Read α) : Read (NameTable α) := fun d t => do
  let entries ← readPairs d t
  return .ofList (← entries.mapM (readPair readKey read d))

/-! ## Records -/

/-- A field of a record: its name, the other spellings it goes by, and how its value changes the
record. -/
structure Slot (σ : Type) where
  name : String
  others : List String
  read : Read (σ → σ)

/-- The field whose value is read by `read` and stored by `put`. -/
def Slot.of (name : String) (others : List String) (read : Read α) (put : α → σ → σ) : Slot σ :=
  ⟨name, others, fun d t => (read d t).map put⟩

/-- Whether a key names a field. -/
def Slot.answers (s : Slot σ) (key : String) : Bool :=
  s.name == key || s.others.contains key

/-- Reads the key of a record's entry. -/
def readFieldName : Read String := fun _ t =>
  match t.untag with
  | .text s => .ok s
  | t => fail (.unexpected t .fieldName)

/-- Reads the entries of a record one after the other; `seen` are the fields already given. -/
def readEntries (slots : List (Slot σ)) (d : Dialect) (seen : List String) :
    List (Tree × Tree) → σ → Except Fault σ
  | [], record => .ok record
  | (k, v) :: es, record => do
    let key ← readFieldName d k
    match slots.find? (·.answers key) with
    | none => readEntries slots d seen es record
    | some slot =>
      if seen.contains slot.name then fail (.duplicateField slot.name)
      else
        let change ← inEntry key (slot.read d v)
        readEntries slots d (slot.name :: seen) es (change record)

/-- Reads the fields of a record from a list, in their order. -/
def readPositions (d : Dialect) : List (Slot σ) → List Tree → σ → Except Fault σ
  | slot :: slots, t :: ts, record => do
    let change ← slot.read d t
    readPositions d slots ts (change record)
  | _, _, record => .ok record

/-- Reads a record, starting from the one in which no field is given. -/
def readRecord (title : String) (slots : List (Slot σ)) (start : σ) : Read σ := fun d t =>
  match t.untag with
  | .map entries => readEntries slots d [] entries start
  | .null => if d.nullIsEmpty then .ok start else fail (.unexpected .null (.record title))
  | .list items =>
    if d.listIsRecord then do
      let record ← readPositions d slots items start
      if slots.length < items.length then fail (.tooLong items.length)
      return record
    else fail (.unexpected (.list items) (.record title))
  | t => fail (.unexpected t (.record title))

end Preflight
