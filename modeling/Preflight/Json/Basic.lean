import Preflight.Decimal.Binary64
/-!
JSON values. Whole numbers and floating-point numbers are kept apart, as their texts are; the
entries of an object keep the order in which they are to be written.
-/

namespace Preflight

/-- A JSON value. -/
inductive Json where
  | null
  | bool (value : Bool)
  | int (value : Int)
  | float (value : Binary64)
  | text (value : String)
  | array (items : List Json)
  | object (entries : List (String × Json))
  deriving Repr

namespace Json

instance : Inhabited Json :=
  ⟨.null⟩

/-- The value of a name in an object. -/
def get? (name : String) : Json → Option Json
  | .object entries => entries.lookup name
  | _ => none

/-- A text, or null where there is none. -/
def ofText? : Option String → Json
  | none => .null
  | some s => .text s

/-- An array of texts. -/
def ofTexts (texts : List String) : Json :=
  .array (texts.map .text)

end Json

end Preflight
