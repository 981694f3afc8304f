import Preflight.Decimal.Notation
/-!
The notations a document may be written in, and what each means for the values read from it. The
differences are few and are all listed in `Dialect`.
-/

namespace Preflight

/-- A notation for documents. -/
inductive Format where
  | yaml
  | json
  | toml
  deriving DecidableEq, Repr

/-- How values read from a notation are understood. -/
structure Dialect where
  /-- What messages call null. -/
  nullName : String
  /-- Whether null stands for an empty list, map or record. -/
  nullIsEmpty : Bool
  /-- Whether a list may stand for a record, field by field. -/
  listIsRecord : Bool
  /-- How messages write floating-point numbers. -/
  numbers : Decimal.Notation64
  /-- Whether messages say in which entry the fault lies. -/
  placed : Bool

/-- The dialect of each notation. -/
def Format.dialect : Format → Dialect
  | .yaml => ⟨"unit value", true, false, Decimal.pointed, false⟩
  | .json => ⟨"null", false, true, Decimal.scientific, false⟩
  | .toml => ⟨"null", false, true, Decimal.pointed, true⟩

/-- The name of a notation in messages. -/
def Format.title : Format → String
  | .yaml => "YAML"
  | .json => "JSON"
  | .toml => "TOML"

end Preflight
