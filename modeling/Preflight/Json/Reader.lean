import Preflight.Json.Token
import Preflight.Names.Table
/-!
Reading JSON. The tokens of a text drive a machine that keeps the arrays and objects still open;
each token is looked at once. Objects come out with their names ascending, and of several entries
with one name the last is kept.
-/

namespace Preflight.Json

/-- An array or object that is still open, with what it holds so far. -/
inductive Frame where
  /-- The items read, the last first. -/
  | array (items : List Json)
  /-- The entries read, and the name whose value is due. -/
  | object (entries : List (String × Json)) (name : String)

/-- What may come next, and what is open around it. -/
inductive Progress where
  /-- A value; if an array was just opened, its end as well. -/
  | value (stack : List Frame) (mayClose : Bool)
  /-- A name in an object with these entries; if it was just opened, its end as well. -/
  | name (stack : List Frame) (entries : List (String × Json)) (mayClose : Bool)
  /-- The colon after a name. -/
  | colon (stack : List Frame) (entries : List (String × Json)) (name : String)
  /-- A comma or the end of what is open. -/
  | between (stack : List Frame)
  /-- Nothing: the value is complete. -/
  | complete (value : Json)

/-- How many arrays and objects may be open inside each other. -/
def maxDepth : Nat := 127

/-- Hands a complete value to what is open around it. -/
def deliver (v : Json) : List Frame → Progress
  | [] => .complete v
  | .array items :: stack => .between (.array (v :: items) :: stack)
  | .object entries name :: stack =>
    .between (.object (insertEntry name v entries) name :: stack)

/-- One token. -/
def advance : Progress → Token → Option Progress
  | .value stack _, .scalar v => some (deliver v stack)
  | .value stack _, .openArray =>
    if stack.length < maxDepth then some (.value (.array [] :: stack) true) else none
  | .value stack _, .openObject =>
    if stack.length < maxDepth then some (.name stack [] true) else none
  | .value (.array [] :: stack) true, .closeArray => some (deliver (.array []) stack)
  | .name stack entries _, .scalar (.text name) => some (.colon stack entries name)
  | .name stack _ true, .closeObject => some (deliver (.object []) stack)
  | .colon stack entries name, .colon => some (.value (.object entries name :: stack) false)
  | .between (.array items :: stack), .comma => some (.value (.array items :: stack) false)
  | .between (.array items :: stack), .closeArray =>
    some (deliver (.array items.reverse) stack)
  | .between (.object entries _ :: stack), .comma => some (.name stack entries false)
  | .between (.object entries _ :: stack), .closeObject => some (deliver (.object entries) stack)
  | _, _ => none

/-- The value that tokens spell. -/
def ofTokens? (tokens : List Token) : Option Json :=
  match tokens.foldlM advance (.value [] false) with
  | some (.complete v) => some v
  | _ => none

/-- The value of a JSON text. -/
def parse? (text : String) : Option Json :=
  tokens? text.toList >>= ofTokens?

end Preflight.Json
