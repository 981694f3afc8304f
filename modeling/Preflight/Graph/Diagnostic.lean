import Preflight.Json.Basic
/-!
What can be wrong with a workflow's events, and the order in which it is reported: by hat, then by
event, then by usage, with what is absent first.
-/

namespace Preflight

/-- How grave a finding is. -/
inductive Severity where
  | error
  deriving DecidableEq, Repr

/-- What kind of finding it is. -/
inductive Code where
  | undeclaredEvent
  deriving DecidableEq, Repr

/-- How a hat refers to an event. -/
inductive Usage where
  | trigger
  | publish
  deriving DecidableEq, Repr

/-- A severity as a word. -/
def Severity.describe : Severity → String
  | .error => "error"

/-- A kind of finding as a word. -/
def Code.describe : Code → String
  | .undeclaredEvent => "undeclared-event"

/-- A usage as a word. -/
def Usage.describe : Usage → String
  | .trigger => "trigger"
  | .publish => "publish"

/-- The place of a usage in a report. -/
def Usage.rank : Usage → Nat
  | .trigger => 0
  | .publish => 1

/-- A finding. -/
structure Diagnostic where
  severity : Severity
  code : Code
  hat : Option String
  event : Option String
  usage : Option Usage
  /-- The finding on one line. -/
  message : String
  /-- The declared event that may have been meant. -/
  suggestion : Option String
  deriving DecidableEq, Repr

namespace Diagnostic

/-- The words for an event that is not declared. -/
def undeclaredMessage (hat event : String) (usage : Usage) : String :=
  hat ++ ": undeclared event \"" ++ event ++ "\" (used as " ++ usage.describe ++ ")"

/-- The finding that a hat refers to an event that is not declared. -/
def undeclared (hat event : String) (usage : Usage) (suggestion : Option String) : Diagnostic where
  severity := .error
  code := .undeclaredEvent
  hat := some hat
  event := some event
  usage := some usage
  message := undeclaredMessage hat event usage
  suggestion := suggestion

/-- An order in which what is absent comes first. -/
def absentFirst (order : α → α → Ordering) : Option α → Option α → Ordering
  | none, none => .eq
  | none, some _ => .lt
  | some _, none => .gt
  | some a, some b => order a b

/-- The order of a report. -/
def order (a b : Diagnostic) : Ordering :=
  (absentFirst compare a.hat b.hat).then <|
    (absentFirst compare a.event b.event).then <|
      absentFirst (compareOn Usage.rank) a.usage b.usage

/-- The severity and kind of a finding. -/
def label (d : Diagnostic) : String :=
  d.severity.describe ++ " " ++ d.code.describe

/-- An entry of a JSON object, if there is something to write. -/
def entry? (name : String) (value : Option String) : List (String × Json) :=
  (value.map fun s => (name, Json.text s)).toList

/-- A finding as an object; what is absent has no entry. -/
def toJson (d : Diagnostic) : Json :=
  .object ([("severity", .text d.severity.describe), ("code", .text d.code.describe)] ++
    entry? "hat" d.hat ++ entry? "event" d.event ++
    entry? "usage" (d.usage.map Usage.describe) ++ [("message", .text d.message)] ++
    entry? "suggestion" d.suggestion)

end Diagnostic

end Preflight
