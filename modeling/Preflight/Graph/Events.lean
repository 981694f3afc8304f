import Preflight.Config.Workflow
import Preflight.Graph.Report
import Preflight.Text.Distance
/-!
The events of a workflow. Every event that a hat refers to must be declared; events may run in
circles, and declared events may go unused. `entryEvents` are those where a run can start.
-/

namespace Preflight

/-- How far an event may be from the declared event suggested for it. -/
def eventReach : Nat := 3

/-- The events that a hat refers to: its triggers, then what it publishes. -/
def Hat.references (h : Hat) : List (String × Usage) :=
  h.triggers.toList.map (·, .trigger) ++ h.publishes.toList.map (·, .publish)

/-- The finding at a reference, if its event is not declared. -/
def findUndeclared (declared : List String) (hat : String) (r : String × Usage) :
    Option Diagnostic :=
  if r.1 ∈ declared then none
  else some (.undeclared hat r.1 r.2 (Text.nearest r.1 eventReach declared))

/-- The references to events that are not declared, hat by hat. -/
def undeclaredEvents (declared : List String) (hats : NameTable Hat) : List Diagnostic :=
  hats.entries.flatMap fun e => e.2.references.filterMap (findUndeclared declared e.1)

namespace Workflow

/-- The report on a workflow's events. -/
def report (w : Workflow) : Report :=
  .ofList (undeclaredEvents w.declared w.hats)

/-- Whether some hat waits for an event. -/
def isTriggered (w : Workflow) (event : String) : Bool :=
  w.hats.values.any fun h => event ∈ h.triggers

/-- Whether some hat publishes an event. -/
def isPublished (w : Workflow) (event : String) : Bool :=
  w.hats.values.any fun h => event ∈ h.publishes

end Workflow

/-- How hats hang together through events. -/
structure Summary where
  /-- Declared events that some hat waits for and none publishes. -/
  entryEvents : List String
  /-- Declared events to which no hat refers. -/
  unusedEvents : List String
  deriving DecidableEq, Repr

/-- The summary of a workflow's events. -/
def Workflow.summary (w : Workflow) : Summary where
  entryEvents := w.declared.filter fun e => w.isTriggered e && !w.isPublished e
  unusedEvents := w.declared.filter fun e => !w.isTriggered e && !w.isPublished e

/-- A summary as an object. -/
def Summary.toJson (s : Summary) : Json :=
  .object [("entry_events", .ofTexts s.entryEvents), ("unused_events", .ofTexts s.unusedEvents)]

end Preflight
