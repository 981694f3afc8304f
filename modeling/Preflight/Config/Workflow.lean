import Preflight.Names.Table
import Preflight.Names.Set
import Preflight.Config.Override
/-!
A workflow: hats that wait for events and publish events, the events it declares, defaults for the
hats' models and backends, and shorthands for model names.
-/

namespace Preflight

/-- The model and backend of the hats that name none. -/
structure Defaults where
  model : Override
  backend : Override
  deriving DecidableEq, Repr

/-- One role in a workflow. -/
structure Hat where
  name : String
  description : String
  /-- The events that make the hat run. -/
  triggers : NameSet
  /-- The events the hat may emit. -/
  publishes : NameSet
  model : Override
  backend : Override
  instructions : String

/-- A declared event. -/
structure Event where
  description : String

/-- A workflow, with its hats and events by name. -/
structure Workflow where
  name : String
  description : String
  hats : NameTable Hat
  defaults : Defaults
  events : NameTable Event
  /-- Shorthands for model names, by backend. -/
  aliases : NameTable (NameTable String)

/-- No defaults. -/
def Defaults.empty : Defaults :=
  ⟨.unset, .unset⟩

/-- A hat of which nothing is said. -/
def Hat.empty : Hat :=
  ⟨"", "", .empty, .empty, .unset, .unset, ""⟩

/-- An event of which nothing is said. -/
def Event.empty : Event :=
  ⟨""⟩

/-- A workflow of which nothing is said. -/
def Workflow.empty : Workflow :=
  ⟨"", "", .empty, .empty, .empty, .empty⟩

instance : Inhabited Defaults := ⟨.empty⟩
instance : Inhabited Hat := ⟨.empty⟩
instance : Inhabited Event := ⟨.empty⟩
instance : Inhabited Workflow := ⟨.empty⟩

namespace Workflow

/-- Whether an event is declared. -/
def declares (w : Workflow) (event : String) : Bool :=
  w.events.contains event

/-- The declared events, in ascending order. -/
def declared (w : Workflow) : List String :=
  w.events.names

end Workflow

/-- A setting given on the command line, if it is not blank, in place of the one before. -/
def Override.replaceBy (o : Override) (raw : Option String) : Override :=
  match raw.map Override.parse with
  | some (.given text) => .given text
  | _ => o

/-- The workflow with the defaults given on the command line; blank ones change nothing. -/
def Workflow.withDefaults (w : Workflow) (model backend : Option String) : Workflow :=
  { w with defaults := ⟨w.defaults.model.replaceBy model, w.defaults.backend.replaceBy backend⟩ }

end Preflight
