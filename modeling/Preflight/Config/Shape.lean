import Preflight.Config.Workflow
import Preflight.Document.Read
/-!
The shape of a workflow file. Each record lists its fields in order, with the way each is read;
`shape` reads a whole workflow from a tree.
-/

namespace Preflight.Config

/-- Reads a free text; null is the empty text. -/
def readFreeText : Read String := fun d t =>
  (readOption readText d t).map (·.getD "")

/-- Reads a set of names; null is the empty set. -/
def readNames : Read NameSet := fun d t =>
  (readOption readNameSet d t).map (·.getD .empty)

/-- Reads a table whose keys are names; null is the empty table, and null in an entry stands for
`blank`. -/
def readNamed (read : Read α) (blank : α) : Read (NameTable α) := fun d t =>
  (readOption (readTable readName (readOption read)) d t).map fun table =>
    (table.getD .empty).map (·.getD blank)

/-- Reads a setting that is present; null is blank. -/
def readOverride : Read Override := fun d t =>
  (readOption readText d t).map fun
    | none => .blank
    | some raw => .parse raw

/-- Reads the shorthands of each backend. -/
def readAliases : Read (NameTable (NameTable String)) :=
  readTable readText (readTable readText readText)

/-- The fields of the defaults. -/
def defaultsSlots : List (Slot Defaults) := [
  .of "model" [] readOverride fun x r => { r with model := x },
  .of "backend" [] readOverride fun x r => { r with backend := x }]

/-- The fields of a hat. `subscriptions` is an older spelling of `triggers`. -/
def hatSlots : List (Slot Hat) := [
  .of "name" [] readFreeText fun x r => { r with name := x },
  .of "description" [] readFreeText fun x r => { r with description := x },
  .of "triggers" ["subscriptions"] readNames fun x r => { r with triggers := x },
  .of "publishes" [] readNames fun x r => { r with publishes := x },
  .of "model" [] readOverride fun x r => { r with model := x },
  .of "backend" [] readOverride fun x r => { r with backend := x },
  .of "instructions" [] readFreeText fun x r => { r with instructions := x }]

/-- The fields of an event. -/
def eventSlots : List (Slot Event) := [
  .of "description" [] readFreeText fun x r => { r with description := x }]

/-- Reads the defaults. -/
def readDefaults : Read Defaults :=
  readRecord "CliConfig" defaultsSlots .empty

/-- Reads a hat. -/
def readHat : Read Hat :=
  readRecord "HatConfig" hatSlots .empty

/-- Reads an event. -/
def readEvent : Read Event :=
  readRecord "EventConfig" eventSlots .empty

/-- The fields of a workflow. -/
def workflowSlots : List (Slot Workflow) := [
  .of "name" [] readFreeText fun x r => { r with name := x },
  .of "description" [] readFreeText fun x r => { r with description := x },
  .of "hats" [] (readNamed readHat .empty) fun x r => { r with hats := x },
  .of "cli" [] readDefaults fun x r => { r with defaults := x },
  .of "events" [] (readNamed readEvent .empty) fun x r => { r with events := x },
  .of "aliases" [] readAliases fun x r => { r with aliases := x }]

/-- Reads a workflow. -/
def shape : Read Workflow :=
  readRecord "WorkflowConfig" workflowSlots .empty

end Preflight.Config
