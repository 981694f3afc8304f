import Preflight.Graph.Events
import Preflight.Model.Selection
/-!
Checking a workflow. If every event is declared the outcome is a plan, with the model and backend of
every hat; otherwise it is the report of all findings and no plan at all.
-/

namespace Preflight

/-- A hat with its model and backend. -/
structure ResolvedHat where
  id : String
  name : String
  selection : Selection
  triggers : List String
  publishes : List String
  deriving DecidableEq, Repr

/-- A workflow ready to run: its hats in the order of their ids, and its events. -/
structure Plan where
  name : String
  hats : List ResolvedHat
  graph : Summary
  deriving DecidableEq, Repr

/-- A hat with the model and backend that a table of shorthands and the defaults give it. -/
def Hat.resolve (t : AliasTable) (defaults : Defaults) (id : String) (h : Hat) : ResolvedHat where
  id := id
  name := h.name
  selection := t.select h defaults
  triggers := h.triggers.toList
  publishes := h.publishes.toList

/-- The hat of an id. -/
def Plan.hat? (p : Plan) (id : String) : Option ResolvedHat :=
  p.hats.find? (·.id = id)

/-- The plan of a workflow, whether or not its events are declared. -/
def Workflow.plan (t : AliasTable) (w : Workflow) : Plan where
  name := w.name
  hats := w.hats.entries.map fun e => e.2.resolve t w.defaults e.1
  graph := w.summary

/-- Checks a workflow with a table of shorthands. -/
def Workflow.checkWith (t : AliasTable) (w : Workflow) : Except Report Plan :=
  if w.report.hasErrors then .error w.report else .ok (w.plan t)

/-- The shorthands of a workflow: those always known, and its own over them. -/
def Workflow.aliasTable (w : Workflow) : AliasTable :=
  AliasTable.builtIn.withEntries w.aliases

/-- Checks a workflow with its own shorthands. -/
def Workflow.check (w : Workflow) : Except Report Plan :=
  w.checkWith w.aliasTable

/-- A resolved hat as an object. -/
def ResolvedHat.toJson (h : ResolvedHat) : Json :=
  .object [("id", .text h.id), ("name", .text h.name), ("model", .text h.selection.model),
    ("backend", .text h.selection.backend), ("model_source", .text h.selection.modelSource.tag),
    ("backend_source", .text h.selection.backendSource.tag),
    ("triggers", .ofTexts h.triggers), ("publishes", .ofTexts h.publishes)]

/-- A plan as an object. -/
def Plan.toJson (p : Plan) : Json :=
  .object [("name", .text p.name), ("hats", .array (p.hats.map (·.toJson))),
    ("graph", p.graph.toJson)]

end Preflight
