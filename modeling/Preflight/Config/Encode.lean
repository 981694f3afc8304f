import Preflight.Config.Workflow
/-!
A workflow as a JSON value, in the shape in which it is read. Absent settings have no entry, and
neither has an empty table of shorthands.
-/

namespace Preflight

/-- A table as an object. -/
def NameTable.toJson (encode : α → Json) (t : NameTable α) : Json :=
  .object (t.entries.map fun e => (e.1, encode e.2))

/-- The defaults as an object. -/
def Defaults.toJson (d : Defaults) : Json :=
  .object ((d.model.entry? "model").toList ++ (d.backend.entry? "backend").toList)

/-- A hat as an object. -/
def Hat.toJson (h : Hat) : Json :=
  .object ([("name", .text h.name), ("description", .text h.description),
      ("triggers", .ofTexts h.triggers.toList), ("publishes", .ofTexts h.publishes.toList)] ++
    (h.model.entry? "model").toList ++ (h.backend.entry? "backend").toList ++
    [("instructions", .text h.instructions)])

/-- An event as an object. -/
def Event.toJson (e : Event) : Json :=
  .object [("description", .text e.description)]

/-- The shorthands of each backend as an object. -/
def aliasesToJson (aliases : NameTable (NameTable String)) : Json :=
  aliases.toJson (·.toJson .text)

/-- A workflow as an object. -/
def Workflow.toJson (w : Workflow) : Json :=
  .object ([("name", .text w.name), ("description", .text w.description),
      ("hats", w.hats.toJson Hat.toJson), ("cli", w.defaults.toJson),
      ("events", w.events.toJson Event.toJson)] ++
    if w.aliases.isEmpty then [] else [("aliases", aliasesToJson w.aliases)])

end Preflight
