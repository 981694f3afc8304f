import Preflight.Graph.Diagnostic
/-!
Reports: findings in their order, one line each. Findings that the order does not tell apart stay in
the order in which they were found.
-/

namespace Preflight

/-- The findings of one check. -/
structure Report where
  diagnostics : List Diagnostic
  deriving DecidableEq, Repr

namespace Report

/-- The report of findings in any order. -/
def ofList (found : List Diagnostic) : Report :=
  ⟨found.mergeSort fun a b => (a.order b).isLE⟩

/-- How many findings have a severity. -/
def count (r : Report) (severity : Severity) : Nat :=
  r.diagnostics.countP (·.severity = severity)

/-- Whether any finding is an error. -/
def hasErrors (r : Report) : Bool :=
  r.diagnostics.any (·.severity = .error)

/-- The report as text: one line for each finding. -/
def text (r : Report) : String :=
  "\n".intercalate (r.diagnostics.map (·.message))

/-- The report as an object. -/
def toJson (r : Report) : Json :=
  .object [("diagnostics", .array (r.diagnostics.map (·.toJson)))]

end Report

end Preflight
