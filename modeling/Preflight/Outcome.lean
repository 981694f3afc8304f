import Preflight.Json.Writer
import Preflight.Model.Listing
import Preflight.Plan
/-!
What a command prints and how it exits. A plan goes to the output, as a table or as JSON; a report
always goes to the error stream, one line for each finding, and as JSON to the output as well. A table
whose first column needs more than 16 bits for its width is not printed; the command stops there.
-/

namespace Preflight

/-- How results are written. -/
inductive OutputFormat where
  | text
  | json
  deriving DecidableEq, Repr

/-- An exit status and the texts of the two streams. -/
structure Outcome where
  code : Nat
  stdout : String
  stderr : String
  deriving DecidableEq, Repr

/-- Why a command stops without an outcome. -/
inductive Crash where
  /-- A column is wider than a text can be filled up to. -/
  | columnTooWide
  deriving DecidableEq, Repr

/-- The status when every check passed. -/
def exitOk : Nat := 0

/-- The status when the workflow has findings. -/
def exitInvalid : Nat := 1

/-- The status when there is no workflow to check, or the command is refused. -/
def exitUsage : Nat := 2

/-! ## The table of a plan -/

/-- The octets of the longest id. -/
def Plan.idWidth (p : Plan) : Nat :=
  (p.hats.map (·.id.utf8ByteSize)).foldl max 0

/-- The width of the first column, if it is one. -/
def Plan.column? (p : Plan) : Option UInt16 :=
  if p.idWidth < UInt16.size then some (.ofNat p.idWidth) else none

/-- The row of a hat. -/
def ResolvedHat.row (width : UInt16) (h : ResolvedHat) : String :=
  "  " ++ padTo width h.id ++ "  backend=" ++ h.selection.backend ++
    " (" ++ h.selection.backendSource.describe ++ ")  model=" ++ h.selection.model ++
    " (" ++ h.selection.modelSource.describe ++ ")"

/-- The first line of a table. -/
def Plan.headLine (p : Plan) : String :=
  (if p.name = "" then "workflow" else "workflow \"" ++ p.name ++ "\"") ++ ": " ++
    toString p.hats.length ++ " hat(s), dry-run OK"

/-- A line that lists events, if there are any. -/
def eventsLine (title : String) (events : List String) : List String :=
  if events.isEmpty then [] else ["  " ++ title ++ ": " ++ ", ".intercalate events]

/-- The lines of a table: a head line, a row for each hat, and the events of note. -/
def Plan.lines (p : Plan) (width : UInt16) : List String :=
  p.headLine :: (p.hats.map (·.row width) ++
    eventsLine "entry events" p.graph.entryEvents ++
    eventsLine "unused events" p.graph.unusedEvents)

/-- A plan as a table. -/
def Plan.text? (p : Plan) : Option String :=
  p.column?.map fun width => "\n".intercalate (p.lines width)

/-! ## Outcomes -/

/-- The outcome of a check. -/
def render (result : Except Report Plan) (format : OutputFormat) : Except Crash Outcome :=
  match result, format with
  | .ok plan, .text =>
    match plan.text? with
    | some table => .ok ⟨exitOk, table, ""⟩
    | none => .error .columnTooWide
  | .ok plan, .json => .ok ⟨exitOk, plan.toJson.pretty, ""⟩
  | .error report, .text => .ok ⟨exitInvalid, "", report.text⟩
  | .error report, .json => .ok ⟨exitInvalid, report.toJson.pretty, report.text⟩

/-- A text with a line break after it, unless it is empty. -/
def printed (s : String) : String :=
  if s = "" then "" else s ++ "\n"

/-- An outcome as it reaches the streams. -/
def Outcome.emitted (o : Outcome) : Outcome :=
  ⟨o.code, printed o.stdout, printed o.stderr⟩

end Preflight
