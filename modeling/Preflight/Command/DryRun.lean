import Preflight.Config.Load
import Preflight.Outcome
/-!
A dry run: loads the workflow that is named or found, applies the defaults of the command line,
checks it and renders the outcome.
-/

namespace Preflight

/-- What a dry run is told. -/
structure CheckOptions where
  config : Option String
  model : Option String
  backend : Option String
  format : OutputFormat
  deriving DecidableEq, Repr

/-- A workflow that was loaded, the path it came from, and the hints on the way. -/
structure LoadedFrom where
  path : String
  workflow : Workflow
  hints : List Config.Hint

/-- Why there is no workflow to check, and the path that was asked for. -/
structure LoadFailure where
  asked : Option String
  error : LoadError

/-- A failure in words, the outermost first. -/
def LoadFailure.chain (f : LoadFailure) : List String :=
  (f.asked.map ("failed to load workflow " ++ ·)).toList ++ f.error.chain

/-- Loads the workflow of a path. -/
def loadNamed (s : Surroundings) (path : String) : Except LoadFailure LoadedFrom :=
  let loaded := Workflow.load s path
  match loaded.result with
  | .ok workflow => .ok ⟨path, workflow, loaded.hints⟩
  | .error e => .error ⟨some path, e⟩

/-- Loads the first workflow found. -/
def loadFound (s : Surroundings) : Except LoadFailure LoadedFrom :=
  let (loaded, path) := Workflow.discover s
  match loaded.result with
  | .ok workflow => .ok ⟨path.getD "", workflow, loaded.hints⟩
  | .error e => .error ⟨none, e⟩

/-- Loads the workflow of a dry run, with the defaults of the command line. -/
def CheckOptions.load (s : Surroundings) (o : CheckOptions) : Except LoadFailure LoadedFrom := do
  let l ← match o.config with
    | some path => loadNamed s path
    | none => loadFound s
  return { l with workflow := l.workflow.withDefaults o.model o.backend }

/-- The outcome of a dry run whose workflow was loaded. -/
def CheckOptions.outcome (o : CheckOptions) (l : LoadedFrom) : Except Crash Outcome :=
  render l.workflow.check o.format

/-- What a failure to load prints. -/
def LoadFailure.outcome (f : LoadFailure) : Outcome :=
  ⟨exitUsage, "", "error: " ++ ": ".intercalate f.chain⟩

/-- A dry run. -/
def dryRun (s : Surroundings) (o : CheckOptions) : Except Crash Outcome :=
  match o.load s with
  | .ok l => o.outcome l
  | .error f => .ok f.outcome

end Preflight
