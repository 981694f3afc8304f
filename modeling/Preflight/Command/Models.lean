import Preflight.Command.DryRun
/-!
The listing of shorthands: those always known, with those of a workflow over them if one is named.
-/

namespace Preflight

/-- What a listing is told. -/
structure ModelsOptions where
  /-- The only backend to list. -/
  backend : Option String
  config : Option String
  deriving DecidableEq, Repr

/-- The table of a listing. -/
def ModelsOptions.table (s : Surroundings) (o : ModelsOptions) :
    Except LoadFailure AliasTable :=
  match o.config with
  | none => .ok .builtIn
  | some path => (loadNamed s path).map (·.workflow.aliasTable)

/-- Lists shorthands. -/
def listModels (s : Surroundings) (o : ModelsOptions) : Outcome :=
  match o.table s with
  | .ok t => ⟨exitOk, t.listing o.backend, ""⟩
  | .error f => f.outcome

end Preflight
