import Preflight.Config.Workflow
import Preflight.Model.AliasTable
/-!
Which model and backend a hat runs with. Each is taken from the first layer that gives it: the hat,
the defaults, or what is built in. A model's name is then expanded on the backend chosen; a
backend's name never is.
-/

namespace Preflight

/-- Where a choice comes from. -/
inductive Layer where
  | hat
  | defaults
  | builtIn
  deriving DecidableEq, Repr

/-- A layer in words. -/
def Layer.describe : Layer → String
  | .hat => "hat"
  | .defaults => "defaults"
  | .builtIn => "built-in"

/-- A layer as a word of JSON. -/
def Layer.tag : Layer → String
  | .hat => "hat"
  | .defaults => "defaults"
  | .builtIn => "built_in"

/-- The model and backend of a hat, and where each comes from. -/
structure Selection where
  model : String
  backend : String
  modelSource : Layer
  backendSource : Layer
  deriving DecidableEq, Repr

/-- The backend where no layer names one. -/
def builtInBackend : String := "claude"

/-- The model where no layer names one; it is expanded like any other. -/
def builtInModel : String := "default"

/-- The first choice given. -/
def choose (hat defaults : Override) (builtIn : String) : String × Layer :=
  match hat.value?, defaults.value? with
  | some text, _ => (text, .hat)
  | none, some text => (text, .defaults)
  | none, none => (builtIn, .builtIn)

/-- The model and backend of a hat. -/
def AliasTable.select (t : AliasTable) (hat : Hat) (defaults : Defaults) : Selection :=
  let (backend, backendSource) := choose hat.backend defaults.backend builtInBackend
  let (candidate, modelSource) := choose hat.model defaults.model builtInModel
  { model := t.expand backend candidate, backend, modelSource, backendSource }

/-- The words of JSON for a selection. -/
def Selection.toJson (s : Selection) : Json :=
  .object [("model", .text s.model), ("backend", .text s.backend),
    ("model_source", .text s.modelSource.tag), ("backend_source", .text s.backendSource.tag)]

end Preflight
