import Preflight.Config.Error
import Preflight.Config.Hint
import Preflight.Config.Shape
import Preflight.Files.Path
import Preflight.Files.Surroundings
import Preflight.Json.Reader
import Preflight.Text.Placeholder
import Preflight.Toml.Reader
import Preflight.Yaml.Reader
/-!
Loading a workflow: from a tree, from a text in one of the notations, and from a file. Hints are
collected on the way whether or not the workflow can be shaped, and never decide that it cannot.
-/

namespace Preflight

/-- What comes of loading: the hints, and the workflow or why there is none. -/
structure Loaded where
  hints : List Config.Hint
  result : Except LoadError Workflow

/-- The hints in words. -/
def Loaded.warnings (l : Loaded) : List String :=
  l.hints.map (·.describe)

/-- What fails before any entry is looked at. -/
def Loaded.failure (e : LoadError) : Loaded :=
  ⟨[], .error e⟩

/-- Loads a workflow from a tree. -/
def Workflow.ofTree (format : Format) (t : Tree) : Loaded where
  hints := Config.hintsOfTree t
  result := (Config.shape format.dialect t).mapError (.misshapen format)

/-- Loads a workflow from the tree of a YAML document; a document without content, tagged or not, is
the empty workflow. -/
def Workflow.ofYaml (t : Tree) : Loaded :=
  match t.untag with
  | .null => ⟨[], .ok .empty⟩
  | _ => ofTree .yaml t

/-- Loads a workflow from a text. -/
def Workflow.parse (format : Format) (text : String) : Loaded :=
  match format with
  | .yaml =>
    match Yaml.parse text with
    | .ok t => ofYaml t
    | .error .malformed => .failure (.malformed .yaml)
    | .error .manyDocuments => .failure (.misshapen .yaml ⟨.manyDocuments, []⟩)
  | .json =>
    match Json.parse? text with
    | some v => ofTree .json (.ofJson v)
    | none => .failure (.malformed .json)
  | .toml =>
    match Toml.parse? text with
    | some t => ofTree .toml t
    | none => .failure (.malformed .toml)

/-- The notation that an extension names; without one a file is YAML. -/
def Format.ofExtension (extension : Option String) : Except LoadError Format :=
  match extension.getD "yml" with
  | "yml" | "yaml" => .ok .yaml
  | "json" => .ok .json
  | "toml" => .ok .toml
  | other => .error (.unsupported other)

/-- The notation of the file at a path. An extension that is not text counts as none. -/
def Format.ofPath (path : List UInt8) : Except LoadError Format :=
  ofExtension ((Path.extension? path).bind Path.text?)

/-- Loads the workflow at a path, with its placeholders replaced. -/
def Workflow.load (s : Surroundings) (path : String) : Loaded :=
  match Format.ofPath (Path.ofText path) with
  | .error e => .failure e
  | .ok format =>
    match s.lookAt path with
    | .text content => parse format (Text.substitute s.env content)
    | found => .failure (.unreadable path (found.refusal?.getD ""))

/-! ## Discovery -/

/-- The names of a workflow file, in the order in which they are tried. -/
def fileNames : List String :=
  ["hatrack.yml", "hatrack.yaml", "hatrack.json", "hatrack.toml"]

/-- Where a workflow file is looked for: here first, then in the user's directory. -/
def searchPaths (s : Surroundings) : List String :=
  fileNames ++ (s.userDirectory.map fun d => fileNames.map (Path.append d)).getD []

/-- Loads the first workflow file found, and says where it was. -/
def Workflow.discover (s : Surroundings) : Loaded × Option String :=
  match (searchPaths s).find? fun p => (s.lookAt p).isThere with
  | some path => (load s path, some path)
  | none => (.failure (.notFound (searchPaths s)), none)

end Preflight
