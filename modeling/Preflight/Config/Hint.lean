import Preflight.Document.ToJson
import Preflight.Text.Distance
/-!
Hints at entries that no reader looks at. `hints` walks a JSON value along the known shape of a
workflow and names every key outside it, with the known key it is nearest to. A hint never says
that a value is wrong: where the value is no object the walk stops.
-/

namespace Preflight.Config

/-- What the keys of a value are known to be. -/
inductive Keys where
  /-- A value in which no key is looked at. -/
  | leaf
  /-- An object whose keys are free, and what is known of each value. -/
  | free (each : Keys)
  /-- An object with these keys and no others. -/
  | fixed (known : List (String × Keys))

/-- An entry that no reader looks at. -/
structure Hint where
  /-- The keys that lead to the entry, joined by dots. -/
  path : String
  /-- The known key that is nearest, if one is near. -/
  suggestion : Option String
  deriving DecidableEq, Repr

/-- A hint in words. -/
def Hint.describe (h : Hint) : String :=
  "unknown key " ++ h.path ++
    match h.suggestion with
    | some s => " (did you mean \"" ++ s ++ "\"?)"
    | none => ""

/-- The known keys of a workflow. -/
def workflowKeys : Keys :=
  .fixed [
    ("aliases", .free (.free .leaf)),
    ("cli", .fixed [("backend", .leaf), ("model", .leaf)]),
    ("description", .leaf),
    ("events", .free (.fixed [("description", .leaf)])),
    ("hats", .free (.fixed [
      ("backend", .leaf), ("description", .leaf), ("instructions", .leaf), ("model", .leaf),
      ("name", .leaf), ("publishes", .leaf), ("subscriptions", .leaf), ("triggers", .leaf)])),
    ("name", .leaf)]

/-- How far a key may be from the known key suggested for it. -/
def hintReach : Nat := 3

/-- A path one key longer. -/
def join (path key : String) : String :=
  if path = "" then key else path ++ "." ++ key

mutual

/-- The hints inside a value at a path, in the order of its entries. -/
def hintsAt (path : String) : Keys → Json → List Hint
  | .free each, .object entries => hintsFree path each entries
  | .fixed known, .object entries => hintsFixed path known entries
  | _, _ => []

/-- The hints inside the values of entries with free keys. -/
def hintsFree (path : String) (each : Keys) : List (String × Json) → List Hint
  | [] => []
  | (key, v) :: es => hintsAt (join path key) each v ++ hintsFree path each es

/-- The hints at the keys of entries that are not known, and inside the values of those that are. -/
def hintsFixed (path : String) (known : List (String × Keys)) : List (String × Json) → List Hint
  | [] => []
  | (key, v) :: es =>
    (match known.lookup key with
      | some keys => hintsAt (join path key) keys v
      | none => [⟨join path key, Text.nearest key hintReach (known.map (·.1))⟩]) ++
    hintsFixed path known es

end

/-- The hints for a workflow written as a JSON value, in the order of their paths. -/
def hints (v : Json) : List Hint :=
  (hintsAt "" workflowKeys v).mergeSort fun a b => a.path ≤ b.path

/-- The hints for a workflow's tree; a tree without a JSON value has none. -/
def hintsOfTree (t : Tree) : List Hint :=
  (t.toJson?.map hints).getD []

end Preflight.Config
