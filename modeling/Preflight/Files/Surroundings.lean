/-!
What a command sees of the outside: variables, what lies at a path, and where the user keeps settings.
The answer for a path says as much as opening it would.
-/

namespace Preflight

/-- What lies at a path. -/
inductive Found where
  /-- A file whose content is text. -/
  | text (content : String)
  /-- A file whose content is not text. -/
  | binary
  | directory
  /-- Nothing. -/
  | missing
  /-- Nothing, because a part on the way is a file. -/
  | blocked
  deriving DecidableEq, Repr

/-- Whether anything lies at a path. -/
def Found.isThere : Found → Bool
  | .missing | .blocked => false
  | _ => true

/-- Why a path could not be read, in words; nothing if it could. -/
def Found.refusal? : Found → Option String
  | .text _ => none
  | .binary => some "stream did not contain valid UTF-8"
  | .directory => some "Is a directory (os error 21)"
  | .missing => some "No such file or directory (os error 2)"
  | .blocked => some "Not a directory (os error 20)"

/-- The variables and files that a command sees. -/
structure Surroundings where
  env : String → Option String
  lookAt : String → Found
  /-- The user's own directory for workflow files, where the system has one. -/
  userDirectory : Option String

/-- The surroundings in which variables and paths are as listed and nothing else is there. -/
def Surroundings.ofLists (set : List (String × String)) (found : List (String × Found)) :
    Surroundings where
  env := (set.lookup ·)
  lookAt := fun path => (found.lookup path).getD .missing
  userDirectory := none

end Preflight
