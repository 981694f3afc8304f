import Preflight.Document.Fault
/-!
Why a workflow could not be loaded, and what messages say of it. A message names the outermost
reason; `cause?` gives the one behind it.
-/

namespace Preflight

/-- Why a workflow could not be loaded. -/
inductive LoadError where
  /-- Another reason, in words. -/
  | other (message : String)
  /-- The file could not be read; the reason is in words. -/
  | unreadable (path reason : String)
  /-- The text is not in its notation. -/
  | malformed (format : Format)
  /-- The document does not have the shape of a workflow. -/
  | misshapen (format : Format) (fault : Fault)
  /-- The file's extension names no notation. -/
  | unsupported (extension : String)
  /-- No file was named, and there is none at these paths. -/
  | notFound (searched : List String)

namespace LoadError

/-- The error in words, without what caused it. -/
def message : LoadError → String
  | .other message => message
  | .unreadable path reason => "failed to read " ++ path ++ ": " ++ reason
  | .malformed format | .misshapen format _ => "failed to parse " ++ format.title
  | .unsupported extension => "unsupported config format: ." ++ extension
  | .notFound searched =>
    "no workflow config found (searched " ++ ", ".intercalate searched ++ ")"

/-- The words for what caused the error, where they are this library's own. -/
def cause? : LoadError → Option String
  | .misshapen format fault => some (fault.describe format.dialect)
  | _ => none

/-- The error with what caused it, outermost first. -/
def chain (e : LoadError) : List String :=
  e.message :: e.cause?.toList

end LoadError

/-! ## Context -/

/-- Words about what was being done when something failed: at hand, or made only when needed. -/
inductive Context where
  | ready (words : String)
  | onDemand (words : Unit → String)

namespace Context

/-- The words. -/
def words : Context → String
  | .ready words => words
  | .onDemand make => make ()

/-- A failure with its context in front. -/
def onFailure (c : Context) : Except String α → Except LoadError α
  | .ok a => .ok a
  | .error reason => .error (.other (c.words ++ ": " ++ reason))

/-- What is absent, as a failure in the words of the context. -/
def onAbsence (c : Context) : Option α → Except LoadError α
  | some a => .ok a
  | none => .error (.other c.words)

/-- Whether the words were made for an outcome: on demand, and only for a failure. -/
def isMadeFor (c : Context) (outcome : Except LoadError α) : Bool :=
  match c, outcome with
  | .onDemand _, .error _ => true
  | _, _ => false

end Context

end Preflight
