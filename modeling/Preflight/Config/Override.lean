import Preflight.Text.Blank
import Preflight.Json.Basic
/-!
A setting that may be absent, present but blank, or given. The first two differ in how a workflow
is written back, and in nothing else: both leave the choice to the next layer (`value?`).
-/

namespace Preflight

/-- A setting for a model or backend. -/
inductive Override where
  | unset
  | blank
  | given (text : String)
  deriving DecidableEq, Repr

namespace Override

instance : Inhabited Override :=
  ⟨.unset⟩

/-- A setting that is present, from its text: trimmed, and blank if nothing is left. -/
def parse (raw : String) : Override :=
  let text := Text.trim raw
  if text = "" then .blank else .given text

/-- A setting from a text that may be absent. -/
def ofOption : Option String → Override
  | none => .unset
  | some raw => parse raw

/-- The text that is given, if any. -/
def value? : Override → Option String
  | .given text => some text
  | _ => none

/-- Whether the setting is absent. -/
def isUnset : Override → Bool
  | .unset => true
  | _ => false

/-- The setting in words. -/
def describe : Override → String
  | .unset => "(unset)"
  | .blank => "(empty)"
  | .given text => text

/-- The setting as a JSON value. -/
def toJson : Override → Json
  | .unset => .null
  | .blank => .text ""
  | .given text => .text text

/-- The entry of the setting in an object; an absent setting has none. -/
def entry? (name : String) (o : Override) : Option (String × Json) :=
  if o.isUnset then none else some (name, o.toJson)

/-- A setting whose text, if given, is neither blank nor has blanks around it. -/
def Clean (o : Override) : Prop :=
  ∀ text, o.value? = some text → Text.Solid text

theorem clean_parse (raw : String) : (parse raw).Clean := by
  intro text h
  simp only [parse] at h
  split at h
  · simp [value?] at h
  · rename_i hne
    simp only [value?, Option.some.injEq] at h
    exact h ▸ Text.solid_trim hne

/-- A text gives a setting exactly when it is not blank throughout. -/
theorem value?_parse (raw : String) :
    (parse raw).value? = if Text.trim raw = "" then none else some (Text.trim raw) := by
  simp only [parse]
  split <;> simp_all [value?]

end Override

end Preflight
