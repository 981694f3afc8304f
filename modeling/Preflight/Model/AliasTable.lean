import Preflight.Names.Table
import Preflight.Text.Blank
/-!
Shorthands for model names, each belonging to a backend. Backends and shorthands are found whatever
their letter case and the blanks around them; blank ones are never stored.
-/

namespace Preflight

/-- The shorthands of each backend, under the keys of both. -/
structure AliasTable where
  backends : NameTable (NameTable String)
  deriving DecidableEq

namespace AliasTable

/-- The table without shorthands. -/
def empty : AliasTable :=
  ⟨.empty⟩

instance : Inhabited AliasTable :=
  ⟨empty⟩

/-- Adds a shorthand, or replaces the one of its name. Nothing happens if any of the three is
blank. -/
def insert (t : AliasTable) (backend name canonical : String) : AliasTable :=
  if Text.trim backend = "" ∨ Text.trim name = "" ∨ Text.trim canonical = "" then t
  else
    let entries := (t.backends.get? (Text.key backend)).getD .empty
    ⟨t.backends.insert (Text.key backend) (entries.insert (Text.key name) (Text.trim canonical))⟩

/-- Adds the shorthands of each backend in ascending order. -/
def withEntries (t : AliasTable) (entries : NameTable (NameTable String)) : AliasTable :=
  entries.entries.foldl
    (fun t b => b.2.entries.foldl (fun t a => t.insert b.1 a.1 a.2) t) t

/-- The shorthands that are always known. -/
def builtInEntries : List (String × List (String × String)) := [
  ("claude", [
    ("opus", "claude-opus-4-1-20250805"),
    ("sonnet", "claude-sonnet-4-5-20250929"),
    ("haiku", "claude-3-5-haiku-20241022"),
    ("default", "claude-sonnet-4-5-20250929")]),
  ("kiro", [
    ("opus", "claude-opus-4.1"),
    ("sonnet", "claude-sonnet-4.5"),
    ("haiku", "claude-haiku-4.5"),
    ("default", "claude-sonnet-4.5")]),
  ("gemini", [
    ("pro", "gemini-2.5-pro"),
    ("flash", "gemini-2.5-flash"),
    ("default", "gemini-2.5-pro")]),
  ("codex", [
    ("codex", "gpt-5-codex"),
    ("mini", "gpt-5-mini"),
    ("default", "gpt-5-codex")])]

/-- The table of the shorthands that are always known. -/
def builtIn : AliasTable :=
  builtInEntries.foldl (fun t b => b.2.foldl (fun t a => t.insert b.1 a.1 a.2) t) empty

/-- The model that a shorthand stands for on a backend. -/
def lookup (t : AliasTable) (backend name : String) : Option String := do
  (← t.backends.get? (Text.key backend)).get? (Text.key name)

/-- The model that a name stands for on a backend: the name itself if it is no shorthand. -/
def expand (t : AliasTable) (backend candidate : String) : String :=
  (t.lookup backend candidate).getD candidate

/-- The backends that have shorthands, in ascending order. -/
def names (t : AliasTable) : List String :=
  t.backends.names

/-- The shorthands of a backend and what they stand for, in ascending order. -/
def entries (t : AliasTable) (backend : String) : List (String × String) :=
  ((t.backends.get? (Text.key backend)).getD .empty).entries

end AliasTable

end Preflight
