import Preflight.Model.Selection
/-!
The listing of a table of shorthands: what is built in, then each backend with its shorthands in
a column ten characters wide.
-/

namespace Preflight

/-- A text with blanks after it, up to a number of characters. No width takes more than 16 bits. -/
def padTo (width : UInt16) (s : String) : String :=
  s ++ String.ofList (List.replicate (width.toNat - s.length) ' ')

/-- The line of a shorthand. -/
def aliasLine (e : String × String) : String :=
  "  " ++ padTo 10 e.1 ++ " " ++ e.2

/-- The line of a backend without shorthands. -/
def noAliasesLine : String :=
  "  (no aliases; model names pass through unchanged)"

/-- The lines of a backend. -/
def AliasTable.backendLines (t : AliasTable) (backend : String) : List String :=
  (backend ++ ":") ::
    match t.entries backend with
    | [] => [noAliasesLine]
    | es => es.map aliasLine

/-- The lines of a listing, of one backend or of all that have shorthands. -/
def AliasTable.listingLines (t : AliasTable) (only : Option String) : List String :=
  ("built-in defaults: backend=" ++ builtInBackend ++ " model=" ++ builtInModel) ::
    ((only.map fun b => [b]).getD t.names).flatMap t.backendLines

/-- The listing of a table. -/
def AliasTable.listing (t : AliasTable) (only : Option String) : String :=
  "\n".intercalate (t.listingLines only)

end Preflight
