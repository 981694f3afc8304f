import Preflight.Document.Tree
import Preflight.Document.Dialect
import Preflight.Text.Quoted
/-!
Why a tree does not have the shape that is read from it, and how messages say so.
-/

namespace Preflight

/-- What a reader wants to find. -/
inductive Wanted where
  | text
  | list
  | map
  | record (title : String)
  | fieldName
  deriving DecidableEq, Repr

/-- What is wrong with a tree. -/
inductive Cause where
  /-- A value of another kind than the one wanted. -/
  | unexpected (found : Tree) (wanted : Wanted)
  /-- A field given twice, under one spelling or two. -/
  | duplicateField (name : String)
  /-- A name that is no text, number or truth value. -/
  | notScalar
  /-- A name with a tag in it. -/
  | taggedName
  /-- A list longer than the record it stands for. -/
  | tooLong (length : Nat)
  /-- More than one document in a stream. -/
  | manyDocuments

/-- A cause, and the entries in which it lies, from the outside in. -/
structure Fault where
  cause : Cause
  path : List String

/-- What a reader wants, in words. -/
def Wanted.describe : Wanted → String
  | .text => "a string"
  | .list => "a sequence"
  | .map => "a map"
  | .record title => "struct " ++ title
  | .fieldName => "field identifier"

/-- What a reader found, in words. -/
def Tree.describe (d : Dialect) : Tree → String
  | .null => d.nullName
  | .bool b => "boolean `" ++ (if b then "true" else "false") ++ "`"
  | .int n => "integer `" ++ toString n ++ "`"
  | .float x => "floating point `" ++ d.numbers.write x ++ "`"
  | .text s | .date s => "string " ++ Text.quoted s
  | .list _ => "sequence"
  | .map _ => "map"
  | .tagged .. => "enum"

/-- A cause in words. -/
def Cause.describe (d : Dialect) : Cause → String
  | .unexpected found wanted =>
    "invalid type: " ++ found.describe d ++ ", expected " ++ wanted.describe
  | .duplicateField name => "duplicate field `" ++ name ++ "`"
  | .notScalar => "data did not match any variant of untagged enum Scalar"
  | .taggedName => "untagged and internally tagged enums do not support enum input"
  | .tooLong length =>
    "invalid length " ++ toString length ++ ", expected fewer elements in array"
  | .manyDocuments => "deserializing from YAML containing more than one document is not supported"

/-- A fault in words: its cause and, where the dialect says so, its place on a line of its own. -/
def Fault.describe (d : Dialect) (f : Fault) : String :=
  if d.placed then
    f.cause.describe d ++ "\n" ++
      if f.path.isEmpty then "" else "in `" ++ ".".intercalate f.path ++ "`\n"
  else f.cause.describe d

end Preflight
