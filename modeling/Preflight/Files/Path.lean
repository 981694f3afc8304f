/-!
Paths as octets, with slashes between their parts. Parts that are empty or a single dot do not
count.
-/

namespace Preflight.Path

/-- The octet of an ASCII character. -/
def octet (c : Char) : UInt8 :=
  c.toNat.toUInt8

/-- The parts of a list between separators. -/
def splitAt [BEq α] (separator : α) : List α → List (List α)
  | [] => [[]]
  | b :: bs =>
    if b == separator then [] :: splitAt separator bs
    else
      match splitAt separator bs with
      | [] => [[b]]
      | part :: parts => (b :: part) :: parts

/-- The parts of a path that count. -/
def parts (path : List UInt8) : List (List UInt8) :=
  (splitAt (octet '/') path).filter fun p => !p.isEmpty && p != [octet '.']

/-- The name of the file that a path leads to; a path that ends on the way up leads to none. -/
def fileName? (path : List UInt8) : Option (List UInt8) :=
  (parts path).getLast?.filter (· != [octet '.', octet '.'])

/-- What follows the last dot of a file's name, unless the name has no dot but its first
character. -/
def extension? (path : List UInt8) : Option (List UInt8) := do
  let pieces := splitAt (octet '.') (← fileName? path)
  match pieces with
  | [] | [_] => none
  | [[], _] => none
  | _ => pieces.getLast?

/-- A text of octets in UTF-8, if it is one. -/
def text? (octets : List UInt8) : Option String :=
  String.fromUTF8? ⟨octets.toArray⟩

/-- The octets of a text in UTF-8. -/
def ofText (s : String) : List UInt8 :=
  s.toUTF8.toList

/-- A path one part longer. -/
def append (directory name : String) : String :=
  if directory = "" then name
  else if directory.toList.getLast? == some '/' then directory ++ name
  else directory ++ "/" ++ name

end Preflight.Path
