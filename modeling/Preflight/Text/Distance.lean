/-!
Edit distance between texts, counted in characters, and the nearest of several candidates.
`distances s t` holds the distance of `s` to every suffix of `t`, so the table is one list per
character of `s`, each made from the list below it.
-/

namespace Preflight.Text

/-- The distances of `c :: s` to every suffix of a text, from those of `s` to the same suffixes. -/
def prependRow (c : Char) : List Char → List Nat → List Nat
  | d :: ds, here :: next :: below =>
    match prependRow c ds (next :: below) with
    | [] => []
    | right :: row =>
      min (min (next + if c = d then 0 else 1) (here + 1)) (right + 1) :: right :: row
  | _, row => row.map (· + 1)

/-- The distances of a text to every suffix of another, the whole of it first. -/
def distances : List Char → List Char → List Nat
  | [], t => (List.range (t.length + 1)).reverse
  | c :: s, t => prependRow c t (distances s t)

/-- The least number of characters to insert, delete or replace to turn one text into another. -/
def distance (s t : String) : Nat :=
  (distances s.toList t.toList).headD 0

/-- The nearer of the best candidate so far and the next one: a candidate counts when it differs
from the needle and is within reach, and the earlier wins a tie. -/
def nearer (needle : String) (reach : Nat) (best : Option (String × Nat)) (candidate : String) :
    Option (String × Nat) :=
  let d := distance needle candidate
  if 0 < d ∧ d ≤ reach ∧ best.all (d < ·.2) then some (candidate, d) else best

/-- The candidate nearest to the needle among those that differ from it and are within reach;
of several, the first. -/
def nearest (needle : String) (reach : Nat) (candidates : List String) : Option String :=
  (candidates.foldl (nearer needle reach) none).map (·.1)

theorem length_prependRow (c : Char) (t : List Char) (row : List Nat)
    (h : row.length = t.length + 1) : (prependRow c t row).length = t.length + 1 := by
  induction t generalizing row with
  | nil => simpa [prependRow] using h
  | cons d t ih =>
    match row, h with
    | here :: next :: below, h =>
      have := ih (next :: below) (by simpa using h)
      simp only [prependRow]
      split
      · simp_all
      · simp_all

/-- Each row of the table has an entry for every suffix. -/
theorem length_distances (s t : List Char) : (distances s t).length = t.length + 1 := by
  induction s with
  | nil => simp [distances]
  | cons c s ih => exact length_prependRow c t _ ih

end Preflight.Text
