/-!
Placeholders for variables in a text: `${NAME}` and `${NAME:-fallback}`. `pieces` cuts a text from
left to right into plain characters, placeholders, and an unfinished end; `spell` writes a piece
back, so the pieces of a text spell the text (`flatMap_spell_pieces`). `substitute` replaces each
placeholder by its variable or its fallback and leaves the others as they are written.
-/

namespace Preflight.Text

/-- What a text with placeholders is made of. -/
inductive Piece where
  /-- A character that begins no placeholder. -/
  | plain (c : Char)
  /-- A placeholder: all before the first `:-` is the name, all after it the fallback. -/
  | slot (name : List Char) (fallback : Option (List Char))
  /-- The end of the text from a `${` that no `}` closes; `rest` is what follows the `${`. -/
  | unclosed (rest : List Char)
  deriving DecidableEq, Repr

/-- A text up to its first `}` and what follows the `}`. -/
def cutAtBrace : List Char → Option (List Char × List Char)
  | [] => none
  | c :: cs => if c = '}' then some ([], cs) else (cutAtBrace cs).map fun (b, r) => (c :: b, r)

/-- The text between the braces, split at its first `:-`. -/
def splitFallback : List Char → List Char × Option (List Char)
  | [] => ([], none)
  | ':' :: '-' :: cs => ([], some cs)
  | c :: cs => (c :: (splitFallback cs).1, (splitFallback cs).2)

theorem eq_of_cutAtBrace {cs body rest : List Char} (h : cutAtBrace cs = some (body, rest)) :
    cs = body ++ '}' :: rest := by
  induction cs generalizing body with
  | nil => simp [cutAtBrace] at h
  | cons c cs ih =>
    by_cases hc : c = '}'
    · simp_all [cutAtBrace]
    · simp only [cutAtBrace, if_neg hc, Option.map_eq_some_iff, Prod.mk.injEq, Prod.exists] at h
      obtain ⟨b, r, hb, rfl, rfl⟩ := h
      simp [ih hb]

/-- The pieces of a text, from left to right. -/
def pieces : List Char → List Piece
  | [] => []
  | '$' :: '{' :: cs =>
    match _h : cutAtBrace cs with
    | none => [.unclosed cs]
    | some (body, rest) => .slot (splitFallback body).1 (splitFallback body).2 :: pieces rest
  | c :: cs => .plain c :: pieces cs
termination_by cs => cs.length
decreasing_by
  · have := congrArg List.length (eq_of_cutAtBrace _h)
    simp at this ⊢
    omega
  · simp

/-- A piece as it is written. -/
def Piece.spell : Piece → List Char
  | .plain c => [c]
  | .slot name none => '$' :: '{' :: (name ++ ['}'])
  | .slot name (some fallback) => '$' :: '{' :: (name ++ ':' :: '-' :: (fallback ++ ['}']))
  | .unclosed rest => '$' :: '{' :: rest

/-- A name that can be looked up: letters, digits and underscores of ASCII, at least one. -/
def isVariable (name : List Char) : Bool :=
  !name.isEmpty && name.all fun c => c.isAlphanum || c == '_'

/-- What stands for a piece once variables are known: the variable if it is set and either not
empty or without a fallback, else the fallback, else the piece as it is written. -/
def Piece.fill (lookup : String → Option String) : Piece → List Char
  | .slot name fallback =>
    if isVariable name then
      match lookup (String.ofList name), fallback with
      | some value, some instead => if value = "" then instead else value.toList
      | some value, none => value.toList
      | none, some instead => instead
      | none, none => (Piece.slot name none).spell
    else (Piece.slot name fallback).spell
  | p => p.spell

/-- A text with its placeholders replaced. What is put in is not scanned again. -/
def substitute (lookup : String → Option String) (text : String) : String :=
  String.ofList ((pieces text.toList).flatMap (·.fill lookup))

/-! ## The pieces spell the text -/

theorem spell_splitFallback (body : List Char) :
    (Piece.slot (splitFallback body).1 (splitFallback body).2).spell = '$' :: '{' :: (body ++ ['}']) := by
  induction body using splitFallback.induct with
  | case1 => rfl
  | case2 cs => simp [splitFallback, Piece.spell]
  | case3 c cs h ih =>
    rw [splitFallback]
    · revert ih
      cases (splitFallback cs).2 <;> simp [Piece.spell]
    · exact h

/-- Cutting a text into pieces loses nothing. -/
theorem flatMap_spell_pieces (cs : List Char) : (pieces cs).flatMap Piece.spell = cs := by
  induction cs using pieces.induct with
  | case1 => simp [pieces]
  | case2 cs h => rw [pieces]; split <;> simp_all [Piece.spell]
  | case3 cs body rest h ih =>
    rw [pieces]
    split
    · simp_all
    · rename_i b r h'
      obtain ⟨rfl, rfl⟩ : b = body ∧ r = rest := by simpa [h] using h'.symm
      simp [spell_splitFallback, ih, eq_of_cutAtBrace h]
  | case4 c cs h ih =>
    rw [pieces]
    · simp [Piece.spell, ih]
    · exact h

end Preflight.Text
