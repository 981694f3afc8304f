import Preflight.Model.Selection
import Preflight.Proofs.Config.Clean
import Preflight.Proofs.Model.AliasTable
/-!
# The first layer that gives a text

A setting is the first text that is not blank among those of its layers: the
hat's own, what was given on the command line with the latest first, the file's
and what is built in (`firstGiven_layers`). Where all of these are clean the
selection has no blanks around it (`select_unpadded`).
-/

namespace Preflight

/-! ## Layers -/

/-- A text that may be absent, trimmed, if it is not blank. -/
def nonBlank? (raw : Option String) : Option String :=
  raw.bind fun s => if Text.trim s = "" then none else some (Text.trim s)

/-- The first text that is not blank, trimmed, and its layer. -/
def firstGiven (layers : List (Option String × Layer)) : Option (String × Layer) :=
  layers.findSome? fun l => (nonBlank? l.1).map (·, l.2)

/-- The layers of a setting: the hat's own, those given one after the other on the command line, the file's, and what is
built in. -/
def layers (own : Override) (given : List (Option String)) (file : Override) (builtIn : String) :
    List (Option String × Layer) :=
  (own.value?, .hat) :: given.reverse.map (·, .defaults) ++ [(file.value?, .defaults), (some builtIn, .builtIn)]

theorem nonBlank?_of_solid {s : String} (h : Text.Solid s) : nonBlank? (some s) = some s := by
  obtain ⟨hne, htrim⟩ := h
  rw [nonBlank?, Option.bind_some, htrim, if_neg hne]

theorem nonBlank?_value? {o : Override} (ho : o.Clean) : nonBlank? o.value? = o.value? := by
  cases hv : o.value? with
  | none => rfl
  | some s => exact nonBlank?_of_solid (ho s hv)

theorem value?_replaceBy (o : Override) (raw : Option String) :
    (o.replaceBy raw).value? = (nonBlank? raw).or o.value? := by
  cases raw with
  | none => rfl
  | some s =>
    have hparse := Override.value?_parse s
    unfold Override.replaceBy
    rw [Option.map_some, nonBlank?, Option.bind_some, ← hparse]
    cases Override.parse s <;> rfl

/-- What is given last on the command line counts, unless it is blank. -/
theorem value?_foldl_replaceBy (o : Override) (given : List (Option String)) :
    (given.foldl Override.replaceBy o).value? = (given.reverse.findSome? nonBlank?).or o.value? := by
  induction given generalizing o with
  | nil => rfl
  | cons raw given ih =>
    rw [List.foldl_cons, ih, value?_replaceBy, List.reverse_cons, List.findSome?_append, Option.or_assoc]
    congr 2
    cases h : nonBlank? raw <;> simp [h]

theorem some_choose (own defaults : Override) (builtIn : String) :
    some (choose own defaults builtIn) =
      (own.value?.map (·, Layer.hat)).or ((defaults.value?.map (·, Layer.defaults)).or (some (builtIn, .builtIn))) := by
  unfold choose
  cases own.value? with
  | some s => rfl
  | none => cases defaults.value? <;> rfl

/-- A choice is the first text that is not blank among its layers. -/
theorem firstGiven_layers {own file : Override} (hown : own.Clean) (hfile : file.Clean) {builtIn : String}
    (hbuiltIn : Text.Solid builtIn) (given : List (Option String)) :
    firstGiven (layers own given file builtIn) = some (choose own (given.foldl Override.replaceBy file) builtIn) := by
  have hgiven : (given.reverse.map (·, Layer.defaults)).findSome? (fun l => (nonBlank? l.1).map (·, l.2)) =
      (given.reverse.findSome? nonBlank?).map (·, Layer.defaults) := by
    rw [List.findSome?_map, List.map_findSome?]
    rfl
  have hrest : ([(file.value?, .defaults), (some builtIn, .builtIn)] : List (Option String × Layer)).findSome?
      (fun l => (nonBlank? l.1).map (·, l.2)) =
        (file.value?.map (·, Layer.defaults)).or (some (builtIn, .builtIn)) := by
    simp only [List.findSome?_cons, nonBlank?_value? hfile, nonBlank?_of_solid hbuiltIn]
    cases file.value? <;> rfl
  rw [some_choose, value?_foldl_replaceBy, firstGiven, layers, List.findSome?_append, List.findSome?_cons,
    nonBlank?_value? hown, hgiven, hrest]
  cases own.value? with
  | some s => rfl
  | none => cases given.reverse.findSome? nonBlank? <;> rfl

/-! ## Selections without blanks around them -/

/-- The settings that can be made: those of absent keys, of texts, of trees and of the command line. -/
inductive Override.Made : Override → Prop
  | absent : Made .unset
  | parse (raw : String) : Made (.parse raw)
  | read {d : Dialect} {t : Tree} {o : Override} (h : Config.readOverride d t = .ok o) : Made o
  | replace {o : Override} (h : Made o) (raw : Option String) : Made (o.replaceBy raw)

theorem Override.Made.clean {o : Override} (h : o.Made) : o.Clean := by
  induction h with
  | absent => exact clean_unset
  | parse raw => exact clean_parse raw
  | read h => exact Config.clean_readOverride h
  | replace _ raw ih => exact Workflow.clean_replaceBy ih raw

/-- Neither the model nor the backend is empty or has a blank at its start or end. -/
structure Selection.Unpadded (s : Selection) : Prop where
  model : Text.Unpadded s.model
  backend : Text.Unpadded s.backend

theorem solid_builtInBackend : Text.Solid builtInBackend := by
  constructor <;> decide

theorem solid_builtInModel : Text.Solid builtInModel := by
  constructor <;> decide

theorem solid_choose {own defaults : Override} (hown : own.Clean) (hdefaults : defaults.Clean) {builtIn : String}
    (hbuiltIn : Text.Solid builtIn) : Text.Solid (choose own defaults builtIn).1 := by
  unfold choose
  split
  · rename_i s hs
    exact hown s hs
  · rename_i s _ hs
    exact hdefaults s hs
  · exact hbuiltIn

theorem select_unpadded {t : AliasTable} (ht : t.Clean) {hat : Hat} (hhat : hat.Clean) {defaults : Defaults}
    (hdefaults : defaults.Clean) : (t.select hat defaults).Unpadded := by
  have hbackend := solid_choose hhat.backend hdefaults.backend solid_builtInBackend
  have hcandidate := solid_choose hhat.model hdefaults.model solid_builtInModel
  constructor
  · exact (Text.solid_iff_unpadded _).1 (ht.expand _ hcandidate)
  · exact (Text.solid_iff_unpadded _).1 hbackend

end Preflight
