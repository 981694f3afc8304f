import Preflight.Proofs.Config.Notations
import Preflight.Proofs.Config.Stray
import Preflight.Proofs.Config.Vacant
import Preflight.Proofs.Document.Rearranged
/-!
# The order of a document does not matter

A document is loaded alike in whatever order the entries of its maps stand, and
in whatever order and however often the items of its lists come
(`loads_rearranged`): the shape is steady, and the hints depend only on the
objects of the JSON value.
-/

namespace Preflight

namespace Config

/-! ## Hints -/

mutual

theorem strays_alike : ∀ {v w : Json}, v.Alike w → ∀ keys : Keys, strays keys v = strays keys w
  | _, _, .same _, _ | _, _, .array _ _, _ => rfl
  | _, _, .object h, keys => straysIn_alike h keys

theorem straysIn_alike : ∀ {es fs : List (String × Json)}, Json.AlikeEntries es fs → ∀ keys : Keys,
    straysIn keys es = straysIn keys fs
  | _, _, .nil, _ => rfl
  | _, _, .cons name h hs, keys => by
    rw [straysIn, straysIn, straysIn_alike hs keys]
    congr 1
    cases keys.beneath name with
    | none => rfl
    | some below => exact congrArg (List.map (Stray.under name)) (strays_alike h below)

end

/-- Rearranged trees have the same hints in the same order. -/
theorem hintsOfTree_rearranged {t u : Tree} (h : t.Rearranged u) (hd : t.Distinct Tree.keyText?) :
    hintsOfTree t = hintsOfTree u := by
  have hkeyed : t.toJson?.isSome ↔ u.toJson?.isSome := by
    rw [Tree.isSome_toJson?_iff, Tree.isSome_toJson?_iff, Tree.keyed_rearranged h]
  rw [hintsOfTree, hintsOfTree]
  cases hv : t.toJson? with
  | none =>
    have hw : u.toJson? = none := by simpa [hv] using hkeyed
    rw [hw]
  | some v =>
    obtain ⟨w, hw⟩ := Option.isSome_iff_exists.1 (hkeyed.1 (by rw [hv]; rfl))
    have halike := Tree.alike_toJson? h hd hv hw
    simp only [hw, Option.map_some, hints, hintsAt_eq_map, strays_alike halike]

/-! ## The shape -/

theorem hereditary_steady : Hereditary fun _ read => Steady read where
  text := steady_readText
  nameSet := steady_readNameSet
  option := steady_readOption
  map := steady_map
  table hkey h := steady_readTable hkey h
  record := steady_readRecord

theorem steady_shape : Steady shape :=
  hereditary_steady.shape

end Config

namespace Workflow

variable {t u : Tree}

theorem ofYaml_rearranged (h : t.Rearranged u) :
    ofYaml t = ofYaml u ∨ ofYaml t = ofTree .yaml t ∧ ofYaml u = ofTree .yaml u := by
  have hnull := h.untag_eq_iff (x := .null) (by simp) (by simp)
  by_cases ht : t.untag = .null
  · left
    rw [ofYaml, ofYaml, ht, hnull.1 ht]
  · exact .inr ⟨ofYaml_of_untag_ne ht, ofYaml_of_untag_ne (mt hnull.2 ht)⟩

theorem verdict?_congr {l m : Loaded} (h : l.Agrees m) : verdict? l = verdict? m := by
  have hresult : l.result.toOption = m.result.toOption :=
    Option.ext fun w => by rw [toOption_eq_some_iff, toOption_eq_some_iff, h.2 w]
  rw [verdict?, verdict?, hresult]

/-- A document in which no two keys of a map have one text, neither as a name nor in JSON, is loaded alike in whatever
order the entries of its maps stand, and in whatever order and however often the items of its lists come: with the same
hints in the same order, as the same workflow or not at all, hence with the same plan or the same report. -/
theorem loads_rearranged (hname : t.Distinct Tree.name?) (hkey : t.Distinct Tree.keyText?) (h : t.Rearranged u) :
    (ofYaml t).Agrees (ofYaml u) ∧ verdict? (ofYaml t) = verdict? (ofYaml u) := by
  have hagrees : (ofYaml t).Agrees (ofYaml u) := by
    rcases ofYaml_rearranged h with heq | ⟨ht, hu⟩
    · rw [heq]
      exact ⟨rfl, fun _ => .rfl⟩
    · rw [ht, hu]
      refine ⟨Config.hintsOfTree_rearranged h hkey, ?_⟩
      intro w
      rw [ofTree_eq_ok_iff, ofTree_eq_ok_iff]
      exact Config.steady_shape _ rfl t u h hname w
  exact ⟨hagrees, verdict?_congr hagrees⟩

/-- A document with an unknown key and a hat that waits for two events. -/
def waitingHat : Tree :=
  .map [(.text "hats", .map [(.text "b", .map [(.text "triggers", .list [.text "go", .int 1])]), (.text "a", .null)]),
    (.text "hue", .int 3)]

theorem waitingHat_rearranged :
    let u : Tree := .map [(.text "hue", .int 3), (.text "hats", .map [(.text "a", .null),
      (.text "b", .map [(.text "triggers", .list [.int 1, .text "go", .int 1])])])]
    (ofYaml waitingHat).Agrees (ofYaml u) ∧ verdict? (ofYaml waitingHat) = verdict? (ofYaml u) ∧
      (verdict? (ofYaml u)).isSome := by
  intro u
  have hset (x : Tree) : x ∈ [.text "go", .int 1] ↔ x ∈ [.int 1, .text "go", .int 1] := by
    simp only [List.mem_cons, List.not_mem_nil, or_false]
    tauto
  have hitems : Tree.RearrangedItems [.text "go", .int 1] [.text "go", .int 1] := .cons (.same _) (.cons (.same _) .nil)
  have hbody : Tree.Rearranged (.map [(.text "triggers", .list [.text "go", .int 1])])
      (.map [(.text "triggers", .list [.int 1, .text "go", .int 1])]) :=
    .map (.cons (.same _) (.list hitems hset) .nil) (.refl _)
  have hhats : Tree.Rearranged
      (.map [(.text "b", .map [(.text "triggers", .list [.text "go", .int 1])]), (.text "a", .null)])
      (.map [(.text "a", .null), (.text "b", .map [(.text "triggers", .list [.int 1, .text "go", .int 1])])]) :=
    .map (.cons (.same _) hbody (.cons (.same _) (.same _) .nil)) (.swap _ _ [])
  have hu : waitingHat.Rearranged u := .map (.cons (.same _) hhats (.cons (.same _) (.same _) .nil)) (.swap _ _ [])
  have hname : waitingHat.Distinct Tree.name? := by
    simp [waitingHat, Tree.Distinct, Tree.DistinctEntries, Tree.DistinctItems, Tree.KeysDiffer, Tree.name?, Tree.untag,
      Tree.scalarText?]
  have hkey : waitingHat.Distinct Tree.keyText? := by
    simp [waitingHat, Tree.Distinct, Tree.DistinctEntries, Tree.DistinctItems, Tree.KeysDiffer, Tree.keyText?]
  obtain ⟨hagrees, hverdict⟩ := loads_rearranged hname hkey hu
  refine ⟨hagrees, hverdict, ?_⟩
  rw [← hverdict]
  decide +kernel

end Workflow

end Preflight
