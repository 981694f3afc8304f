import Preflight.Proofs.Document.Reordered
/-!
# Trees of JSON values

Where every object of a JSON value gives each name once, no two keys of a map
of its tree have the same text (`distinct_ofJson`). A tree that differs from it
only in the order of entries has the same entries (`object_of_reordered`).
-/

namespace Preflight

namespace Json

mutual

/-- In every object of the value each name comes once. -/
def Unique : Json → Prop
  | .array items => UniqueItems items
  | .object entries => (entries.map (·.1)).Nodup ∧ UniqueEntries entries
  | _ => True

/-- In every object of the items each name comes once. -/
def UniqueItems : List Json → Prop
  | [] => True
  | v :: vs => v.Unique ∧ UniqueItems vs

/-- In every object of the values each name comes once. -/
def UniqueEntries : List (String × Json) → Prop
  | [] => True
  | (_, v) :: es => v.Unique ∧ UniqueEntries es

end

theorem uniqueEntries_iff (es : List (String × Json)) : UniqueEntries es ↔ ∀ e ∈ es, e.2.Unique := by
  induction es with
  | nil => simp [UniqueEntries]
  | cons e es ih =>
    obtain ⟨name, v⟩ := e
    rw [UniqueEntries, ih, List.forall_mem_cons]

theorem unique_object_iff (es : List (String × Json)) :
    (Json.object es).Unique ↔ (es.map (·.1)).Nodup ∧ ∀ e ∈ es, e.2.Unique := by
  rw [Unique, uniqueEntries_iff]

theorem unique_ofTexts (texts : List String) : (Json.ofTexts texts).Unique := by
  rw [Json.ofTexts, Unique]
  induction texts with
  | nil => trivial
  | cons s texts ih => exact ⟨trivial, ih⟩

end Json

namespace Tree

section Distinct
variable {text? : Tree → Option String}

theorem keysDiffer_ofJsonEntries (htext : ∀ s, text? (.text s) = some s) {es : List (String × Json)}
    (h : (es.map (·.1)).Nodup) : KeysDiffer text? (ofJsonEntries es) := by
  rw [ofJsonEntries_eq_map, KeysDiffer, List.pairwise_map]
  refine (List.pairwise_map.1 h).imp ?_
  intro d e hne s hd he
  rw [htext, Option.some.injEq] at hd he
  exact hne (hd.trans he.symm)

mutual

/-- Where names come once, keys have different texts. -/
theorem distinct_ofJson (htext : ∀ s, text? (.text s) = some s) : ∀ {v : Json}, v.Unique → (ofJson v).Distinct text?
  | .null, _ | .bool _, _ | .int _, _ | .float _, _ | .text _, _ => trivial
  | .array _, h => distinct_ofJsonItems htext h
  | .object _, h => ⟨keysDiffer_ofJsonEntries htext h.1, distinct_ofJsonEntries htext h.2⟩

theorem distinct_ofJsonItems (htext : ∀ s, text? (.text s) = some s) : ∀ {vs : List Json}, Json.UniqueItems vs →
    DistinctItems text? (ofJsonItems vs)
  | [], _ => trivial
  | _ :: _, h => ⟨distinct_ofJson htext h.1, distinct_ofJsonItems htext h.2⟩

theorem distinct_ofJsonEntries (htext : ∀ s, text? (.text s) = some s) : ∀ {es : List (String × Json)},
    Json.UniqueEntries es → DistinctEntries text? (ofJsonEntries es)
  | [], _ => trivial
  | (_, _) :: _, h => ⟨distinct_ofJson htext h.1, distinct_ofJsonEntries htext h.2⟩

end

end Distinct

theorem ofJson_eq_null_iff (v : Json) : ofJson v = .null ↔ v = .null := by
  cases v <;> simp [ofJson]

/-! ## Reordered objects -/

theorem mem_of_reorderedEntries : ∀ {es ms : List (Tree × Tree)}, ReorderedEntries es ms → ∀ m ∈ ms,
    ∃ e ∈ es, e.1 = m.1 ∧ Reordered e.2 m.2
  | _, _, .nil, m, hm => absurd hm List.not_mem_nil
  | _, _, .cons k h hs, m, hm => by
    rcases List.mem_cons.1 hm with rfl | hm
    · exact ⟨_, List.mem_cons_self, rfl, h⟩
    · obtain ⟨e, he, hkey, hvalue⟩ := mem_of_reorderedEntries hs m hm
      exact ⟨e, List.mem_cons_of_mem _ he, hkey, hvalue⟩

theorem mem_of_reordered_map {es fs : List (Tree × Tree)} (h : Reordered (.map es) (.map fs)) :
    ∀ f ∈ fs, ∃ e ∈ es, e.1 = f.1 ∧ Reordered e.2 f.2 := by
  intro f hf
  cases h with
  | same => exact ⟨f, hf, rfl, .same _⟩
  | map h hp => exact mem_of_reorderedEntries h f (hp.mem_iff.2 hf)

/-- What differs from an object only in order is an object with the same names, and values that differ only in
order. -/
theorem object_of_reordered {es : List (String × Json)} {v : Json} (h : Reordered (ofJson (.object es)) (ofJson v)) :
    ∃ fs, v = .object fs ∧ ∀ f ∈ fs, ∃ e ∈ es, e.1 = f.1 ∧ Reordered (ofJson e.2) (ofJson f.2) := by
  cases v with
  | object fs =>
    refine ⟨fs, rfl, ?_⟩
    intro f hf
    rw [ofJson, ofJson, ofJsonEntries_eq_map, ofJsonEntries_eq_map] at h
    obtain ⟨_, hmem, hkey, hvalue⟩ := mem_of_reordered_map h _ (List.mem_map_of_mem hf)
    obtain ⟨e, he, rfl⟩ := List.mem_map.1 hmem
    exact ⟨e, he, Tree.text.inj hkey, hvalue⟩
  | _ => cases h

end Tree

end Preflight
