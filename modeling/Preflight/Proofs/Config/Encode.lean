import Preflight.Config.Encode
import Preflight.Proofs.Config.Hint
/-!
# The JSON value of a workflow

It gives each name once (`unique_toJson`) and has no entry that would be hinted
at, in whatever order its entries stand (`hints_eq_nil_of_reordered`).
-/

namespace Preflight.Config

/-! ## Entries -/

theorem entry?_sublist (name : String) (o : Override) : (o.entry? name).toList.Sublist [(name, o.toJson)] := by
  unfold Override.entry?
  split
  · exact List.nil_sublist _
  · exact List.Sublist.refl _

/-- The entries of the defaults are among these. -/
theorem defaults_toJson_sublist (x : Defaults) : ∃ es, x.toJson = .object es ∧
    es.Sublist [("model", x.model.toJson), ("backend", x.backend.toJson)] :=
  ⟨_, rfl, (entry?_sublist "model" x.model).append (entry?_sublist "backend" x.backend)⟩

/-- The entries of a hat are among these. -/
theorem hat_toJson_sublist (h : Hat) : ∃ es, h.toJson = .object es ∧
    es.Sublist [("name", .text h.name), ("description", .text h.description), ("triggers", .ofTexts h.triggers.toList),
      ("publishes", .ofTexts h.publishes.toList), ("model", h.model.toJson), ("backend", h.backend.toJson),
      ("instructions", .text h.instructions)] := by
  refine ⟨_, rfl, ?_⟩
  have hsettings := (entry?_sublist "model" h.model).append (entry?_sublist "backend" h.backend)
  have hrest := hsettings.append (List.Sublist.refl [("instructions", Json.text h.instructions)])
  rw [List.append_assoc, List.append_assoc, ← List.append_assoc (h.model.entry? "model").toList]
  exact (List.Sublist.refl _).append hrest

/-- The entries of a workflow are among these. -/
theorem workflow_toJson_sublist (w : Workflow) : ∃ es, w.toJson = .object es ∧
    es.Sublist [("name", .text w.name), ("description", .text w.description), ("hats", w.hats.toJson Hat.toJson),
      ("cli", w.defaults.toJson), ("events", w.events.toJson Event.toJson), ("aliases", aliasesToJson w.aliases)] := by
  refine ⟨_, rfl, (List.Sublist.refl [_, _, _, _, _]).append ?_⟩
  split
  · exact List.nil_sublist _
  · exact List.Sublist.refl _

/-! ## Names -/

theorem unique_text (s : String) : (Json.text s).Unique :=
  trivial

theorem unique_override (o : Override) : o.toJson.Unique := by
  cases o <;> trivial

theorem unique_object_of_sublist {es all : List (String × Json)} (h : es.Sublist all) (hn : (all.map (·.1)).Nodup)
    (hall : ∀ e ∈ all, e.2.Unique) : (Json.object es).Unique :=
  (Json.unique_object_iff es).2 ⟨hn.sublist (h.map _), fun e he => hall e (h.subset he)⟩

theorem unique_table {α : Type} {encode : α → Json} (hencode : ∀ x, (encode x).Unique) (t : NameTable α) :
    (t.toJson encode).Unique := by
  rw [NameTable.toJson, Json.unique_object_iff, List.map_map]
  refine ⟨t.nodup_names, ?_⟩
  intro e he
  obtain ⟨e', -, rfl⟩ := List.mem_map.1 he
  exact hencode e'.2

theorem unique_hat (h : Hat) : h.toJson.Unique := by
  obtain ⟨es, hes, hsub⟩ := hat_toJson_sublist h
  rw [hes]
  refine unique_object_of_sublist hsub (by simp) ?_
  simp only [List.forall_mem_cons]
  exact ⟨trivial, trivial, Json.unique_ofTexts _, Json.unique_ofTexts _, unique_override _, unique_override _, trivial,
    by simp⟩

theorem unique_defaults (x : Defaults) : x.toJson.Unique := by
  obtain ⟨es, hes, hsub⟩ := defaults_toJson_sublist x
  rw [hes]
  refine unique_object_of_sublist hsub (by simp) ?_
  simp only [List.forall_mem_cons]
  exact ⟨unique_override _, unique_override _, by simp⟩

theorem unique_event (e : Event) : e.toJson.Unique := by
  rw [Event.toJson, Json.unique_object_iff]
  simp [Json.Unique]

/-- In the JSON value of a workflow each name comes once. -/
theorem unique_toJson (w : Workflow) : w.toJson.Unique := by
  obtain ⟨es, hes, hsub⟩ := workflow_toJson_sublist w
  rw [hes]
  refine unique_object_of_sublist hsub (by simp) ?_
  simp only [List.forall_mem_cons]
  exact ⟨trivial, trivial, unique_table unique_hat _, unique_defaults _, unique_table unique_event _,
    unique_table (unique_table unique_text) _, by simp⟩

/-! ## Hints -/

theorem hintsAt_object_of_sublist {path : String} {known : List (String × Keys)} {es all : List (String × Json)}
    (h : es.Sublist all)
    (hall : ∀ e ∈ all, ∃ keys, known.lookup e.1 = some keys ∧ hintsAt (join path e.1) keys e.2 = []) :
    hintsAt path (.fixed known) (.object es) = [] :=
  (hintsFixed_eq_nil_iff path known es).2 fun e he => hall e (h.subset he)

theorem hintsAt_leaves {path : String} {known : List (String × Keys)} {es all : List (String × Json)}
    (h : es.Sublist all) (hall : ∀ e ∈ all, known.lookup e.1 = some .leaf) :
    hintsAt path (.fixed known) (.object es) = [] :=
  hintsAt_object_of_sublist h fun e he => ⟨.leaf, hall e he, hintsAt_leaf _ _⟩

theorem hintsAt_table {α : Type} {encode : α → Json} {each : Keys} (h : ∀ path x, hintsAt path each (encode x) = [])
    (path : String) (t : NameTable α) : hintsAt path (.free each) (t.toJson encode) = [] := by
  rw [NameTable.toJson, hintsAt, hintsFree_eq_nil_iff]
  intro e he
  obtain ⟨e', -, rfl⟩ := List.mem_map.1 he
  exact h _ e'.2

/-- There is nothing to hint at in the JSON value of a workflow. -/
theorem hintsAt_toJson (w : Workflow) : hintsAt "" workflowKeys w.toJson = [] := by
  obtain ⟨es, hes, hsub⟩ := workflow_toJson_sublist w
  rw [hes]
  refine hintsAt_object_of_sublist hsub ?_
  simp only [List.forall_mem_cons]
  refine ⟨⟨_, rfl, rfl⟩, ⟨_, rfl, rfl⟩, ⟨_, rfl, hintsAt_table ?_ _ _⟩, ⟨_, rfl, ?_⟩, ⟨_, rfl, hintsAt_table ?_ _ _⟩,
    ⟨_, rfl, hintsAt_table ?_ _ _⟩, by simp⟩
  · intro path h
    obtain ⟨es, hes, hsub⟩ := hat_toJson_sublist h
    rw [hes]
    refine hintsAt_leaves hsub ?_
    simp only [List.forall_mem_cons]
    exact ⟨rfl, rfl, rfl, rfl, rfl, rfl, rfl, by simp⟩
  · obtain ⟨es, hes, hsub⟩ := defaults_toJson_sublist w.defaults
    rw [hes]
    refine hintsAt_leaves hsub ?_
    simp only [List.forall_mem_cons]
    exact ⟨rfl, rfl, by simp⟩
  · exact fun _ _ => rfl
  · exact hintsAt_table fun _ _ => rfl

theorem hints_eq_nil_of_reordered {w : Workflow} {v : Json} (hv : (Tree.ofJson w.toJson).Reordered (.ofJson v)) :
    hints v = [] := by
  rw [hints, hintsAt_eq_nil_of_reordered hv (hintsAt_toJson w), List.mergeSort_nil]

end Preflight.Config
