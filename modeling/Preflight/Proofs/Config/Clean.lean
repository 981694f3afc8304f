import Preflight.Config.Load
import Preflight.Proofs.Document.Reading
/-!
# Settings are clean

Every model and backend of a workflow that was loaded is unset, blank, or a
text with no blanks around it (`clean_parse_result`). Defaults given later, on
the command line, leave it so (`clean_withAllDefaults`).
-/

namespace Preflight

/-- No setting of the hat has blanks around it. -/
structure Hat.Clean (h : Hat) : Prop where
  model : h.model.Clean
  backend : h.backend.Clean

/-- No setting of the defaults has blanks around it. -/
structure Defaults.Clean (d : Defaults) : Prop where
  model : d.model.Clean
  backend : d.backend.Clean

/-- No setting of the workflow has blanks around it. -/
structure Workflow.Clean (w : Workflow) : Prop where
  defaults : w.defaults.Clean
  hats : ∀ e ∈ w.hats.entries, e.2.Clean

theorem Override.clean_unset : Override.unset.Clean := by
  intro text h
  exact nomatch h

theorem Override.clean_blank : Override.blank.Clean := by
  intro text h
  exact nomatch h

theorem Defaults.clean_empty : Defaults.empty.Clean :=
  ⟨Override.clean_unset, Override.clean_unset⟩

theorem Hat.clean_empty : Hat.empty.Clean :=
  ⟨Override.clean_unset, Override.clean_unset⟩

theorem Workflow.clean_empty : Workflow.empty.Clean :=
  ⟨Defaults.clean_empty, fun _ he => absurd he List.not_mem_nil⟩

/-! ## Reading -/

namespace Config

variable {d : Dialect} {t : Tree}

theorem clean_readOverride {o : Override} (h : readOverride d t = .ok o) : o.Clean := by
  obtain ⟨raw, -, rfl⟩ := (map_eq_ok_iff _ _ _).1 h
  cases raw with
  | none => exact Override.clean_blank
  | some raw => exact Override.clean_parse raw

theorem clean_readDefaults {x : Defaults} (h : readDefaults d t = .ok x) : x.Clean := by
  refine readRecord_keeps ?_ Defaults.clean_empty h
  simp only [defaultsSlots, List.forall_mem_cons, List.not_mem_nil, false_implies, implies_true, and_true]
  refine ⟨keeps_of ?_ _ _, keeps_of ?_ _ _⟩
  · intro d t o ho r hr
    exact ⟨clean_readOverride ho, hr.backend⟩
  · intro d t o ho r hr
    exact ⟨hr.model, clean_readOverride ho⟩

theorem clean_readHat {hat : Hat} (h : readHat d t = .ok hat) : hat.Clean := by
  refine readRecord_keeps ?_ Hat.clean_empty h
  simp only [hatSlots, List.forall_mem_cons, List.not_mem_nil, false_implies, implies_true, and_true]
  refine ⟨keeps_of ?_ _ _, keeps_of ?_ _ _, keeps_of ?_ _ _, keeps_of ?_ _ _, keeps_of ?_ _ _, keeps_of ?_ _ _,
    keeps_of ?_ _ _⟩
  case refine_5 =>
    intro d t o ho r hr
    exact ⟨clean_readOverride ho, hr.backend⟩
  case refine_6 =>
    intro d t o ho r hr
    exact ⟨hr.model, clean_readOverride ho⟩
  all_goals
    intro d t x hx r hr
    exact ⟨hr.model, hr.backend⟩

theorem clean_hats {hats : NameTable Hat} (h : readNamed readHat .empty d t = .ok hats) :
    ∀ e ∈ hats.entries, e.2.Clean := by
  obtain ⟨table?, htable, rfl⟩ := (map_eq_ok_iff _ _ _).1 h
  cases table? with
  | none =>
    intro e he
    exact absurd he List.not_mem_nil
  | some table =>
    intro e he
    obtain ⟨⟨name, hat?⟩, hmem, rfl⟩ := List.mem_map.1 he
    cases hat? with
    | none => exact Hat.clean_empty
    | some hat =>
      obtain ⟨v, hv⟩ := read_of_mem_readTable _ _ _ (read_of_readOption htable) hmem
      exact clean_readHat (read_of_readOption hv)

theorem clean_shape {w : Workflow} (h : shape d t = .ok w) : w.Clean := by
  refine readRecord_keeps ?_ Workflow.clean_empty h
  simp only [workflowSlots, List.forall_mem_cons, List.not_mem_nil, false_implies, implies_true, and_true]
  refine ⟨keeps_of ?_ _ _, keeps_of ?_ _ _, keeps_of ?_ _ _, keeps_of ?_ _ _, keeps_of ?_ _ _, keeps_of ?_ _ _⟩
  case refine_3 =>
    intro d t hats hhats r hr
    exact ⟨hr.defaults, clean_hats hhats⟩
  case refine_4 =>
    intro d t x hx r hr
    exact ⟨clean_readDefaults hx, hr.hats⟩
  all_goals
    intro d t x hx r hr
    exact ⟨hr.defaults, hr.hats⟩

end Config

/-! ## Loading -/

namespace Workflow

theorem ofTree_eq_ok_iff (format : Format) (t : Tree) (w : Workflow) :
    (ofTree format t).result = .ok w ↔ Config.shape format.dialect t = .ok w := by
  unfold ofTree
  cases Config.shape format.dialect t <;> simp [Except.mapError]

/-- A document with content is loaded from its tree. -/
theorem ofYaml_of_untag_ne {t : Tree} (h : t.untag ≠ .null) : ofYaml t = ofTree .yaml t := by
  unfold ofYaml
  split
  · exact absurd ‹_› h
  · rfl

theorem clean_ofYaml {t : Tree} {w : Workflow} (h : (ofYaml t).result = .ok w) : w.Clean := by
  unfold ofYaml at h
  split at h
  · cases h
    exact clean_empty
  · exact Config.clean_shape ((ofTree_eq_ok_iff .yaml t w).1 h)

/-- Every setting of a loaded workflow is clean. -/
theorem clean_parse_result {format : Format} {text : String} {w : Workflow} (h : (parse format text).result = .ok w) :
    w.Clean := by
  unfold parse at h
  cases format with
  | yaml =>
    simp only at h
    split at h
    · exact clean_ofYaml h
    · exact nomatch h
    · exact nomatch h
  | json =>
    simp only at h
    split at h
    · exact Config.clean_shape ((ofTree_eq_ok_iff _ _ w).1 h)
    · exact nomatch h
  | toml =>
    simp only at h
    split at h
    · exact Config.clean_shape ((ofTree_eq_ok_iff _ _ w).1 h)
    · exact nomatch h

/-! ## Defaults from the command line -/

theorem clean_replaceBy {o : Override} (ho : o.Clean) (raw : Option String) : (o.replaceBy raw).Clean := by
  unfold Override.replaceBy
  split
  · rename_i text h
    obtain ⟨s, -, hs⟩ := Option.map_eq_some_iff.1 h
    exact hs ▸ Override.clean_parse s
  · exact ho

theorem clean_withDefaults {w : Workflow} (hw : w.Clean) (model backend : Option String) :
    (w.withDefaults model backend).Clean :=
  ⟨⟨clean_replaceBy hw.defaults.model model, clean_replaceBy hw.defaults.backend backend⟩, hw.hats⟩

/-- The workflow with defaults given one after the other. -/
def withAllDefaults (w : Workflow) (given : List (Option String × Option String)) : Workflow :=
  given.foldl (fun w g => w.withDefaults g.1 g.2) w

theorem clean_withAllDefaults {w : Workflow} (hw : w.Clean) (given : List (Option String × Option String)) :
    (w.withAllDefaults given).Clean := by
  induction given generalizing w with
  | nil => exact hw
  | cons g given ih => exact ih (clean_withDefaults hw g.1 g.2)

end Workflow

end Preflight
