import Preflight.Proofs.Graph.Dangling
import Preflight.Proofs.Model.Expand
import Preflight.Proofs.Model.Selection
/-!
# The plan of a loaded workflow

A check that passes gives the plan of the workflow, one resolved hat for each
hat. No model or backend in it has blanks around it (`selections_unpadded`),
and whatever defaults are given on the command line they change only what each
hat takes from its layers (`check_withAllDefaults`).
-/

namespace Preflight

namespace Workflow

theorem checkWith_eq_ok_iff (t : AliasTable) (w : Workflow) (plan : Plan) :
    w.checkWith t = .ok plan ↔ (¬ ∃ s, w.Dangles s) ∧ plan = w.plan t := by
  rw [← hasErrors_report]
  unfold checkWith
  split
  · rename_i h
    simp [h]
  · rename_i h
    simp [h, eq_comm]

theorem withAllDefaults_eq (w : Workflow) (given : List (Option String × Option String)) :
    w.withAllDefaults given = { w with defaults := ⟨(given.map (·.1)).foldl Override.replaceBy w.defaults.model,
      (given.map (·.2)).foldl Override.replaceBy w.defaults.backend⟩ } := by
  induction given generalizing w with
  | nil => rfl
  | cons g given ih => exact ih (w.withDefaults g.1 g.2)

/-! ## Models and backends -/

theorem plan_unpadded {t : AliasTable} (ht : t.Clean) {w : Workflow} (hw : w.Clean) :
    ∀ h ∈ (w.plan t).hats, h.selection.Unpadded := by
  intro h hh
  obtain ⟨e, he, rfl⟩ := List.mem_map.1 hh
  exact select_unpadded ht (hw.hats e he) hw.defaults

theorem clean_aliasTable (w : Workflow) : w.aliasTable.Clean :=
  (AliasTable.Built.builtIn.withEntries w.aliases).clean

/-- Neither a model nor a backend is ever empty or has a blank at its start or end: not in what a table gives a hat and
defaults, however all of them came to be, and not in the plan of a workflow that was loaded. -/
theorem selections_unpadded :
    (∀ (t : AliasTable) (hat : Hat) (defaults : Defaults), t.Built → hat.model.Made → hat.backend.Made →
      defaults.model.Made → defaults.backend.Made → (t.select hat defaults).Unpadded) ∧
    ∀ (format : Format) (text : String) (w : Workflow) (given : List (Option String × Option String)) (plan : Plan),
      (parse format text).result = .ok w → (w.withAllDefaults given).check = .ok plan →
        ∀ h ∈ plan.hats, h.selection.Unpadded := by
  constructor
  · intro t hat defaults ht hmodel hbackend hdmodel hdbackend
    exact select_unpadded ht.clean ⟨hmodel.clean, hbackend.clean⟩ ⟨hdmodel.clean, hdbackend.clean⟩
  · intro format text w given plan hw hplan
    have hclean := clean_withAllDefaults (clean_parse_result hw) given
    obtain ⟨-, rfl⟩ := (checkWith_eq_ok_iff _ _ _).1 hplan
    exact plan_unpadded (clean_aliasTable _) hclean

theorem padded_names_unpadded :
    ((AliasTable.empty.insert " X " "M" " y ").select
      { Hat.empty with model := .parse " m\n", backend := .parse "\u00a0x" } .empty).Unpadded ∧
    ∃ w plan, (parse .toml "cli.model = ' Opus '\nhats.a.backend = ' Kiro '").result = .ok w ∧
      (w.withAllDefaults [(some " ", none)]).check = .ok plan ∧ ∀ h ∈ plan.hats, h.selection.Unpadded := by
  constructor
  · exact selections_unpadded.1 _ _ _ (.insert .empty " X " "M" " y ") (.parse " m\n") (.parse "\u00a0x") .absent
      .absent
  · have hpasses : ((parse .toml "cli.model = ' Opus '\nhats.a.backend = ' Kiro '").result.toOption.bind fun w =>
        (w.withAllDefaults [(some " ", none)]).check.toOption).isSome = true := by decide +kernel
    obtain ⟨plan, hpasses⟩ := Option.isSome_iff_exists.1 hpasses
    obtain ⟨w, hw, hplan⟩ := Option.bind_eq_some_iff.1 hpasses
    rw [toOption_eq_some_iff] at hw hplan
    exact ⟨w, plan, hw, hplan, selections_unpadded.2 _ _ w _ plan hw hplan⟩

/-! ## Defaults from the command line -/

/-- The shorthands of a workflow, those always known before its own. -/
def shorthands (w : Workflow) : List Shorthand :=
  Shorthand.ofEntries AliasTable.builtInEntries ++
    Shorthand.ofEntries (w.aliases.entries.map fun b => (b.1, b.2.entries))

theorem lookup_aliasTable (w : Workflow) (backend name : String) :
    w.aliasTable.lookup backend name = Shorthand.last? w.shorthands backend name := by
  have htable : w.aliasTable = AliasTable.empty.insertAll w.shorthands := by
    rw [aliasTable, AliasTable.builtIn_eq, AliasTable.withEntries_eq]
    exact List.foldl_append.symm
  rw [htable, AliasTable.lookup_insertAll, AliasTable.lookup_empty, Option.or_none]

/-- The resolved hat is the workflow's hat of this entry. Its backend is the first text that is not blank among its
layers; its model is what the first such text of the model's layers is expanded to on that backend. -/
structure Resolves (w : Workflow) (given : List (Option String × Option String)) (e : String × Hat)
    (r : ResolvedHat) : Prop where
  id : r.id = e.1
  name : r.name = e.2.name
  triggers : r.triggers = e.2.triggers.toList
  publishes : r.publishes = e.2.publishes.toList
  backend : firstGiven (layers e.2.backend (given.map (·.2)) w.defaults.backend "claude") =
    some (r.selection.backend, r.selection.backendSource)
  model : ∃ candidate, firstGiven (layers e.2.model (given.map (·.1)) w.defaults.model "default") =
      some (candidate, r.selection.modelSource) ∧
    Shorthand.ExpandsTo w.shorthands r.selection.backend candidate r.selection.model

theorem resolves_resolve {w : Workflow} (hw : w.Clean) (given : List (Option String × Option String))
    {e : String × Hat} (he : e ∈ w.hats.entries) :
    w.Resolves given e (e.2.resolve w.aliasTable (w.withAllDefaults given).defaults e.1) := by
  have hhat := hw.hats e he
  rw [withAllDefaults_eq]
  refine ⟨rfl, rfl, rfl, rfl, ?_, ?_⟩
  · exact firstGiven_layers hhat.backend hw.defaults.backend solid_builtInBackend _
  · refine ⟨_, firstGiven_layers hhat.model hw.defaults.model solid_builtInModel _, ?_⟩
    rw [Shorthand.expandsTo_iff, ← lookup_aliasTable]
    rfl

theorem hat?_plan (t : AliasTable) (w : Workflow) (id : String) :
    (w.plan t).hat? id = (w.hats.get? id).map fun h => h.resolve t w.defaults id := by
  unfold Plan.hat? plan NameTable.get?
  induction w.hats.entries with
  | nil => rfl
  | cons e es ih =>
    rw [List.map_cons, List.find?_cons, NameTable.lookup_cons_eq]
    by_cases hid : id = e.1
    · subst hid
      simp [Hat.resolve]
    · have hother : e.1 ≠ id := fun h => hid h.symm
      rw [if_neg hid, ← ih]
      simp [Hat.resolve, hother]

/-- A hat with a model and a backend of its own takes nothing from the defaults. -/
theorem select_own (t : AliasTable) {hat : Hat} {model backend : String} (hmodel : hat.model.value? = some model)
    (hbackend : hat.backend.value? = some backend) (d d' : Defaults) : t.select hat d = t.select hat d' := by
  simp only [AliasTable.select, choose, hmodel, hbackend]

/-- A loaded workflow whose events are declared has a plan, whatever defaults are given on the command line: its hats in
the order of their ids, each with what its layers give it. A hat with a model and a backend of its own is the same for
all defaults of the file and of the command line. -/
theorem check_withAllDefaults {format : Format} {text : String} {w : Workflow} (h : (parse format text).result = .ok w)
    (hdeclared : ∀ id hat, w.hats.get? id = some hat → ∀ e, e ∈ hat.triggers ∨ e ∈ hat.publishes → w.declares e = true)
    (given : List (Option String × Option String)) :
    ∃ plan, (w.withAllDefaults given).check = .ok plan ∧ plan.name = w.name ∧ plan.graph = w.summary ∧
      (plan.hats.map (·.id)).Pairwise (· < ·) ∧ List.Forall₂ (w.Resolves given) w.hats.entries plan.hats ∧
      ∀ (defaults : Defaults) (given' : List (Option String × Option String)),
        ∃ plan', ({ w with defaults }.withAllDefaults given').check = .ok plan' ∧
          ∀ id hat model backend, w.hats.get? id = some hat → hat.model.value? = some model →
            hat.backend.value? = some backend → ∃ r, plan.hat? id = some r ∧ plan'.hat? id = some r := by
  have hnone : ¬ ∃ s, w.Dangles s := (not_dangles_iff w).2 hdeclared
  have hcheck (defaults : Defaults) : { w with defaults }.check = .ok ({ w with defaults }.plan w.aliasTable) :=
    (checkWith_eq_ok_iff _ _ _).2 ⟨hnone, rfl⟩
  refine ⟨(w.withAllDefaults given).plan w.aliasTable, ?_, ?_, ?_, ?_, ?_, ?_⟩
  · rw [withAllDefaults_eq]
    exact hcheck _
  · rw [withAllDefaults_eq]
    rfl
  · rw [withAllDefaults_eq]
    rfl
  · rw [withAllDefaults_eq, plan, List.map_map]
    exact List.pairwise_map.2 w.hats.ascending
  · have hhats : (w.withAllDefaults given).hats = w.hats := by rw [withAllDefaults_eq]
    rw [plan, hhats, List.forall₂_map_right_iff, List.forall₂_same]
    intro e he
    exact resolves_resolve (clean_parse_result h) given he
  · intro defaults given'
    refine ⟨({ w with defaults }.withAllDefaults given').plan w.aliasTable, ?_, ?_⟩
    · rw [withAllDefaults_eq]
      exact hcheck _
    · intro id hat model backend hhat hmodel hbackend
      rw [hat?_plan, hat?_plan, withAllDefaults_eq, withAllDefaults_eq, hhat]
      refine ⟨_, rfl, ?_⟩
      simp only [Option.map_some, Hat.resolve]
      rw [select_own w.aliasTable hmodel hbackend]

/-- A workflow with a backend, a shorthand of its own and two hats, of which one names a model. -/
def twoHats : String :=
  "hats.a.triggers = ['go']\nhats.b.model = ' FAST'\nevents.go.description = ''\ncli.backend = 'codex'\n" ++
    "aliases.' KIRO'.'Fast ' = ' m-1 '"

theorem twoHats_resolves :
    ∃ w plan, (parse .toml twoHats).result = .ok w ∧
      (∀ id hat, w.hats.get? id = some hat → ∀ e, e ∈ hat.triggers ∨ e ∈ hat.publishes → w.declares e = true) ∧
      (w.withAllDefaults [(none, some "Kiro "), (some " OPUS", some " ")]).check = .ok plan ∧
      plan.name = w.name ∧ plan.graph = w.summary ∧
      List.Forall₂ (w.Resolves [(none, some "Kiro "), (some " OPUS", some " ")]) w.hats.entries plan.hats ∧
      plan.hats.map (fun h => (h.id, h.selection.backend, h.selection.model)) =
        [("a", "Kiro", "claude-opus-4.1"), ("b", "Kiro", "m-1")] := by
  have hpasses : ((parse .toml twoHats).result.toOption.bind fun w =>
      (w.withAllDefaults [(none, some "Kiro "), (some " OPUS", some " ")]).check.toOption).any (fun plan =>
        plan.hats.map (fun h => (h.id, h.selection.backend, h.selection.model)) =
          [("a", "Kiro", "claude-opus-4.1"), ("b", "Kiro", "m-1")]) = true := by
    decide +kernel
  obtain ⟨plan, hpasses, hmodels⟩ := (Option.any_eq_true _ _).1 hpasses
  obtain ⟨w, hw, hcheck⟩ := Option.bind_eq_some_iff.1 hpasses
  rw [toOption_eq_some_iff] at hw hcheck
  have hnone := ((checkWith_eq_ok_iff _ _ _).1 hcheck).1
  rw [withAllDefaults_eq] at hnone
  have hdeclared := (not_dangles_iff w).1 hnone
  obtain ⟨plan', hplan', hname, hgraph, -, hhats, -⟩ := check_withAllDefaults hw hdeclared
    [(none, some "Kiro "), (some " OPUS", some " ")]
  obtain rfl : plan' = plan := Except.ok.inj (hplan'.symm.trans hcheck)
  exact ⟨w, plan', hw, hdeclared, hplan', hname, hgraph, hhats, of_decide_eq_true hmodels⟩

end Workflow

end Preflight
