import Preflight.Proofs.Plan
/-!
# What a verdict depends on

The graph of a workflow is made of the events it declares and of the events
each hat waits for and publishes. The report and the summary read nothing else
(`report_congr`, `summary_congr`), so two workflows with the same graph have
the same verdict, whatever table of shorthands each is checked with
(`verdict_of_sameGraph`).
-/

namespace Preflight

/-- The events that a hat waits for, and those that it publishes. -/
def Hat.wires (h : Hat) : NameSet × NameSet :=
  (h.triggers, h.publishes)

/-- The same events are declared, and the same hats wait for and publish the same events. -/
structure Workflow.SameGraph (w w' : Workflow) : Prop where
  events : ∀ event, w.declares event = w'.declares event
  hats : ∀ id, (w.hats.get? id).map Hat.wires = (w'.hats.get? id).map Hat.wires

/-- What a plan says of its hats apart from their names, models and backends. -/
def ResolvedHat.wires (h : ResolvedHat) : String × List String × List String :=
  (h.id, h.triggers, h.publishes)

/-! ## What is read of a graph -/

section Reads
variable {hats hats' : NameTable Hat}

theorem undeclaredEvents_congr (h : hats.map Hat.wires = hats'.map Hat.wires) (declared : List String) :
    undeclaredEvents declared hats = undeclaredEvents declared hats' := by
  have hread (hats : NameTable Hat) : undeclaredEvents declared hats =
      (hats.map Hat.wires).entries.flatMap fun e =>
        (e.2.1.toList.map (·, Usage.trigger) ++ e.2.2.toList.map (·, Usage.publish)).filterMap
          (findUndeclared declared e.1) := by
    rw [NameTable.map, List.flatMap_map]
    rfl
  rw [hread, hread, h]

theorem any_values_congr (h : hats.map Hat.wires = hats'.map Hat.wires) (p : NameSet × NameSet → Bool) :
    hats.values.any (fun hat => p hat.wires) = hats'.values.any fun hat => p hat.wires := by
  have hread (hats : NameTable Hat) :
      hats.values.any (fun hat => p hat.wires) = (hats.map Hat.wires).entries.any fun e => p e.2 := by
    rw [NameTable.values, NameTable.map, List.any_map, List.any_map]
    rfl
  rw [hread, hread, h]

end Reads

namespace Workflow

section SameGraph
variable {w w' : Workflow}

theorem SameGraph.declared (h : w.SameGraph w') : w.declared = w'.declared := by
  refine NameSet.eq_of_ascending (ascending_declared w) (ascending_declared w') ?_
  intro event
  rw [← declares_eq_true_iff, ← declares_eq_true_iff, h.events]

theorem SameGraph.map_wires (h : w.SameGraph w') : w.hats.map Hat.wires = w'.hats.map Hat.wires := by
  refine NameTable.ext_get? fun id => ?_
  rw [NameTable.get?_map, NameTable.get?_map, h.hats]

theorem report_congr (h : w.SameGraph w') : w.report = w'.report := by
  rw [report, report, h.declared, undeclaredEvents_congr h.map_wires]

theorem summary_congr (h : w.SameGraph w') : w.summary = w'.summary := by
  have htriggered (event : String) : w.isTriggered event = w'.isTriggered event :=
    any_values_congr h.map_wires fun wires => event ∈ wires.1
  have hpublished (event : String) : w.isPublished event = w'.isPublished event :=
    any_values_congr h.map_wires fun wires => event ∈ wires.2
  rw [summary, summary, h.declared]
  simp only [htriggered, hpublished]

theorem map_wires_plan (t : AliasTable) (w : Workflow) :
    (w.plan t).hats.map ResolvedHat.wires =
      (w.hats.map Hat.wires).entries.map fun e => (e.1, e.2.1.toList, e.2.2.toList) := by
  rw [plan, NameTable.map, List.map_map, List.map_map]
  rfl

/-- Two workflows with the same graph have the same verdict, with any two tables of shorthands: the same report, or
plans with the same hats in the same order, the same events of each and the same summary. -/
theorem verdict_of_sameGraph (h : w.SameGraph w') (t t' : AliasTable) :
    (∃ report, w.checkWith t = .error report ∧ w'.checkWith t' = .error report) ∨
      ∃ plan plan', w.checkWith t = .ok plan ∧ w'.checkWith t' = .ok plan' ∧
        plan.hats.map ResolvedHat.wires = plan'.hats.map ResolvedHat.wires ∧ plan.graph = plan'.graph := by
  have hreport := report_congr h
  cases herrors : w.report.hasErrors with
  | true =>
    refine .inl ⟨w.report, ?_, ?_⟩
    · rw [checkWith, herrors, if_pos rfl]
    · rw [checkWith, ← hreport, herrors, if_pos rfl]
  | false =>
    refine .inr ⟨w.plan t, w'.plan t', ?_, ?_, ?_, summary_congr h⟩
    · rw [checkWith, herrors, if_neg Bool.false_ne_true]
    · rw [checkWith, ← hreport, herrors, if_neg Bool.false_ne_true]
    · rw [map_wires_plan, map_wires_plan, h.map_wires]

end SameGraph

/-- One hat that waits for a declared event and one that publishes it. -/
def relay : Workflow :=
  { empty with
    hats := .ofList [("a", { Hat.empty with triggers := .ofList ["go"] }),
      ("b", { Hat.empty with publishes := .ofList ["go"] })]
    events := .ofList [("go", .empty)] }

/-- The same graph in other words. -/
def wordyRelay : Workflow where
  name := "relay"
  description := "two hats"
  hats := .ofList [("a", { Hat.empty with name := "A", triggers := .ofList ["go"], model := .given "opus" }),
    ("b", { Hat.empty with publishes := .ofList ["go"], backend := .given "kiro", instructions := "go" })]
  defaults := ⟨.given "haiku", .blank⟩
  events := .ofList [("go", ⟨"starts the relay"⟩)]
  aliases := .ofList [("kiro", .ofList [("haiku", "h")])]

theorem relay_verdict : relay.SameGraph wordyRelay ∧
    ∃ plan plan', relay.checkWith .empty = .ok plan ∧ wordyRelay.checkWith .builtIn = .ok plan' ∧
      plan.hats.map ResolvedHat.wires = plan'.hats.map ResolvedHat.wires ∧ plan.graph = plan'.graph := by
  have hgraph : relay.SameGraph wordyRelay := by
    constructor
    · intro event
      have hevents : relay.events.map (fun _ => ()) = wordyRelay.events.map fun _ => () := rfl
      have hevent := congrArg (·.contains event) hevents
      simpa only [declares, NameTable.contains, NameTable.get?_map, Option.isSome_map] using hevent
    · intro id
      have hhats : relay.hats.map Hat.wires = wordyRelay.hats.map Hat.wires := rfl
      rw [← NameTable.get?_map, ← NameTable.get?_map, hhats]
  refine ⟨hgraph, (verdict_of_sameGraph hgraph .empty .builtIn).resolve_left ?_⟩
  rintro ⟨report, hreport, -⟩
  have hpasses : (relay.checkWith .empty).toOption.isSome = true := by decide +kernel
  rw [hreport] at hpasses
  cases hpasses

end Workflow

end Preflight
