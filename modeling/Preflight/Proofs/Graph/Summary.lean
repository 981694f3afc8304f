import Preflight.Proofs.Plan
/-!
# The summary of a graph

A declared event is published by some hat, or hats only wait for it, or no hat
refers to it, and a summary lists the last two kinds (`splits_summary`). In a
plan every event that a hat waits for can thus come about: a run starts there or
a hat of the plan publishes it (`summary_splits`).
-/

namespace Preflight

/-- The events of a resolved hat to which it refers in one way. -/
def ResolvedHat.eventsOf (r : ResolvedHat) : Usage → List String
  | .trigger => r.triggers
  | .publish => r.publishes

namespace Workflow

/-- Some hat refers to the event in this way. -/
def Uses (w : Workflow) (usage : Usage) (event : String) : Prop :=
  ∃ id h, w.hats.get? id = some h ∧ event ∈ h.eventsOf usage

/-- The declared events that some hat waits for and none publishes, those to which no hat refers and those that some hat
publishes are all declared events, and no event is of two of these kinds. The first two kinds are listed in ascending
order. -/
structure Splits (w : Workflow) (s : Summary) : Prop where
  entry : ∀ e, e ∈ s.entryEvents ↔ w.declares e = true ∧ w.Uses .trigger e ∧ ¬w.Uses .publish e
  unused : ∀ e, e ∈ s.unusedEvents ↔ w.declares e = true ∧ ¬w.Uses .trigger e ∧ ¬w.Uses .publish e
  covers : ∀ e, w.declares e = true → e ∈ s.entryEvents ∨ e ∈ s.unusedEvents ∨ w.Uses .publish e
  declared : ∀ e, e ∈ s.entryEvents ∨ e ∈ s.unusedEvents → w.declares e = true
  entry_unused : s.entryEvents.Disjoint s.unusedEvents
  published : ∀ e, w.Uses .publish e → e ∉ s.entryEvents ∧ e ∉ s.unusedEvents
  entry_ascending : s.entryEvents.Pairwise (· < ·)
  unused_ascending : s.unusedEvents.Pairwise (· < ·)

variable {w : Workflow}

theorem uses_iff_values (usage : Usage) (e : String) : w.Uses usage e ↔ ∃ h ∈ w.hats.values, e ∈ h.eventsOf usage := by
  simp only [Uses, NameTable.get?_eq_some_iff, NameTable.values, List.mem_map]
  constructor
  · rintro ⟨id, h, hh, he⟩
    exact ⟨h, ⟨_, hh, rfl⟩, he⟩
  · rintro ⟨_, ⟨⟨id, h⟩, hh, rfl⟩, he⟩
    exact ⟨id, h, hh, he⟩

theorem isTriggered_iff (e : String) : w.isTriggered e = true ↔ w.Uses .trigger e := by
  simp [isTriggered, uses_iff_values, Hat.eventsOf]

theorem isPublished_iff (e : String) : w.isPublished e = true ↔ w.Uses .publish e := by
  simp [isPublished, uses_iff_values, Hat.eventsOf]

theorem mem_entryEvents (e : String) :
    e ∈ w.summary.entryEvents ↔ w.declares e = true ∧ w.Uses .trigger e ∧ ¬w.Uses .publish e := by
  simp [summary, declares_eq_true_iff, ← isTriggered_iff, ← isPublished_iff]

theorem mem_unusedEvents (e : String) :
    e ∈ w.summary.unusedEvents ↔ w.declares e = true ∧ ¬w.Uses .trigger e ∧ ¬w.Uses .publish e := by
  simp [summary, declares_eq_true_iff, ← isTriggered_iff, ← isPublished_iff]

theorem splits_summary (w : Workflow) : w.Splits w.summary where
  entry := mem_entryEvents
  unused := mem_unusedEvents
  covers e he := by
    by_cases htrigger : w.Uses .trigger e <;> by_cases hpublish : w.Uses .publish e <;>
      simp [mem_entryEvents, mem_unusedEvents, he, htrigger, hpublish]
  declared e := by
    rintro (he | he)
    · exact ((mem_entryEvents e).1 he).1
    · exact ((mem_unusedEvents e).1 he).1
  entry_unused e hentry hunused := ((mem_unusedEvents e).1 hunused).2.1 ((mem_entryEvents e).1 hentry).2.1
  published e he :=
    ⟨fun hentry => ((mem_entryEvents e).1 hentry).2.2 he, fun hunused => ((mem_unusedEvents e).1 hunused).2.2 he⟩
  entry_ascending := (ascending_declared w).filter _
  unused_ascending := (ascending_declared w).filter _

/-- A workflow and its plan refer to the same events. -/
theorem uses_iff_plan (t : AliasTable) (usage : Usage) (e : String) :
    w.Uses usage e ↔ ∃ r ∈ (w.plan t).hats, e ∈ r.eventsOf usage := by
  have hresolve (id : String) (h : Hat) : (h.resolve t w.defaults id).eventsOf usage = (h.eventsOf usage).toList := by
    cases usage <;> rfl
  simp [Uses, plan, hresolve, NameTable.get?_eq_some_iff, NameSet.mem_toList]

/-- A summary splits the declared events. Where a check passes the plan has it: each event that a hat waits for is one
where a run can start or is published by a hat of the plan, and the events without use are those that no hat of the plan
lists. -/
theorem summary_splits (w : Workflow) :
    w.Splits w.summary ∧ ∀ t plan, w.checkWith t = .ok plan → plan.graph = w.summary ∧
      (∀ id h, w.hats.get? id = some h → ∀ e ∈ h.triggers,
        e ∈ plan.graph.entryEvents ∨ ∃ r ∈ plan.hats, e ∈ r.publishes) ∧
      ∀ e, e ∈ plan.graph.unusedEvents ↔
        w.declares e = true ∧ ∀ r ∈ plan.hats, e ∉ r.triggers ∧ e ∉ r.publishes := by
  refine ⟨splits_summary w, ?_⟩
  intro t plan hplan
  obtain ⟨hnone, rfl⟩ := (checkWith_eq_ok_iff t w plan).1 hplan
  have hdeclared := (not_dangles_iff w).1 hnone
  refine ⟨rfl, ?_, ?_⟩
  · intro id h hh e he
    by_cases hpublish : w.Uses .publish e
    · exact .inr ((uses_iff_plan t .publish e).1 hpublish)
    · exact .inl ((mem_entryEvents e).2 ⟨hdeclared id h hh e (.inl he), ⟨id, h, hh, he⟩, hpublish⟩)
  · intro e
    have hgraph : (w.plan t).graph = w.summary := rfl
    rw [hgraph, mem_unusedEvents, uses_iff_plan t, uses_iff_plan t]
    simp only [ResolvedHat.eventsOf, not_exists, not_and, ← forall₂_and]

/-- A hat that keeps itself going once it has been started, and an event to which no hat refers. -/
def selfRunning : Workflow :=
  { empty with
    hats := .ofList [("a", { Hat.empty with triggers := .ofList ["go", "tick"], publishes := .ofList ["tick"] })]
    events := .ofList [("go", .empty), ("spare", .empty), ("tick", .empty)] }

theorem selfRunning_summary : ∃ plan, selfRunning.check = .ok plan ∧
    ("tick" ∈ plan.graph.entryEvents ∨ ∃ r ∈ plan.hats, "tick" ∈ r.publishes) ∧
    plan.graph.entryEvents = ["go"] ∧ ∀ r ∈ plan.hats, "spare" ∉ r.triggers ∧ "spare" ∉ r.publishes := by
  have hpasses : selfRunning.check.toOption.isSome = true := by decide +kernel
  obtain ⟨plan, hplan⟩ := Option.isSome_iff_exists.1 hpasses
  rw [toOption_eq_some_iff] at hplan
  obtain ⟨-, hsummary⟩ := summary_splits selfRunning
  obtain ⟨hgraph, hstarts, hunused⟩ := hsummary selfRunning.aliasTable plan hplan
  refine ⟨plan, hplan, hstarts "a" _ rfl "tick" (by decide), ?_, ?_⟩
  · rw [hgraph]
    decide +kernel
  · refine ((hunused "spare").1 ?_).2
    rw [hgraph]
    decide +kernel

end Workflow

end Preflight
