import Mathlib.Data.List.Forall2
import Preflight.Plan
import Preflight.Proofs.Graph.Order
/-!
# Dangling references

A site is a place where a hat refers to an event; it dangles if the event is not
declared. `checkWith_reports_dangling`: a check passes exactly when no site
dangles, and otherwise its report has one finding for each dangling site, in the
order of the sites, and no others.
-/

namespace Preflight

/-- A place where a hat refers to an event. -/
structure Site where
  hat : String
  event : String
  usage : Usage
  deriving DecidableEq, Repr

/-- The order of sites: by hat, then by event, a trigger before a publish. -/
def Site.Before (s t : Site) : Prop :=
  s.hat < t.hat ∨ s.hat = t.hat ∧
    (s.event < t.event ∨ s.event = t.event ∧ s.usage = .trigger ∧ t.usage = .publish)

/-- The events that a hat refers to in one way. -/
def Hat.eventsOf (h : Hat) : Usage → NameSet
  | .trigger => h.triggers
  | .publish => h.publishes

/-- The site refers to an event that the workflow does not declare. -/
def Workflow.Dangles (w : Workflow) (s : Site) : Prop :=
  ∃ h, w.hats.get? s.hat = some h ∧ s.event ∈ h.eventsOf s.usage ∧ w.declares s.event = false

/-- What follows the event in the words about a site. -/
def Usage.ending : Usage → String
  | .trigger => "\" (used as trigger)"
  | .publish => "\" (used as publish)"

/-- The words about a dangling site. -/
def Site.words (s : Site) : String :=
  s.hat ++ ": undeclared event \"" ++ s.event ++ s.usage.ending

/-- The finding reports the site. -/
structure Site.ReportedBy (s : Site) (d : Diagnostic) : Prop where
  severity : d.severity = .error
  code : d.code = .undeclaredEvent
  hat : d.hat = some s.hat
  event : d.event = some s.event
  usage : d.usage = some s.usage
  message : d.message = s.words

/-! ## The sites of a workflow -/

/-- The sites of some hats, in the order in which they are visited. -/
def sites (hats : NameTable Hat) : List Site :=
  hats.entries.flatMap fun e => e.2.references.map fun r => ⟨e.1, r.1, r.2⟩

theorem mem_references (h : Hat) (event : String) (usage : Usage) :
    (event, usage) ∈ h.references ↔ event ∈ h.eventsOf usage := by
  cases usage <;> simp [Hat.references, Hat.eventsOf, NameSet.mem_toList]

theorem mem_sites (hats : NameTable Hat) (s : Site) :
    s ∈ sites hats ↔ ∃ h, hats.get? s.hat = some h ∧ s.event ∈ h.eventsOf s.usage := by
  simp only [sites, List.mem_flatMap, List.mem_map, NameTable.get?_eq_some_iff, ← mem_references]
  constructor
  · rintro ⟨⟨id, h⟩, he, r, hr, rfl⟩
    exact ⟨h, he, hr⟩
  · rintro ⟨h, he, hr⟩
    exact ⟨(s.hat, h), he, (s.event, s.usage), hr, rfl⟩

theorem nodup_of_ascending {names : List String} (h : names.Pairwise (· < ·)) : names.Nodup := by
  refine h.imp ?_
  rintro x _ hlt rfl
  exact String.lt_irrefl x hlt

theorem nodup_references (h : Hat) : h.references.Nodup := by
  have hmap (names : NameSet) (usage : Usage) : (names.toList.map (·, usage)).Nodup :=
    (List.pairwise_map.2 ((nodup_of_ascending names.ascending).imp fun hne heq => hne (congrArg Prod.fst heq)))
  refine List.nodup_append.2 ⟨hmap _ _, hmap _ _, ?_⟩
  intro a ha b hb heq
  obtain ⟨x, -, rfl⟩ := List.mem_map.1 ha
  obtain ⟨y, -, rfl⟩ := List.mem_map.1 hb
  cases congrArg Prod.snd heq

/-- No site is visited twice: hats have different ids, and a set lists each event once. -/
theorem nodup_sites (hats : NameTable Hat) : (sites hats).Nodup := by
  refine List.pairwise_flatMap.2 ⟨fun e _ => ?_, ?_⟩
  · refine List.pairwise_map.2 ((nodup_references e.2).imp ?_)
    rintro ⟨_, _⟩ ⟨_, _⟩ hne heq
    cases heq
    exact hne rfl
  · refine hats.ascending.imp ?_
    intro d e hlt s hs t ht heq
    obtain ⟨_, -, rfl⟩ := List.mem_map.1 hs
    obtain ⟨_, -, rfl⟩ := List.mem_map.1 ht
    have hid : d.1 = e.1 := congrArg Site.hat heq
    exact String.lt_irrefl _ (hid ▸ hlt)

/-! ## Findings and their sites -/

/-- The finding at a site. -/
def Site.finding (declared : List String) (s : Site) : Diagnostic :=
  .undeclared s.hat s.event s.usage (Text.nearest s.event eventReach declared)

theorem undeclaredMessage_eq (s : Site) : Diagnostic.undeclaredMessage s.hat s.event s.usage = s.words := by
  have hending : s.usage.ending = "\" (used as " ++ s.usage.describe ++ ")" := by
    cases s.usage <;> decide
  rw [Diagnostic.undeclaredMessage, Site.words, hending]
  simp only [String.append_assoc]

theorem reportedBy_finding (declared : List String) (s : Site) : s.ReportedBy (s.finding declared) :=
  ⟨rfl, rfl, rfl, rfl, rfl, undeclaredMessage_eq s⟩

/-- The findings are those at the sites whose event is not declared. -/
theorem undeclaredEvents_eq (declared : List String) (hats : NameTable Hat) :
    undeclaredEvents declared hats = ((sites hats).filter (·.event ∉ declared)).map (Site.finding declared) := by
  simp only [undeclaredEvents, sites, List.filter_flatMap, List.map_flatMap]
  congr 1
  funext e
  rw [List.filter_map, List.map_map, ← List.filterMap_eq_map, ← List.filterMap_eq_filter, List.filterMap_filterMap]
  congr 1
  funext r
  by_cases hr : r.1 ∈ declared <;> simp [findUndeclared, Site.finding, Option.guard, hr]

theorem order_finding_eq_lt_iff (declared : List String) (s t : Site) :
    (s.finding declared).order (t.finding declared) = .lt ↔ s.Before t := by
  rw [Diagnostic.order_eq_lt_iff]
  simp only [Diagnostic.Before, Site.finding, Diagnostic.undeclared, Diagnostic.Ahead, Option.some.injEq, Site.Before]

theorem order_finding_eq_eq_iff (declared : List String) (s t : Site) :
    (s.finding declared).order (t.finding declared) = .eq ↔ s = t := by
  rw [Diagnostic.order_eq_eq_iff]
  obtain ⟨_, _, _⟩ := s
  obtain ⟨_, _, _⟩ := t
  simp only [Diagnostic.key, Site.finding, Diagnostic.undeclared, Prod.mk.injEq, Option.some.injEq, Site.mk.injEq]

/-- The order tells all findings of a check apart. -/
theorem undeclaredEvents_apart (declared : List String) (hats : NameTable Hat) :
    (undeclaredEvents declared hats).Pairwise fun a b => a.order b ≠ .eq := by
  rw [undeclaredEvents_eq, List.pairwise_map]
  refine ((nodup_sites hats).filter _).imp ?_
  intro s t hne
  rwa [Ne, order_finding_eq_eq_iff]

/-! ## The report -/

/-- The sites whose event is not declared, in the order of the report. -/
def Workflow.dangling (w : Workflow) : List Site :=
  ((sites w.hats).filter (·.event ∉ w.declared)).mergeSort fun s t =>
    ((s.finding w.declared).order (t.finding w.declared)).isLE

theorem diagnostics_report (w : Workflow) :
    w.report.diagnostics = w.dangling.map (Site.finding w.declared) := by
  unfold Workflow.report Report.ofList Workflow.dangling
  rw [undeclaredEvents_eq, List.map_mergeSort]
  intro s _ t _
  rfl

theorem declares_eq_true_iff (w : Workflow) (event : String) : w.declares event = true ↔ event ∈ w.declared := by
  simp only [Workflow.declares, NameTable.contains, Option.isSome_iff_exists, NameTable.get?_eq_some_iff,
    Workflow.declared, NameTable.names, List.mem_map]
  constructor
  · rintro ⟨e, he⟩
    exact ⟨_, he, rfl⟩
  · rintro ⟨⟨_, e⟩, he, rfl⟩
    exact ⟨e, he⟩

theorem Workflow.ascending_declared (w : Workflow) : w.declared.Pairwise (· < ·) :=
  List.pairwise_map.2 w.events.ascending

theorem mem_dangling (w : Workflow) (s : Site) : s ∈ w.dangling ↔ w.Dangles s := by
  have hdecl : w.declares s.event = false ↔ s.event ∉ w.declared := by
    rw [← declares_eq_true_iff, Bool.not_eq_true]
  simp only [Workflow.dangling, List.mem_mergeSort, List.mem_filter, mem_sites, decide_eq_true_eq, Workflow.Dangles,
    hdecl]
  constructor
  · rintro ⟨⟨h, hh, he⟩, hd⟩
    exact ⟨h, hh, he, hd⟩
  · rintro ⟨h, hh, he, hd⟩
    exact ⟨⟨h, hh, he⟩, hd⟩

/-- No two findings of a check are equal in the order of a report, so the sites ascend strictly. -/
theorem dangling_strict (w : Workflow) : w.dangling.Pairwise Site.Before := by
  have hstrict := Report.ofList_strict (undeclaredEvents_apart w.declared w.hats)
  change w.report.diagnostics.Pairwise _ at hstrict
  rw [diagnostics_report, List.pairwise_map] at hstrict
  exact hstrict.imp (order_finding_eq_lt_iff _ _ _).1

theorem exists_dangles_iff (w : Workflow) : (∃ s, w.Dangles s) ↔ w.report.diagnostics ≠ [] := by
  rw [diagnostics_report, Ne, List.map_eq_nil_iff, List.eq_nil_iff_forall_not_mem, not_forall_not]
  exact exists_congr fun s => (mem_dangling w s).symm

theorem hasErrors_report (w : Workflow) : w.report.hasErrors = true ↔ ∃ s, w.Dangles s := by
  simp only [Report.hasErrors, diagnostics_report, List.any_map, List.any_eq_true, ← mem_dangling]
  constructor
  · rintro ⟨s, hs, -⟩
    exact ⟨s, hs⟩
  · rintro ⟨s, hs⟩
    exact ⟨s, hs, rfl⟩

theorem checkWith_eq_error_iff (t : AliasTable) (w : Workflow) (report : Report) :
    w.checkWith t = .error report ↔ (∃ s, w.Dangles s) ∧ report = w.report := by
  rw [← hasErrors_report]
  unfold Workflow.checkWith
  split
  · rename_i h
    simp [h, eq_comm]
  · rename_i h
    simp [h]

theorem not_dangles_iff (w : Workflow) :
    (¬ ∃ s, w.Dangles s) ↔
      ∀ id h, w.hats.get? id = some h → ∀ e, e ∈ h.triggers ∨ e ∈ h.publishes → w.declares e = true := by
  constructor
  · intro hnone id h hh e he
    by_contra hd
    refine hnone ?_
    rcases he with he | he
    · exact ⟨⟨id, e, .trigger⟩, h, hh, he, by simpa using hd⟩
    · exact ⟨⟨id, e, .publish⟩, h, hh, he, by simpa using hd⟩
  · rintro hall ⟨⟨id, e, usage⟩, h, hh, he, hd⟩
    have htrue : w.declares e = true := by
      cases usage
      · exact hall id h hh e (.inl he)
      · exact hall id h hh e (.inr he)
    simp [htrue] at hd

/-- A check passes exactly when every event that a hat waits for or publishes is
declared. Otherwise its report has one finding for each dangling site, in the
order of the sites, and no others. -/
theorem checkWith_reports_dangling (t : AliasTable) (w : Workflow) :
    ((∃ plan, w.checkWith t = .ok plan) ↔
      ∀ id h, w.hats.get? id = some h → ∀ e, e ∈ h.triggers ∨ e ∈ h.publishes → w.declares e = true) ∧
    ∀ report, w.checkWith t = .error report →
      ∃ sites : List Site, sites.Pairwise Site.Before ∧ (∀ s, s ∈ sites ↔ w.Dangles s) ∧
        List.Forall₂ Site.ReportedBy sites report.diagnostics := by
  constructor
  · rw [← not_dangles_iff]
    cases h : w.checkWith t with
    | ok plan =>
      have hno : ¬ ∃ s, w.Dangles s := by
        intro hs
        rw [(checkWith_eq_error_iff t w w.report).2 ⟨hs, rfl⟩] at h
        cases h
      simp [hno]
    | error report => simp [((checkWith_eq_error_iff t w report).1 h).1]
  · intro report h
    obtain ⟨-, rfl⟩ := (checkWith_eq_error_iff t w report).1 h
    refine ⟨w.dangling, dangling_strict w, mem_dangling w, ?_⟩
    rw [diagnostics_report, List.forall₂_map_right_iff, List.forall₂_same]
    exact fun s _ => reportedBy_finding w.declared s

/-- A workflow whose one hat waits for an event that is not declared and publishes it too. -/
def unheard : Workflow :=
  { Workflow.empty with
    hats := .ofList [("a", { Hat.empty with triggers := .ofList ["go"], publishes := .ofList ["go"] })] }

theorem unheard_reports_dangling : ∃ report, unheard.checkWith .empty = .error report ∧
    ∃ sites : List Site, sites.Pairwise Site.Before ∧ (∀ s, s ∈ sites ↔ unheard.Dangles s) ∧
      List.Forall₂ Site.ReportedBy sites report.diagnostics := by
  have hfail : unheard.checkWith .empty = .error unheard.report := by
    rw [checkWith_eq_error_iff]
    exact ⟨⟨⟨"a", "go", .trigger⟩, { Hat.empty with triggers := .ofList ["go"], publishes := .ofList ["go"] },
      rfl, by decide, by decide⟩, rfl⟩
  exact ⟨_, hfail, (checkWith_reports_dangling .empty unheard).2 _ hfail⟩

end Preflight
