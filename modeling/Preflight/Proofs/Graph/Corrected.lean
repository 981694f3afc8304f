import Preflight.Proofs.Plan
import Preflight.Proofs.Text.Nearest
/-!
# A suggestion repairs one finding

The event suggested at a site is the declared one that takes the fewest edits
(`nearestTo_suggestion`). Put in place of the event at the site it takes away that
site from those that dangle, and no other (`dangles_corrected_iff`), so the
report loses that finding and keeps the rest as it is (`suggestion_repairs`).
-/

namespace Preflight

/-! ## One event in place of another -/

/-- The set with one name in place of another, if that is in it. -/
def NameSet.replace (names : NameSet) (old new : String) : NameSet :=
  .ofList (names.toList.map fun x => if x = old then new else x)

theorem NameSet.mem_replace {names : NameSet} {old new x : String} :
    x ∈ names.replace old new ↔ x ∈ names ∧ x ≠ old ∨ x = new ∧ old ∈ names := by
  simp only [replace, mem_ofList, List.mem_map, mem_toList]
  constructor
  · rintro ⟨y, hy, rfl⟩
    by_cases hold : y = old
    · subst hold
      simp [hy]
    · simp [hold, hy]
  · rintro (⟨hx, hne⟩ | ⟨rfl, hold⟩)
    · exact ⟨x, hx, if_neg hne⟩
    · exact ⟨old, hold, if_pos rfl⟩

/-- The hat with one event in place of another among those to which it refers in one way. -/
def Hat.replace (h : Hat) (old new : String) : Usage → Hat
  | .trigger => { h with triggers := h.triggers.replace old new }
  | .publish => { h with publishes := h.publishes.replace old new }

theorem Hat.eventsOf_replace (h : Hat) (old new : String) (usage other : Usage) :
    (h.replace old new usage).eventsOf other =
      if other = usage then (h.eventsOf other).replace old new else h.eventsOf other := by
  cases usage <;> cases other <;> rfl

/-- Apart from the new event a hat refers to what it did, but no longer to the old event in that way. -/
theorem Hat.mem_eventsOf_replace (h : Hat) {old new x : String} (hx : x ≠ new) (usage other : Usage) :
    x ∈ (h.replace old new usage).eventsOf other ↔ x ∈ h.eventsOf other ∧ ¬(other = usage ∧ x = old) := by
  rw [eventsOf_replace]
  by_cases hother : other = usage
  · simp [hother, NameSet.mem_replace, hx]
  · simp [hother]

namespace Workflow

/-- The workflow with an event in place of the one at a site. -/
def corrected (w : Workflow) (s : Site) (event : String) : Workflow :=
  match w.hats.get? s.hat with
  | some h => { w with hats := w.hats.insert s.hat (h.replace s.event event s.usage) }
  | none => w

variable {w : Workflow} {s : Site} {event : String}

theorem get?_corrected (id : String) : (w.corrected s event).hats.get? id =
    if id = s.hat then (w.hats.get? id).map (·.replace s.event event s.usage) else w.hats.get? id := by
  unfold corrected
  cases hs : w.hats.get? s.hat with
  | none => split <;> simp_all
  | some h =>
    rw [NameTable.get?_insert]
    split <;> simp_all

theorem events_corrected : (w.corrected s event).events = w.events := by
  unfold corrected
  split <;> rfl

theorem declares_corrected (e : String) : (w.corrected s event).declares e = w.declares e := by
  rw [declares, declares, events_corrected]

theorem declared_corrected : (w.corrected s event).declared = w.declared := by
  rw [declared, declared, events_corrected]

/-! ## What dangles then -/

/-- With a declared event in its place a site does not dangle, and the others are as they were. -/
theorem dangles_corrected_iff (hevent : w.declares event = true) (t : Site) :
    (w.corrected s event).Dangles t ↔ w.Dangles t ∧ t ≠ s := by
  -- The new event is declared, so nothing that dangles comes of it.
  have hnew (hd : w.declares t.event = false) : t.event ≠ event := by
    rintro rfl
    simp [hevent] at hd
  simp only [Dangles, get?_corrected, declares_corrected]
  by_cases hhat : t.hat = s.hat
  · have hsite : t ≠ s ↔ ¬(t.usage = s.usage ∧ t.event = s.event) := by
      obtain ⟨_, _, _⟩ := t
      obtain ⟨_, _, _⟩ := s
      simp_all [and_comm]
    simp only [if_pos hhat, Option.map_eq_some_iff, hsite]
    constructor
    · rintro ⟨_, ⟨h, hh, rfl⟩, he, hd⟩
      obtain ⟨he, hother⟩ := (h.mem_eventsOf_replace (hnew hd) s.usage t.usage).1 he
      exact ⟨⟨h, hh, he, hd⟩, hother⟩
    · rintro ⟨⟨h, hh, he, hd⟩, hother⟩
      exact ⟨_, ⟨h, hh, rfl⟩, (h.mem_eventsOf_replace (hnew hd) s.usage t.usage).2 ⟨he, hother⟩, hd⟩
  · have hsite : t ≠ s := fun h => hhat (congrArg Site.hat h)
    simp [if_neg hhat, hsite]

theorem before_asymm {t u : Site} (h : t.Before u) : ¬u.Before t := by
  rw [← order_finding_eq_lt_iff []] at h ⊢
  exact Std.OrientedCmp.not_lt_of_lt h

theorem nodup_dangling (w : Workflow) : w.dangling.Nodup := by
  refine (dangling_strict w).imp ?_
  rintro t _ h rfl
  exact before_asymm h h

theorem dangling_corrected (hevent : w.declares event = true) :
    (w.corrected s event).dangling = w.dangling.erase s := by
  have hmem (t : Site) : t ∈ (w.corrected s event).dangling ↔ t ∈ w.dangling.erase s := by
    rw [mem_dangling, dangles_corrected_iff hevent, (nodup_dangling w).mem_erase_iff, mem_dangling, and_comm]
  have hperm := (List.perm_ext_iff_of_nodup (nodup_dangling _) ((nodup_dangling w).erase s)).2 hmem
  refine hperm.eq_of_pairwise ?_ (dangling_strict _) ((dangling_strict w).sublist List.erase_sublist)
  intro t u _ _ htu hut
  exact absurd hut (before_asymm htu)

theorem finding_injective (declared : List String) : Function.Injective (Site.finding declared) := by
  intro t u h
  rw [← order_finding_eq_eq_iff declared, h]
  exact (order_finding_eq_eq_iff declared u u).2 rfl

/-- The report loses the finding at the site, and has all others in their order. -/
theorem diagnostics_corrected (hevent : w.declares event = true) :
    (w.corrected s event).report.diagnostics = w.report.diagnostics.erase (s.finding w.declared) := by
  rw [diagnostics_report, diagnostics_report, declared_corrected, dangling_corrected hevent]
  exact List.map_erase (finding_injective w.declared) _

/-! ## What is suggested -/

/-- The event is declared and takes the fewest edits from another, and is the least of those that do. -/
structure NearestTo (w : Workflow) (other event : String) : Prop where
  declared : w.declares event = true
  differs : event ≠ other
  nearest : ∃ n, Text.Script n other.toList event.toList ∧
    ∀ x, w.declares x = true → ∀ k, Text.Script k other.toList x.toList → n < k ∨ n = k ∧ event ≤ x

theorem ne_of_declares (hs : w.declares s.event = false) {x : String} (hx : w.declares x = true) : x ≠ s.event := by
  rintro rfl
  simp [hs] at hx

theorem suggestion_isSome_iff (hs : w.declares s.event = false) : (s.finding w.declared).suggestion.isSome = true ↔
    ∃ x, w.declares x = true ∧ ∃ n ≤ 3, Text.Script n s.event.toList x.toList := by
  have hnone : (s.finding w.declared).suggestion = none ↔ ∀ x ∈ w.declared, ¬Text.Near s.event eventReach x :=
    Text.nearest_eq_none_iff w.declared
  rw [Option.isSome_iff_ne_none]
  simp only [ne_eq, hnone, not_forall, not_not, Text.near_iff, ← declares_eq_true_iff, exists_prop]
  exact exists_congr fun x => and_congr_right fun hx => and_iff_right (ne_of_declares hs hx)

theorem nearestTo_suggestion (hs : w.declares s.event = false) (h : (s.finding w.declared).suggestion = some event) :
    w.NearestTo s.event event := by
  have hsuggested : Text.Suggested s.event eventReach w.declared (s.finding w.declared).suggestion :=
    Text.suggested_nearest (ascending_declared w)
  rw [h] at hsuggested
  obtain ⟨hmem, hnear, hbest⟩ := hsuggested
  refine ⟨(declares_eq_true_iff w event).2 hmem, (Text.near_iff.1 hnear).1, ?_⟩
  refine ⟨Text.distance s.event event, (Text.script_distance s.event event).1, ?_⟩
  intro x hx k hk
  by_cases hreach : k ≤ eventReach
  · have hxnear := Text.near_iff.2 ⟨ne_of_declares hs hx, k, hreach, hk⟩
    have hle := (Text.script_distance s.event x).2 hk
    rcases hbest x ((declares_eq_true_iff w x).1 hx) hxnear with hlt | ⟨heq, hevent⟩
    · exact .inl (Nat.lt_of_lt_of_le hlt hle)
    · exact (Nat.lt_or_eq_of_le (heq.trans_le hle)).imp_right fun hk => ⟨hk, hevent⟩
  · -- What is out of reach is farther than what was found within it.
    exact .inl (Nat.lt_of_le_of_lt hnear.2 (Nat.not_le.1 hreach))

/-- Each finding of a failed check has a suggestion exactly if a declared event takes at most three edits, and then it
is the nearest, and the least of the nearest. Put in place of the event that was found it takes away that finding and
leaves the others, or lets the check pass if there are no others. -/
theorem suggestion_repairs {t : AliasTable} {report : Report} (h : w.checkWith t = .error report) :
    ∀ d ∈ report.diagnostics, ∃ s : Site, s.ReportedBy d ∧
      (d.suggestion.isSome = true ↔
        ∃ x, w.declares x = true ∧ ∃ n ≤ 3, Text.Script n s.event.toList x.toList) ∧
      ∀ event, d.suggestion = some event → w.NearestTo s.event event ∧ ∀ t',
        (report.diagnostics = [d] → ∃ plan, (w.corrected s event).checkWith t' = .ok plan) ∧
        (report.diagnostics ≠ [d] →
          (w.corrected s event).checkWith t' = .error ⟨report.diagnostics.erase d⟩) := by
  obtain ⟨-, rfl⟩ := (checkWith_eq_error_iff t w report).1 h
  intro d hd
  rw [diagnostics_report] at hd
  obtain ⟨s, hs, rfl⟩ := List.mem_map.1 hd
  obtain ⟨-, -, -, hundeclared⟩ := (mem_dangling w s).1 hs
  refine ⟨s, reportedBy_finding w.declared s, suggestion_isSome_iff hundeclared, ?_⟩
  intro event hevent
  have hnearest := nearestTo_suggestion hundeclared hevent
  have hreport := diagnostics_corrected (s := s) hnearest.declared
  have hdangles := exists_dangles_iff (w.corrected s event)
  rw [hreport, Ne, List.erase_eq_nil_iff] at hdangles
  refine ⟨hnearest, fun t' => ⟨fun honly => ?_, fun hothers => ?_⟩⟩
  · exact ⟨_, (checkWith_eq_ok_iff t' _ _).2 ⟨fun hs => hdangles.1 hs (.inr honly), rfl⟩⟩
  · refine (checkWith_eq_error_iff t' _ _).2 ⟨hdangles.2 ?_, congrArg Report.mk hreport.symm⟩
    rintro (hnil | honly)
    · exact List.ne_nil_of_mem hd (diagnostics_report w ▸ hnil)
    · exact hothers honly

/-- A hat that waits for a misspelt event and publishes it, and waits for the event that is meant too. -/
def mistyped : Workflow :=
  { empty with
    hats := .ofList [("a", { Hat.empty with
      triggers := .ofList ["build.don", "build.done"], publishes := .ofList ["build.don"] })]
    events := .ofList [("build.done", .empty), ("build.dont", .empty)] }

theorem mistyped_repaired : ∃ report, mistyped.check = .error report ∧
    ∃ d ∈ report.diagnostics, d.suggestion = some "build.done" ∧ mistyped.NearestTo "build.don" "build.done" ∧
      (mistyped.corrected ⟨"a", "build.don", .trigger⟩ "build.done").check =
        .error ⟨report.diagnostics.erase d⟩ := by
  have hdangles (usage : Usage) : mistyped.Dangles ⟨"a", "build.don", usage⟩ := by
    cases usage <;> exact ⟨_, rfl, by decide, by decide⟩
  have hmem (usage : Usage) :
      Site.finding mistyped.declared ⟨"a", "build.don", usage⟩ ∈ mistyped.report.diagnostics := by
    rw [diagnostics_report]
    exact List.mem_map_of_mem ((mem_dangling mistyped _).2 (hdangles usage))
  have hfails : mistyped.check = .error mistyped.report :=
    (checkWith_eq_error_iff _ mistyped _).2 ⟨⟨_, hdangles .trigger⟩, rfl⟩
  have hsuggestion : (Site.finding mistyped.declared ⟨"a", "build.don", .trigger⟩).suggestion = some "build.done" := by
    decide +kernel
  obtain ⟨⟨hat, event, usage⟩, hs, -, hrepairs⟩ := suggestion_repairs hfails _ (hmem .trigger)
  cases hs.hat
  cases hs.event
  cases hs.usage
  obtain ⟨hnearest, hcorrected⟩ := hrepairs _ hsuggestion
  refine ⟨_, hfails, _, hmem .trigger, hsuggestion, hnearest, (hcorrected _).2 ?_⟩
  intro honly
  have hpublish := hmem .publish
  rw [honly, List.mem_singleton] at hpublish
  cases congrArg Diagnostic.usage hpublish

end Workflow

end Preflight
