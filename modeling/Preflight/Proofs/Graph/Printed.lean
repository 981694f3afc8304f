import Preflight.Outcome
import Preflight.Config.Load
import Preflight.Proofs.Graph.Dangling
import Preflight.Proofs.Document.Reading
import Preflight.Proofs.Text.Lines
/-!
# A report as it is printed

The error stream of a failed check has a line for each finding and one more for
each line break in the hat or the event of a finding. So its lines are those of
the findings exactly if no such name has a line break in it
(`failedCheck_lines_iff`).
-/

namespace Preflight

/-- The line breaks in the names of a site. -/
def Site.breaks (s : Site) : Nat :=
  s.hat.toList.count '\n' + s.event.toList.count '\n'

theorem count_break_words (s : Site) : s.words.toList.count '\n' = s.breaks := by
  obtain ⟨hat, event, usage⟩ := s
  have hfront : (": undeclared event \"").toList.count '\n' = 0 := by decide
  have hend : usage.ending.toList.count '\n' = 0 := by cases usage <;> decide
  simp only [Site.words, Site.breaks, String.toList_append, List.count_append, hfront, hend]
  omega

theorem breaks_eq_zero_iff (s : Site) : s.breaks = 0 ↔ '\n' ∉ s.hat.toList ∧ '\n' ∉ s.event.toList := by
  simp [Site.breaks, List.count_eq_zero]

theorem text_report (w : Workflow) : w.report.text = "\n".intercalate (w.dangling.map Site.words) := by
  rw [Report.text, diagnostics_report, List.map_map]
  congr 1
  exact List.map_congr_left fun s _ => (reportedBy_finding w.declared s).message

/-- A report is printed to the error stream in either notation. -/
theorem stderr_render_report (report : Report) (format : OutputFormat) :
    ∃ out, render (.error report) format = .ok out ∧ out.stderr = report.text := by
  cases format <;> exact ⟨_, rfl, rfl⟩

theorem dangling_ne_nil {w : Workflow} (h : ∃ s, w.Dangles s) : w.dangling ≠ [] := by
  obtain ⟨s, hs⟩ := h
  exact List.ne_nil_of_mem ((mem_dangling w s).2 hs)

/-- The error stream of a failed check has a line for each finding, in their order, and nothing else, exactly if no hat
and no event in them has a line break in its name. Each such break makes one line more. -/
theorem failedCheck_lines_iff {t : AliasTable} {w : Workflow} {report : Report} (h : w.checkWith t = .error report)
    (format : OutputFormat) :
    ∃ (out : Outcome) (sites : List Site), render (.error report) format = .ok out ∧
      List.Forall₂ Site.ReportedBy sites report.diagnostics ∧
      (Text.lines out.stderr).length = sites.length + (sites.map Site.breaks).sum ∧
      (Text.lines out.stderr = sites.map Site.words ↔
        ∀ s ∈ sites, '\n' ∉ s.hat.toList ∧ '\n' ∉ s.event.toList) := by
  obtain ⟨hsites, rfl⟩ := (checkWith_eq_error_iff t w report).1 h
  have hne : w.dangling.map Site.words ≠ [] := by simpa using dangling_ne_nil hsites
  obtain ⟨out, hout, hstderr⟩ := stderr_render_report w.report format
  rw [text_report] at hstderr
  refine ⟨out, w.dangling, hout, ?_, ?_, ?_⟩
  · rw [diagnostics_report, List.forall₂_map_right_iff, List.forall₂_same]
    exact fun s _ => reportedBy_finding w.declared s
  · rw [hstderr, Text.length_lines_joined hne, List.length_map, List.map_map]
    simp only [Function.comp_def, count_break_words]
  · rw [hstderr, Text.lines_joined_eq_self_iff hne, List.forall_mem_map]
    refine forall_congr' fun s => forall_congr' fun _ => ?_
    rw [← List.count_eq_zero, count_break_words, breaks_eq_zero_iff]

/-- A hat with a line break in its id, which waits for an event that is not declared. -/
def brokenName : String :=
  "hats:\n  \"a\\nb\":\n    triggers: [x]\n"

theorem brokenName_lines :
    ∃ w report out, ∃ sites : List Site, (Workflow.parse .yaml brokenName).result = .ok w ∧ w.check = .error report ∧
      render (.error report) .json = .ok out ∧ List.Forall₂ Site.ReportedBy sites report.diagnostics ∧
      (Text.lines out.stderr).length = sites.length + (sites.map Site.breaks).sum := by
  have hloads : (Workflow.parse .yaml brokenName).result.toOption.any (·.report.hasErrors) = true := by decide +kernel
  obtain ⟨w, hw, herrors⟩ := (Option.any_eq_true _ _).1 hloads
  rw [toOption_eq_some_iff] at hw
  have hfails : w.check = .error w.report := (checkWith_eq_error_iff _ w _).2 ⟨(hasErrors_report w).1 herrors, rfl⟩
  obtain ⟨out, sites, hout, hsites, hlength, -⟩ := failedCheck_lines_iff hfails .json
  exact ⟨w, w.report, out, sites, hw, hfails, hout, hsites, hlength⟩

theorem brokenName_two_lines :
    ∃ w report, (Workflow.parse .yaml brokenName).result = .ok w ∧ w.check = .error report ∧
      report.diagnostics.length = 1 ∧ ∀ format, ∃ out, render (.error report) format = .ok out ∧
        Text.lines out.stderr = ["a", "b: undeclared event \"x\" (used as trigger)"] := by
  have hloads : ((Workflow.parse .yaml brokenName).result.toOption.any fun w =>
      w.report.hasErrors && w.report.diagnostics.length == 1 &&
        Text.lines w.report.text == ["a", "b: undeclared event \"x\" (used as trigger)"]) = true := by
    decide +kernel
  obtain ⟨w, hw, hreport⟩ := (Option.any_eq_true _ _).1 hloads
  rw [toOption_eq_some_iff] at hw
  simp only [Bool.and_eq_true, beq_iff_eq] at hreport
  obtain ⟨⟨herrors, hlength⟩, hlines⟩ := hreport
  refine ⟨w, w.report, hw, ?_, hlength, ?_⟩
  · exact (checkWith_eq_error_iff _ w _).2 ⟨(hasErrors_report w).1 herrors, rfl⟩
  · intro format
    obtain ⟨out, hout, hstderr⟩ := stderr_render_report w.report format
    exact ⟨out, hout, hstderr ▸ hlines⟩

end Preflight
