import Preflight.Proofs.Graph.Printed
import Preflight.Proofs.Text.Template
/-!
# A report is read back from its text

The words about a site end its hat at the first colon and its event before the
closing words, which are equally long for both usages, so they tell the site
even if the event has the same words in it (`eq_of_words`). If no name breaks a
line, the lines of a report are the words of its sites, and reports with one
text have the same sites (`same_sites_of_text`).
-/

namespace Preflight

/-- No hat has a colon or a line break in its id, and no event that a hat refers to has a line break in its name. -/
structure Workflow.Legible (w : Workflow) : Prop where
  hats : ∀ id ∈ w.hats.names, ':' ∉ id.toList ∧ '\n' ∉ id.toList
  events : ∀ h ∈ w.hats.values, ∀ e ∈ h.triggers.toList ++ h.publishes.toList, '\n' ∉ e.toList

/-! ## The words about a site -/

theorem length_ending (u v : Usage) : u.ending.toList.length = v.ending.toList.length := by
  cases u <;> cases v <;> decide

theorem ending_injective {u v : Usage} (h : u.ending = v.ending) : u = v := by
  revert h
  cases u <;> cases v <;> decide

theorem toList_words (s : Site) :
    s.words.toList =
      s.hat.toList ++ ':' :: (" undeclared event \"".toList ++ (s.event.toList ++ s.usage.ending.toList)) := by
  have hopening : ": undeclared event \"".toList = ':' :: " undeclared event \"".toList := by decide
  simp only [Site.words, String.toList_append, List.append_assoc, hopening, List.cons_append]

/-- The words tell the site, if the hat has no colon in its id. -/
theorem eq_of_words {s t : Site} (hs : ':' ∉ s.hat.toList) (ht : ':' ∉ t.hat.toList) (h : s.words = t.words) :
    s = t := by
  have hchars := congrArg String.toList h
  rw [toList_words, toList_words] at hchars
  obtain ⟨hhat, hrest⟩ := Text.cut_char_unique hs ht hchars
  obtain ⟨hevent, hending⟩ := List.append_inj' (List.append_cancel_left hrest) (length_ending _ _)
  obtain ⟨hat, event, usage⟩ := s
  obtain ⟨hat', event', usage'⟩ := t
  obtain rfl : hat = hat' := String.toList_inj.1 hhat
  obtain rfl : event = event' := String.toList_inj.1 hevent
  obtain rfl : usage = usage' := ending_injective (String.toList_inj.1 hending)
  rfl

/-- Where a hat has a colon in its id, two sites may have the same words. -/
example : (⟨"a", "b: undeclared event \"c", .trigger⟩ : Site).words =
    (⟨"a: undeclared event \"b", "c", .trigger⟩ : Site).words := by
  decide

theorem eq_of_map_words {ss ts : List Site} (hs : ∀ s ∈ ss, ':' ∉ s.hat.toList) (ht : ∀ t ∈ ts, ':' ∉ t.hat.toList)
    (h : ss.map Site.words = ts.map Site.words) : ss = ts := by
  induction ss generalizing ts with
  | nil => simpa using h.symm
  | cons s ss ih =>
    obtain ⟨t, ts, rfl, hwords, hrest⟩ := List.map_eq_cons_iff.1 h.symm
    obtain ⟨hs, hss⟩ := List.forall_mem_cons.1 hs
    obtain ⟨ht, hts⟩ := List.forall_mem_cons.1 ht
    rw [eq_of_words hs ht hwords.symm, ih hss hts hrest.symm]

/-! ## The text of a report -/

namespace Workflow

variable {w w' : Workflow}

theorem Legible.of_dangles (h : w.Legible) {s : Site} (hs : w.Dangles s) :
    ':' ∉ s.hat.toList ∧ '\n' ∉ s.hat.toList ∧ '\n' ∉ s.event.toList := by
  obtain ⟨hat, hhat, hevent, -⟩ := hs
  have hentry := (NameTable.get?_eq_some_iff _ _ _).1 hhat
  obtain ⟨hcolon, hbreak⟩ := h.hats s.hat (List.mem_map_of_mem hentry)
  refine ⟨hcolon, hbreak, h.events hat (List.mem_map_of_mem hentry) s.event ?_⟩
  obtain ⟨_, event, usage⟩ := s
  cases usage with
  | trigger => exact List.mem_append_left _ hevent
  | publish => exact List.mem_append_right _ hevent

theorem Legible.not_mem_words (h : w.Legible) {s : Site} (hs : w.Dangles s) : '\n' ∉ s.words.toList := by
  obtain ⟨-, hhat, hevent⟩ := h.of_dangles hs
  rw [← List.count_eq_zero, count_break_words]
  exact (breaks_eq_zero_iff s).2 ⟨hhat, hevent⟩

/-- The lines of the text are the words about the sites. -/
theorem Legible.lines_text (h : w.Legible) (hs : ∃ s, w.Dangles s) :
    Text.lines w.report.text = w.dangling.map Site.words := by
  rw [text_report]
  apply (Text.lines_joined_eq_self_iff (by simpa using dangling_ne_nil hs)).2
  intro line hline
  obtain ⟨s, hs, rfl⟩ := List.mem_map.1 hline
  exact h.not_mem_words ((mem_dangling w s).1 hs)

theorem key_finding (declared : List String) (s : Site) :
    (s.finding declared).key = (some s.hat, some s.event, some s.usage) :=
  rfl

theorem map_key_report (w : Workflow) :
    w.report.diagnostics.map Diagnostic.key = w.dangling.map fun s => (some s.hat, some s.event, some s.usage) := by
  rw [diagnostics_report, List.map_map]
  exact List.map_congr_left fun s _ => key_finding w.declared s

/-- Two reports with one text have findings about the same hats, events and usages, one by one. -/
theorem same_sites_of_text {t t' : AliasTable} {report report' : Report} (h : w.checkWith t = .error report)
    (h' : w'.checkWith t' = .error report') (hw : w.Legible) (hw' : w'.Legible) (htext : report.text = report'.text) :
    report.diagnostics.map Diagnostic.key = report'.diagnostics.map Diagnostic.key := by
  obtain ⟨hsites, rfl⟩ := (checkWith_eq_error_iff t w report).1 h
  obtain ⟨hsites', rfl⟩ := (checkWith_eq_error_iff t' w' report').1 h'
  have hwords : w.dangling.map Site.words = w'.dangling.map Site.words := by
    rw [← hw.lines_text hsites, ← hw'.lines_text hsites', htext]
  have hcolon {v : Workflow} (hv : v.Legible) : ∀ s ∈ v.dangling, ':' ∉ s.hat.toList :=
    fun s hs => (hv.of_dangles ((mem_dangling v s).1 hs)).1
  rw [map_key_report, map_key_report, eq_of_map_words (hcolon hw) (hcolon hw') hwords]

/-- A hat that waits for an event with the words of a report in its name. -/
def wordyEvent : Workflow :=
  { empty with hats := .ofList [("a", { Hat.empty with triggers := .ofList ["go\" (used as publish)"] })] }

/-- The same with an event that is declared, and a second hat that waits for it. -/
def wordyEvents : Workflow :=
  { empty with
    hats := .ofList [("a", { Hat.empty with triggers := .ofList ["go\" (used as publish)"] }),
      ("b", { Hat.empty with triggers := .ofList ["done"] })]
    events := .ofList [("done", .empty)] }

theorem wordyEvent_sites : ∃ report report', wordyEvent.check = .error report ∧ wordyEvents.check = .error report' ∧
    wordyEvent.Legible ∧ wordyEvents.Legible ∧ report.text = report'.text ∧
    report.diagnostics.map Diagnostic.key = report'.diagnostics.map Diagnostic.key := by
  have hfails {w : Workflow} (herrors : w.report.hasErrors = true) : w.check = .error w.report :=
    (checkWith_eq_error_iff _ w _).2 ⟨(hasErrors_report w).1 herrors, rfl⟩
  have h := hfails (w := wordyEvent) (by decide +kernel)
  have h' := hfails (w := wordyEvents) (by decide +kernel)
  have hlegible : wordyEvent.Legible := ⟨by decide +kernel, by decide +kernel⟩
  have hlegible' : wordyEvents.Legible := ⟨by decide +kernel, by decide +kernel⟩
  have htext : wordyEvent.report.text = wordyEvents.report.text := by decide +kernel
  exact ⟨_, _, h, h', hlegible, hlegible', htext, same_sites_of_text h h' hlegible hlegible' htext⟩

end Workflow

end Preflight
