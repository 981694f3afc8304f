import Preflight.Command.Invoke
import Preflight.Proofs.Graph.Printed
import Preflight.Proofs.Table
/-!
# The outcome of a dry run

Whether a workflow is loaded, and whether each event in it is declared, decide
the status of a dry run and which of its streams are empty (`Outcome.Fits`). The
notation of the output decides only what the output stream says of a loaded
workflow, and whether there is an outcome at all: no table holds an id of more
than 65535 octets (`dryRun_outcome`).
-/

namespace Preflight

/-- The outcome that belongs to what came of loading: 2 if nothing was loaded, 1 if an event is not declared, 0 if all
are. -/
structure Outcome.Fits (out : Outcome) (format : OutputFormat) (loaded : Except LoadFailure LoadedFrom) : Prop where
  refused : ∀ f, loaded = .error f → out.code = 2 ∧ out.stdout = "" ∧ out.stderr ≠ ""
  passed : ∀ l, loaded = .ok l → (¬ ∃ s, l.workflow.Dangles s) → out.code = 0 ∧ out.stderr = "" ∧ out.stdout ≠ ""
  failed : ∀ l, loaded = .ok l → (∃ s, l.workflow.Dangles s) →
    out.code = 1 ∧ out.stderr ≠ "" ∧ (out.stdout = "" ↔ format = .text) ∧
      l.workflow.check = .error l.workflow.report ∧
      ∀ d ∈ l.workflow.report.diagnostics, d.message.toList <:+: out.stderr.toList

/-- What is asked for is the table of a workflow that passes, but a hat has an id longer than any width. -/
def CheckOptions.TooWide (s : Surroundings) (o : CheckOptions) : Prop :=
  o.format = .text ∧ ∃ l, o.load s = .ok l ∧ (¬ ∃ site, l.workflow.Dangles site) ∧
    ∃ id ∈ l.workflow.hats.names, 65535 < id.utf8ByteSize

/-! ## What is printed -/

theorem append_ne_empty (s : String) {t : String} (ht : t ≠ "") : s ++ t ≠ "" := by
  simp [String.append_eq_empty_iff, ht]

theorem text_plan_ne_empty {p : Plan} {table : String} (h : p.text? = some table) : table ≠ "" := by
  obtain ⟨width, -, rfl⟩ := Option.map_eq_some_iff.1 h
  exact Text.joined_ne_empty List.mem_cons_self (append_ne_empty _ (by decide))

theorem pretty_plan_ne_empty (p : Plan) : p.toJson.pretty ≠ "" := by
  simp [Plan.toJson, Json.pretty, Json.prettyAt]

theorem pretty_report_ne_empty (r : Report) : r.toJson.pretty ≠ "" := by
  simp [Report.toJson, Json.pretty, Json.prettyAt]

theorem text_report_ne_empty {w : Workflow} (h : ∃ s, w.Dangles s) : w.report.text ≠ "" := by
  obtain ⟨s, hs⟩ := h
  rw [text_report]
  refine Text.joined_ne_empty (List.mem_map_of_mem ((mem_dangling w s).2 hs)) ?_
  apply append_ne_empty
  cases s.usage <;> decide

theorem printed_eq_empty_iff (s : String) : printed s = "" ↔ s = "" := by
  unfold printed
  split <;> simp_all [String.append_eq_empty_iff]

theorem infix_printed (s : String) : s.toList <:+: (printed s).toList := by
  unfold printed
  split
  · simp_all
  · rw [String.toList_append]
    exact (List.prefix_append _ _).isInfix

/-! ## What a dry run comes to -/

theorem Outcome.Fits.emitted {out : Outcome} {format : OutputFormat} {loaded : Except LoadFailure LoadedFrom}
    (h : out.Fits format loaded) : out.emitted.Fits format loaded where
  refused f hf := by
    obtain ⟨hcode, hout, herr⟩ := h.refused f hf
    exact ⟨hcode, (printed_eq_empty_iff _).2 hout, mt (printed_eq_empty_iff _).1 herr⟩
  passed l hl hnone := by
    obtain ⟨hcode, herr, hout⟩ := h.passed l hl hnone
    exact ⟨hcode, (printed_eq_empty_iff _).2 herr, mt (printed_eq_empty_iff _).1 hout⟩
  failed l hl hsome := by
    obtain ⟨hcode, herr, hout, hcheck, hall⟩ := h.failed l hl hsome
    refine ⟨hcode, mt (printed_eq_empty_iff _).1 herr, (printed_eq_empty_iff _).trans hout, hcheck, ?_⟩
    exact fun d hd => (hall d hd).trans (infix_printed _)

theorem fits_failure (f : LoadFailure) (format : OutputFormat) : f.outcome.Fits format (.error f) := by
  refine ⟨?_, nofun, nofun⟩
  rintro _ -
  exact ⟨rfl, rfl, by simp [LoadFailure.outcome]⟩

theorem check_of_none_dangles {w : Workflow} (h : ¬ ∃ s, w.Dangles s) : w.check = .ok (w.plan w.aliasTable) :=
  (Workflow.checkWith_eq_ok_iff _ _ _).2 ⟨h, rfl⟩

theorem check_of_dangles {w : Workflow} (h : ∃ s, w.Dangles s) : w.check = .error w.report :=
  (checkWith_eq_error_iff _ _ _).2 ⟨h, rfl⟩

theorem exists_long_hat_iff (t : AliasTable) (w : Workflow) :
    (∃ h ∈ (w.plan t).hats, 65535 < h.id.utf8ByteSize) ↔ ∃ id ∈ w.hats.names, 65535 < id.utf8ByteSize := by
  simp [Workflow.plan, NameTable.names, Hat.resolve]

/-- A plan in either notation passes; only the table may be missing. -/
theorem render_plan (p : Plan) (format : OutputFormat) :
    (format = .text ∧ p.text? = none ∧ render (.ok p) format = .error .columnTooWide) ∨
    ((format = .text → p.text? ≠ none) ∧
      ∃ stdout, render (.ok p) format = .ok ⟨exitOk, stdout, ""⟩ ∧ stdout ≠ "") := by
  cases format with
  | text =>
    cases htable : p.text? with
    | none => exact .inl ⟨rfl, rfl, by simp [render, htable]⟩
    | some table => exact .inr ⟨by simp, table, by simp [render, htable], text_plan_ne_empty htable⟩
  | json => exact .inr ⟨by simp, _, rfl, pretty_plan_ne_empty p⟩

theorem fits_report {l : LoadedFrom} (h : ∃ s, l.workflow.Dangles s) (format : OutputFormat) :
    ∃ out, render l.workflow.check format = .ok out ∧ out.stderr = l.workflow.report.text ∧
      out.Fits format (.ok l) := by
  have hcheck := check_of_dangles h
  have hmessages : ∀ d ∈ l.workflow.report.diagnostics, d.message.toList <:+: l.workflow.report.text.toList :=
    fun d hd => Text.infix_joined (List.mem_map_of_mem hd)
  rw [hcheck]
  cases format with
  | text =>
    refine ⟨_, rfl, rfl, nofun, ?_, ?_⟩
    · rintro _ ⟨⟩ hnone
      exact absurd h hnone
    · rintro _ ⟨⟩ -
      exact ⟨rfl, text_report_ne_empty h, by simp, hcheck, hmessages⟩
  | json =>
    refine ⟨_, rfl, rfl, nofun, ?_, ?_⟩
    · rintro _ ⟨⟩ hnone
      exact absurd h hnone
    · rintro _ ⟨⟩ -
      exact ⟨rfl, text_report_ne_empty h, by simp [pretty_report_ne_empty], hcheck, hmessages⟩

/-- A dry run stops without an outcome if its table is too wide, and else has one that fits. -/
theorem fits_dryRun (s : Surroundings) (o : CheckOptions) :
    (o.TooWide s ∧ dryRun s o = .error .columnTooWide) ∨
    (¬ o.TooWide s ∧ ∃ out, dryRun s o = .ok out ∧ out.Fits o.format (o.load s)) := by
  unfold dryRun
  cases hload : o.load s with
  | error f =>
    refine .inr ⟨?_, f.outcome, rfl, fits_failure f o.format⟩
    rintro ⟨-, l, hl, -⟩
    simp [hload] at hl
  | ok l =>
    have hwide : o.TooWide s ↔ o.format = .text ∧ (¬ ∃ site, l.workflow.Dangles site) ∧
        ∃ id ∈ l.workflow.hats.names, 65535 < id.utf8ByteSize := by
      simp [CheckOptions.TooWide, hload]
    by_cases hsome : ∃ site, l.workflow.Dangles site
    · obtain ⟨out, hout, -, hfits⟩ := fits_report hsome o.format
      exact .inr ⟨fun h => (hwide.1 h).2.1 hsome, out, hout, hfits⟩
    · have hcheck := check_of_none_dangles hsome
      have hlong := exists_long_hat_iff l.workflow.aliasTable l.workflow
      simp only [CheckOptions.outcome, hcheck]
      rcases render_plan (l.workflow.plan l.workflow.aliasTable) o.format with
        ⟨htext, hnone, hcrash⟩ | ⟨htable, stdout, hout, hne⟩
      · exact .inl ⟨hwide.2 ⟨htext, hsome, hlong.1 ((Plan.text?_eq_none_iff _).1 hnone)⟩, hcrash⟩
      · refine .inr ⟨?_, _, hout, nofun, ?_, ?_⟩
        · intro h
          obtain ⟨htext, -, hids⟩ := hwide.1 h
          exact htable htext ((Plan.text?_eq_none_iff _).2 (hlong.2 hids))
        · rintro _ ⟨⟩ -
          exact ⟨rfl, rfl, hne⟩
        · rintro _ ⟨⟩ h
          exact absurd h hsome

theorem stderr_render_congr {result : Except Report Plan} {format format' : OutputFormat} {out out' : Outcome}
    (h : render result format = .ok out) (h' : render result format' = .ok out') :
    out'.code = out.code ∧ out'.stderr = out.stderr := by
  have hplan {p : Plan} {f : OutputFormat} {r : Outcome} (hr : render (.ok p) f = .ok r) :
      r.code = exitOk ∧ r.stderr = "" := by
    rcases render_plan p f with ⟨-, -, hcrash⟩ | ⟨-, stdout, hout, -⟩
    · simp [hcrash] at hr
    · rw [hout] at hr
      cases hr
      exact ⟨rfl, rfl⟩
  cases result with
  | ok p =>
    obtain ⟨hcode, hstderr⟩ := hplan h
    obtain ⟨hcode', hstderr'⟩ := hplan h'
    exact ⟨hcode'.trans hcode.symm, hstderr'.trans hstderr.symm⟩
  | error report => cases format <;> cases format' <;> cases h <;> cases h' <;> exact ⟨rfl, rfl⟩

/-- The notation of the output is left open. -/
theorem dryRun_congr {s : Surroundings} {o : CheckOptions} {format : OutputFormat} {out out' : Outcome}
    (h : dryRun s o = .ok out) (h' : dryRun s { o with format } = .ok out') :
    out'.code = out.code ∧ out'.stderr = out.stderr := by
  have hload : CheckOptions.load s { o with format } = o.load s := rfl
  unfold dryRun at h h'
  rw [hload] at h'
  cases hloaded : o.load s with
  | error f =>
    rw [hloaded] at h h'
    cases h
    cases h'
    exact ⟨rfl, rfl⟩
  | ok l =>
    rw [hloaded] at h h'
    exact stderr_render_congr h h'

namespace Command

/-- The two commands that are a dry run with the options. -/
inductive Invocation.IsDryRun (o : CheckOptions) : Invocation → Prop
  | check : IsDryRun o (.check o)
  | run : IsDryRun o (.run true o)

theorem outcome_of_isDryRun {o : CheckOptions} {c : Invocation} (hc : c.IsDryRun o) (s : Surroundings) :
    c.outcome s = dryRun s o := by
  cases hc <;> rfl

/-- Both commands for a dry run stop without an outcome if the table they are to print is too wide. Otherwise what reaches
the streams fits what came of loading: no status 0 if an event is not declared, and no status 1 without words. The
notation of the output changes neither the status nor the error stream, as long as there is an outcome. -/
theorem dryRun_outcome {o : CheckOptions} {c : Invocation} (hc : c.IsDryRun o) (s : Surroundings) :
    (o.TooWide s ∧ c.outcome s = .error .columnTooWide) ∨
    (¬ o.TooWide s ∧ ∃ out, c.outcome s = .ok out ∧ out.emitted.Fits o.format (o.load s) ∧
      (out.emitted.code = 0 → ∃ l, o.load s = .ok l ∧ ¬ ∃ site, l.workflow.Dangles site) ∧
      (out.emitted.code = 1 → out.emitted.stderr ≠ "") ∧
      ∀ (format : OutputFormat) (c' : Invocation) (out' : Outcome), c'.IsDryRun { o with format } →
        c'.outcome s = .ok out' →
          out'.emitted.code = out.emitted.code ∧ out'.emitted.stderr = out.emitted.stderr) := by
  rw [outcome_of_isDryRun hc s]
  refine (fits_dryRun s o).imp_right ?_
  rintro ⟨hwide, out, hout, hfits'⟩
  have hfits := hfits'.emitted
  refine ⟨hwide, out, hout, hfits, ?_, ?_, ?_⟩
  · intro hcode
    cases hload : o.load s with
    | error f => simp [(hfits.refused f hload).1] at hcode
    | ok l =>
      refine ⟨l, rfl, fun hsome => ?_⟩
      simp [(hfits.failed l hload hsome).1] at hcode
  · intro hcode
    cases hload : o.load s with
    | error f => exact (hfits.refused f hload).2.2
    | ok l =>
      by_cases hsome : ∃ site, l.workflow.Dangles site
      · exact (hfits.failed l hload hsome).2.1
      · simp [(hfits.passed l hload hsome).1] at hcode
  · intro format c' out' hc' hout'
    rw [outcome_of_isDryRun hc' s] at hout'
    obtain ⟨hcode, hstderr⟩ := dryRun_congr hout hout'
    exact ⟨hcode, congrArg printed hstderr⟩

/-- A file with a hat that waits for an event that is not declared. -/
def unheardFile : Surroundings :=
  .ofLists [] [("w.toml", .text "hats.a.triggers = ['go']")]

theorem unheardFile_outcome :
    ∃ out out', (Invocation.run true ⟨some "w.toml", some "opus", none, .json⟩).outcome unheardFile = .ok out ∧
      out.emitted.code = 1 ∧ out.emitted.stderr ≠ "" ∧ out.emitted.stdout ≠ "" ∧
      (Invocation.check ⟨some "w.toml", some "opus", none, .text⟩).outcome unheardFile = .ok out' ∧
      out'.emitted.code = 1 ∧ out'.emitted.stdout = "" := by
  let o : CheckOptions := ⟨some "w.toml", some "opus", none, .json⟩
  have hloads : (o.load unheardFile).toOption.any (·.workflow.report.hasErrors) = true := by decide +kernel
  obtain ⟨l, hl, herrors⟩ := (Option.any_eq_true _ _).1 hloads
  rw [toOption_eq_some_iff] at hl
  have hsome := (hasErrors_report _).1 herrors
  have hnarrow (format : OutputFormat) : ¬ CheckOptions.TooWide unheardFile { o with format } := by
    rintro ⟨-, l', hl', hnone, -⟩
    have hsame : l' = l := Except.ok.inj (hl'.symm.trans hl)
    exact hnone (hsame ▸ hsome)
  rcases dryRun_outcome (.run (o := o)) unheardFile with ⟨hwide, -⟩ | ⟨-, out, hout, hfits, -, -, hformat⟩
  · exact absurd hwide (hnarrow .json)
  rcases dryRun_outcome (.check (o := { o with format := .text })) unheardFile with
    ⟨hwide, -⟩ | ⟨-, out', hout', hfits', -⟩
  · exact absurd hwide (hnarrow .text)
  obtain ⟨hcode, hstderr, hstdout, -⟩ := hfits.failed l hl hsome
  obtain ⟨-, -, hstdout', -⟩ := hfits'.failed l hl hsome
  exact ⟨out, out', hout, hcode, hstderr, by simp [hstdout, o], hout',
    (hformat .text _ out' .check hout').1.trans hcode, by simp [hstdout']⟩

end Command

end Preflight
