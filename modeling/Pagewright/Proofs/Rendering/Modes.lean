import Pagewright.Proofs.Outcome
import Pagewright.Rendering.Basic

/-!
# Previews and final documents

A preview and a final document go through the same evaluation and the same layout. What a preview shows is
what a final document is made of (`Template.render_of_preview`), unless a required path has no value: then
the final document is refused (`Template.render_of_missing`). A file is made of the same markup by one call
of the rasterizer (`Template.renderFile_of_render`), and by none if the document is refused
(`Template.renderFile_of_error`).

What is written to the log about an evaluation, a layout or the work of a rasterizer never stops a rendering
(`Rendering.outcome_sayReport`).
-/

namespace Pagewright.Rendering

/-! ## Reports do not fail -/

@[simp] theorem outcome_say (level : Level) (text : String) : (say level text).outcome = .ok () := rfl

theorem outcome_sayEvaluation (label : String) (e : Contract.Evaluation) :
    (sayEvaluation label e).outcome = .ok () := by
  unfold sayEvaluation
  simp only [Logged.outcome_bind, Logged.outcome_say, Outcome.ok_bind]
  rw [Logged.outcome_forIn fun _ _ => rfl, Outcome.ok_bind]
  split <;> rfl

theorem outcome_sayLayout (label : String) (d : DocumentLayout) : (sayLayout label d).outcome = .ok () := by
  unfold sayLayout
  simp only [Logged.outcome_bind, outcome_say, Outcome.ok_bind]
  rw [Logged.outcome_forIn fun _ _ => rfl]
  rfl

theorem outcome_sayStart (label mode : String) (output : Option String) :
    (sayStart label mode output).outcome = .ok () := by
  cases output <;> rfl

theorem outcome_sayOutput (title text : String) : (sayOutput title text).outcome = .ok () := by
  unfold sayOutput
  split <;> rfl

theorem outcome_sayReport (label : String) (report : RasterReport) (pages : ℕ) (verbose : Bool) :
    (sayReport label report pages verbose).outcome = .ok () := by
  have houtput : (if (verbose || !report.success) = true then do
      sayOutput "STDOUT" report.stdout
      sayOutput "STDERR" report.stderr else pure () : Logged Unit).outcome = .ok () := by
    split
    · rw [Logged.outcome_bind, outcome_sayOutput, Outcome.ok_bind, outcome_sayOutput]
    · rfl
  unfold sayReport
  dsimp only
  split
  · rw [Logged.outcome_bind, outcome_say, Outcome.ok_bind]
    cases report.path <;> cases disagrees pages report <;>
      simp only [Logged.outcome_bind, outcome_say, Outcome.ok_bind, houtput]
  · rw [Logged.outcome_bind, outcome_say, Outcome.ok_bind, Logged.outcome_bind,
      Logged.outcome_forIn fun _ _ => rfl, Outcome.ok_bind, houtput]

end Pagewright.Rendering

namespace Pagewright.Template

/-! ## What a rendering takes -/

variable {t : Template} {payload : Value} {r : Rendering} {e : Contract.Evaluation}

theorem outcome_evaluateLogged (t : Template) (payload : Value) :
    (t.evaluateLogged payload).outcome = t.evaluate payload := by
  unfold evaluateLogged
  simp only [Logged.outcome_bind, Logged.outcome_lift, Logged.outcome_pure,
    Rendering.outcome_sayEvaluation, Outcome.ok_bind]
  exact bind_pure _

theorem evaluation_of_layOut {evaluate : Bool} {pages : Option (List Int)}
    (h : (t.layOut e evaluate pages).outcome = .ok r) : r.evaluation = e := by
  unfold layOut at h
  simp only [Logged.outcome_bind, Outcome.bind_eq_ok, Logged.outcome_pure, Except.ok.injEq] at h
  obtain ⟨layout, -, -, -, missing, -, rfl⟩ := h
  rfl

theorem layout_of_layOut {evaluate : Bool} {pages : Option (List Int)}
    (h : (t.layOut e evaluate pages).outcome = .ok r) :
    (Layout.assemble t e.data evaluate pages).outcome = .ok r.layout := by
  unfold layOut at h
  simp only [Logged.outcome_bind, Outcome.bind_eq_ok, Logged.outcome_pure, Except.ok.injEq] at h
  obtain ⟨layout, hlayout, -, -, missing, -, rfl⟩ := h
  exact hlayout

theorem preview_eq_ok {evaluate : Bool} {pages : Option (List Int)} :
    (t.preview payload evaluate pages).outcome = .ok r ↔
      t.evaluate payload = .ok r.evaluation ∧ (t.layOut r.evaluation evaluate pages).outcome = .ok r := by
  unfold preview
  rw [Logged.outcome_bind, outcome_evaluateLogged, Outcome.bind_eq_ok]
  constructor
  · rintro ⟨e, heval, hlayout⟩
    obtain rfl := evaluation_of_layOut hlayout
    exact ⟨heval, hlayout⟩
  · exact fun ⟨heval, hlayout⟩ => ⟨r.evaluation, heval, hlayout⟩

/-- The final document is what the preview shows, if no required path is without a value. -/
theorem render_of_preview (h : (t.preview payload true none).outcome = .ok r)
    (hmissing : r.evaluation.missingRequired = []) : (t.render payload).outcome = .ok r := by
  obtain ⟨heval, hlayout⟩ := preview_eq_ok.mp h
  unfold render
  rw [Logged.outcome_bind, Rendering.outcome_sayStart, Outcome.ok_bind, Logged.outcome_bind,
    outcome_evaluateLogged, heval, Outcome.ok_bind, hmissing, List.isEmpty_nil, if_pos rfl, hlayout]

theorem render_of_missing (h : t.evaluate payload = .ok e) (hmissing : e.missingRequired ≠ []) :
    (t.render payload).outcome = .error (.missingRequired e.missingRequired) := by
  unfold render
  rw [Logged.outcome_bind, Rendering.outcome_sayStart, Outcome.ok_bind, Logged.outcome_bind,
    outcome_evaluateLogged, h, Outcome.ok_bind, if_neg fun hempty => hmissing (List.isEmpty_iff.mp hempty)]
  rfl

/-- No file is made of a document that is refused, and the rasterizer does not run. -/
theorem renderFile_of_error {failure : Failure} (h : (t.render payload).outcome = .error failure)
    (output : String) (rasterize : Rasterizer) (verbose : Bool) :
    t.renderFile payload output rasterize verbose = ⟨(t.render payload).messages, .error failure⟩ := by
  simp only [renderFile, bind, h]

/-- A file is made of the markup of the final document by one run of the rasterizer. -/
theorem renderFile_of_render (h : (t.render payload).outcome = .ok r) (output : String) (verbose : Bool) :
    ∃ (before : List Message) (after : RasterReport → List Message), ∀ rasterize : Rasterizer,
      (∀ report, (rasterize r.markup output).outcome = .ok report →
        t.renderFile payload output rasterize verbose =
          ⟨before ++ (rasterize r.markup output).messages ++ after report, .ok (r, report)⟩) ∧
      (∀ failure, (rasterize r.markup output).outcome = .error failure →
        t.renderFile payload output rasterize verbose =
          ⟨before ++ (rasterize r.markup output).messages, .error failure⟩) := by
  refine ⟨(t.render payload).messages ++ (Rendering.sayStart t.label "pdf" (some output)).messages,
    fun report => (Rendering.sayReport t.label report r.layout.pageCount verbose).messages,
    fun rasterize => ⟨fun report hreport => ?_, fun failure hfailure => ?_⟩⟩
  · simp [renderFile, bind, h, Rendering.outcome_sayStart, hreport, Rendering.outcome_sayReport]
  · simp [renderFile, bind, h, Rendering.outcome_sayStart, hfailure]

end Pagewright.Template
