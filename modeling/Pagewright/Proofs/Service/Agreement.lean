import Pagewright.Proofs.Markup.Frame
import Pagewright.Proofs.Rendering.Preview
import Pagewright.Proofs.Store.Run
import Pagewright.Service.Answer

/-!
# The requests that render agree

The same body can be sent to be previewed, to be made into final markup and to be made into a file. The
three read one template from it and refuse a malformed one alike, and what the preview reports decides what
the other two answer (`renderings_agree`).
-/

namespace Pagewright.Service

open Procedure

variable {α : Type} {supply : Supply} {w : World} {rasterize : Rasterizer} {output body route : String}
  {entries template data : Entries} {t : Template} {r : Rendering}

/-! ## Runs of the parts -/

/-- A body sent to a path. -/
def posted (path body : String) : Request where
  method := "POST"
  path := path
  body := body

theorem ofRequest_posted {path : String} {endpoint : Endpoint}
    (h : Endpoint.ofPath path.toList = [("POST", endpoint)]) (body : String) :
    Endpoint.ofRequest (posted path body) = .ok endpoint := by
  simp [Endpoint.ofRequest, posted, h]

/-- A request is answered with what a procedure leads to; where that fails, the service is broken. -/
structure AnsweredBy (rasterize : Rasterizer) (output : String) (request : Request) (t : Procedure Response) :
    Prop where
  run_eq : ∀ supply w, run supply w (answer rasterize output request) =
    ((run supply w t).1, ⟨(run supply w t).2.messages, .ok ((run supply w t).2.outcome.toOption.getD .broken)⟩)

/-- A request that leads somewhere is answered by the endpoint there. -/
theorem answeredBy_serve {request : Request} {endpoint : Endpoint}
    (h : Endpoint.ofRequest request = .ok endpoint) :
    AnsweredBy rasterize output request (serve rasterize output request endpoint) where
  run_eq supply w := by
    unfold answer
    rw [h]
    dsimp only
    rw [run_bind, run_attempt]
    cases hserved : (run supply w (serve rasterize output request endpoint)).2.outcome with
    | ok response => simp [Logged.attempt, hserved, Except.toOption, pure]
    | error e => simp [Logged.attempt, hserved, Except.toOption, pure]

theorem AnsweredBy.goes {request : Request} {t : Procedure Response} {w' : World} {response : Response}
    (h : AnsweredBy rasterize output request t) (ht : Goes supply w t w' (.ok response)) :
    Goes supply w (answer rasterize output request) w' (.ok response) where
  world := by rw [h.run_eq, ht.world]
  outcome := by
    rw [h.run_eq, ht.outcome]
    rfl

theorem run_withRendering {x : Logged α} {a : α} (h : x.outcome = .ok a) (supply : Supply) (w : World)
    (route : String) (next : α → Procedure Response) :
    run supply w (withRendering route x next) =
      ((run supply w (next a)).1,
        ⟨x.messages ++ (run supply w (next a)).2.messages, (run supply w (next a)).2.outcome⟩) := by
  unfold withRendering
  rw [run_bind, run_attempt, run_ofLogged]
  simp only [Logged.attempt, h]

theorem goes_withRendering {x : Logged α} {a : α} {next : α → Procedure Response} {w' : World}
    {o : Outcome Response} (h : x.outcome = .ok a) (hnext : Goes supply w (next a) w' o) (route : String) :
    Goes supply w (withRendering route x next) w' o where
  world := by
    rw [run_withRendering h]
    exact hnext.world
  outcome := by
    rw [run_withRendering h]
    exact hnext.outcome

/-- The message of a rejection. -/
def rejection (route : String) (status : ℕ) (reason : String) : Message :=
  ⟨some (if status ≥ 500 then .error else .warning),
    "[api] " ++ route ++ " -> " ++ toString status ++ ": " ++ reason⟩

theorem run_withRendering_missing {x : Logged α} {paths : List String}
    (h : x.outcome = .error (.missingRequired paths)) (supply : Supply) (w : World) (route : String)
    (next : α → Procedure Response) :
    run supply w (withRendering route x next) =
      (w, ⟨x.messages ++ [rejection route 422 ("missing required fields " ++ Text.quotedList paths)],
        .ok (.missing paths)⟩) := by
  unfold withRendering
  rw [run_bind, run_attempt, run_ofLogged]
  simp only [Logged.attempt, h]
  rfl

/-! ## Orders -/

/-- A body orders a template to be rendered with some data, and says nothing of modes and pages. It is read
whole, so no half of a surrogate pair is in it. -/
structure IsOrder (body : String) (template data : Entries) : Prop where
  exists_entries : ∃ entries : Entries, Json.read (withoutMark body) = .ok (.object entries) ∧
    Entries.find? entries "template" = some (.object template) ∧
    Entries.find? entries "data" = some (.object data) ∧
    Entries.find? entries "evaluate" = none ∧ Entries.find? entries "pages" = none

theorem isEmpty_of_read {v : Value} (h : Json.read (withoutMark body) = .ok v) : body.isEmpty = false := by
  rw [Bool.eq_false_iff, ne_eq, String.isEmpty_iff]
  rintro rfl
  have hread : (Json.read (withoutMark "")).toOption.isSome = false := by decide +kernel
  simp [h, Except.toOption] at hread

/-- A preview or final markup is made of what the body says, with all pages and all conditions. -/
theorem withBody_order (h : IsOrder body template data) (path : String)
    (next : RenderOrder → Procedure Response) :
    withBody (posted path body) RenderOrder.ofEntries next = next ⟨template, data, true, none⟩ := by
  obtain ⟨entries, hread, htemplate, hdata, hevaluate, hpages⟩ := h.exists_entries
  have horder : RenderOrder.ofEntries entries = .ok ⟨template, data, true, none⟩ := by
    simp [RenderOrder.ofEntries, Body.object, Body.truth, Body.optionalWholes, Checked.and, htemplate, hdata,
      hevaluate, hpages, Except.map]
  unfold withBody
  rw [if_neg (by simp [posted, isEmpty_of_read hread]), posted, hread]
  simp only [horder]

theorem orElse_object (inner : Entries) : (Value.object inner).orElse (.object []) = .object inner := by
  cases inner <;> rfl

/-- The answer to the report of a rasterizer. -/
def reported (report : RasterReport) : Response :=
  match report.success, report.path with
  | true, some path => .file path
  | true, none => .broken
  | false, _ => .entry 500 "error" (.text "PDF render failed")

/-- A failure that is none of those that a rendering is refused with. -/
def IsBreakdown (failure : Failure) : Prop :=
  (∀ cycle, failure ≠ .cyclicPartials cycle) ∧ ∀ paths, failure ≠ .missingRequired paths

theorem run_withRendering_breakdown {x : Logged α} {failure : Failure} (h : x.outcome = .error failure)
    (hfailure : IsBreakdown failure) (supply : Supply) (w : World) (route : String)
    (next : α → Procedure Response) :
    run supply w (withRendering route x next) = (w, ⟨x.messages, .error failure⟩) := by
  unfold withRendering
  rw [run_bind, run_attempt, run_ofLogged]
  simp only [Logged.attempt, h]
  cases failure with
  | cyclicPartials cycle => exact absurd rfl (hfailure.1 cycle)
  | missingRequired paths => exact absurd rfl (hfailure.2 paths)
  | _ => simp [Procedure.fail]

/-- A file is made of what the body says, and the report of the rasterizer decides about the answer. -/
theorem renderFile_order (h : IsOrder body template data) (output : String) :
    ∃ deliver : Rendering × RasterReport → Procedure Response,
      (∀ rasterize, renderFile rasterize output body = withParsed "/api/render-pdf" (.object template)
        fun t => withRendering "/api/render-pdf" (t.renderFile (.object data) output rasterize false) deliver) ∧
      ∀ supply w r report, ∃ messages outcome, run supply w (deliver (r, report)) = (w, ⟨messages, outcome⟩) ∧
        outcome.toOption.getD .broken = reported report := by
  obtain ⟨entries, hread, htemplate, hdata, -, -⟩ := h.exists_entries
  have hget (key : String) (inner : Entries) (hfind : Entries.find? entries key = some (.object inner)) :
      (Entries.get entries key).orElse (.object []) = .object inner := by
    unfold Entries.find? at hfind
    rw [Entries.get, hfind, Option.getD_some, orElse_object]
  refine ⟨?deliver, fun rasterize => ?_, fun supply w r report => ?_⟩
  rotate_left
  · unfold renderFile
    rw [hread]
    dsimp only
    rw [hget _ _ htemplate, hget _ _ hdata]
  · unfold reported
    dsimp only
    cases report.success with
    | false => exact ⟨_, _, rfl, rfl⟩
    | true =>
      cases report.path with
      | none => exact ⟨_, _, rfl, rfl⟩
      | some path => exact ⟨_, _, rfl, rfl⟩

/-! ## Answers to orders -/

theorem answeredBy_evaluate (h : IsOrder body template data) :
    AnsweredBy rasterize output (posted "/api/evaluate" body) (evaluate ⟨template, data, true, none⟩) := by
  have hpath : Endpoint.ofPath "/api/evaluate".toList = [("POST", .evaluate)] := by decide +kernel
  have hserved : serve rasterize output (posted "/api/evaluate" body) .evaluate =
      evaluate ⟨template, data, true, none⟩ := withBody_order h _ _
  exact hserved ▸ answeredBy_serve (ofRequest_posted hpath body)

theorem answeredBy_render (h : IsOrder body template data) :
    AnsweredBy rasterize output (posted "/api/render" body) (render ⟨template, data, true, none⟩) := by
  have hpath : Endpoint.ofPath "/api/render".toList = [("POST", .render)] := by decide +kernel
  have hserved : serve rasterize output (posted "/api/render" body) .render =
      render ⟨template, data, true, none⟩ := withBody_order h _ _
  exact hserved ▸ answeredBy_serve (ofRequest_posted hpath body)

theorem answeredBy_renderFile (body : String) :
    AnsweredBy rasterize output (posted "/api/render-pdf" body) (renderFile rasterize output body) := by
  have hpath : Endpoint.ofPath "/api/render-pdf".toList = [("POST", .renderFile)] := by decide +kernel
  exact answeredBy_serve (ofRequest_posted hpath body)

theorem withParsed_of_ok {document : Value} (h : Template.ofValue document = .ok t) (route : String)
    (next : Template → Procedure Response) : withParsed route document next = next t := by
  unfold withParsed
  rw [h]

theorem run_withParsed_malformed {document : Value} {problem : String} {location : Option String}
    (h : Template.ofValue document = .error (.malformedTemplate problem location)) (route : String)
    (next : Template → Procedure Response) :
    run supply w (withParsed route document next) =
      (w, ⟨[rejection route 400 (Failure.malformedTemplate problem location).message],
        .ok (.detail 400 ("Invalid template: " ++ (Failure.malformedTemplate problem location).message))⟩) := by
  unfold withParsed
  rw [h]
  rfl

theorem status_withRendering_error {x : Logged α} {e : Failure} (h : x.outcome = .error e) (route : String)
    (next : α → Procedure Response) :
    ((run supply w (withRendering route x next)).2.outcome.toOption.getD .broken).status ≠ 200 := by
  unfold withRendering
  rw [run_bind, run_attempt, run_ofLogged]
  simp only [Logged.attempt, h]
  cases e <;> exact Nat.ne_of_beq_eq_false rfl

/-- A preview that is answered with success shows a rendering of the template. -/
theorem exists_of_evaluate
    (h : ((run supply w (evaluate ⟨template, data, true, none⟩)).2.outcome.toOption.getD .broken).status =
      200) :
    ∃ t r, Template.ofValue (.object template) = .ok t ∧
      (t.preview (.object data) true none).outcome = .ok r ∧
      (run supply w (evaluate ⟨template, data, true, none⟩)).2.outcome =
        .ok (.json 200 (Response.sendable (r.toValue false))) := by
  unfold evaluate withParsed at h ⊢
  dsimp only at h ⊢
  cases hparse : Template.ofValue (.object template) with
  | error e =>
    rw [hparse] at h
    cases e <;> exact absurd h (Nat.ne_of_beq_eq_false rfl)
  | ok t =>
    rw [hparse] at h
    dsimp only at h ⊢
    cases hpreview : (t.preview (.object data) true none).outcome with
    | ok r =>
      refine ⟨t, r, rfl, hpreview, ?_⟩
      rw [run_withRendering hpreview]
      rfl
    | error e => exact absurd h (status_withRendering_error hpreview _ _)

theorem goes_evaluate (horder : IsOrder body template data)
    (hparse : Template.ofValue (.object template) = .ok t)
    (hpreview : (t.preview (.object data) true none).outcome = .ok r) (rasterize : Rasterizer) (supply : Supply)
    (w : World) (output : String) :
    Goes supply w (answer rasterize output (posted "/api/evaluate" body)) w
      (.ok (.json 200 (Response.sendable (r.toValue false)))) := by
  refine (answeredBy_evaluate horder).goes ?_
  rw [evaluate, withParsed_of_ok hparse]
  exact goes_withRendering hpreview (goes_pure _) _

/-! ## Agreement -/

theorem sendableItems_text (texts : List String) :
    Response.sendableItems (texts.map Value.text) = texts.map Value.text := by
  induction texts with
  | nil => rfl
  | cons s texts ih => exact congrArg (Value.text s :: ·) ih

/-- What a preview is answered with shows the paths without a value and the layout. -/
theorem sendable_toValue (r : Rendering) :
    ∃ shown : Entries, Response.sendable (r.toValue false) = .object shown ∧
      Entries.get shown "missingRequired" = .list (r.evaluation.missingRequired.map .text) ∧
      Entries.get shown "layout" = Response.sendable r.layout.toValue := by
  refine ⟨_, rfl, ?_, rfl⟩
  exact congrArg Value.list (sendableItems_text _)

/-- A final document is refused as the preview foretold, without a run of the rasterizer. -/
theorem answers_of_missing (horder : IsOrder body template data)
    (hparse : Template.ofValue (.object template) = .ok t)
    (hpreview : (t.preview (.object data) true none).outcome = .ok r)
    (hmissing : r.evaluation.missingRequired ≠ []) (supply : Supply) (w : World) (output : String) :
    (∀ rasterize, Goes supply w (answer rasterize output (posted "/api/render" body)) w
      (.ok (.missing r.evaluation.missingRequired))) ∧
    ∃ messages, ∀ rasterize, run supply w (answer rasterize output (posted "/api/render-pdf" body)) =
      (w, ⟨messages, .ok (.missing r.evaluation.missingRequired)⟩) := by
  obtain ⟨heval, -⟩ := Template.preview_eq_ok.mp hpreview
  have hrefused := Template.render_of_missing heval hmissing
  constructor
  · intro rasterize
    refine (answeredBy_render horder).goes ?_
    rw [render, withParsed_of_ok hparse]
    exact goes_of_run (run_withRendering_missing hrefused supply w _ _)
  · obtain ⟨deliver, hfile, -⟩ := renderFile_order horder output
    refine ⟨(t.render (.object data)).messages ++ [rejection "/api/render-pdf" 422
      ("missing required fields " ++ Text.quotedList r.evaluation.missingRequired)], fun rasterize => ?_⟩
    have hrefusedFile := congrArg Logged.outcome (Template.renderFile_of_error hrefused output rasterize false)
    rw [(answeredBy_renderFile body).run_eq, hfile, withParsed_of_ok hparse,
      run_withRendering_missing hrefusedFile, Template.renderFile_of_error hrefused]
    rfl

/-- A final document is answered with what the preview showed, and a file is made of the same markup by one
run of the rasterizer, whose report or breakdown decides about the answer. -/
theorem answers_of_complete (horder : IsOrder body template data)
    (hparse : Template.ofValue (.object template) = .ok t)
    (hpreview : (t.preview (.object data) true none).outcome = .ok r)
    (hmissing : r.evaluation.missingRequired = []) (supply : Supply) (w : World) (output : String) :
    (∀ rasterize, Goes supply w (answer rasterize output (posted "/api/render" body)) w
      (.ok (.markup r.markup))) ∧
    ∃ (before : List Message) (after : RasterReport → List Message), ∀ rasterize : Rasterizer,
      (∀ report, (rasterize r.markup output).outcome = .ok report →
        run supply w (answer rasterize output (posted "/api/render-pdf" body)) =
          (w, ⟨before ++ (rasterize r.markup output).messages ++ after report, .ok (reported report)⟩)) ∧
      ∀ failure, (rasterize r.markup output).outcome = .error failure → IsBreakdown failure →
        run supply w (answer rasterize output (posted "/api/render-pdf" body)) =
          (w, ⟨before ++ (rasterize r.markup output).messages, .ok .broken⟩) := by
  have hrender := Template.render_of_preview hpreview hmissing
  constructor
  · intro rasterize
    refine (answeredBy_render horder).goes ?_
    rw [render, withParsed_of_ok hparse]
    exact goes_withRendering hrender (goes_pure _) _
  · obtain ⟨deliver, hfile, hdeliver⟩ := renderFile_order horder output
    obtain ⟨before, after, hraster⟩ := Template.renderFile_of_render hrender output false
    choose messages outcome hdelivered hreported using hdeliver supply w r
    refine ⟨before, fun report => after report ++ messages report, fun rasterize =>
      ⟨fun report hreport => ?_, fun failure hfailure hbreakdown => ?_⟩⟩
    · have hfinal := (hraster rasterize).1 report hreport
      rw [(answeredBy_renderFile body).run_eq, hfile, withParsed_of_ok hparse,
        run_withRendering (congrArg Logged.outcome hfinal), hdelivered, hfinal]
      dsimp only
      rw [hreported, List.append_assoc]
    · have hfinal := (hraster rasterize).2 failure hfailure
      rw [(answeredBy_renderFile body).run_eq, hfile, withParsed_of_ok hparse,
        run_withRendering_breakdown (congrArg Logged.outcome hfinal) hbreakdown, hfinal]
      rfl

/-- A report of success with a file is answered with the file, and any other report with a status that says
that the service failed. -/
theorem status_reported (report : RasterReport) :
    (reported report).status = if report.success && report.path.isSome then 200 else 500 := by
  unfold reported
  cases report.success <;> cases report.path <;> rfl

/-- A body that orders a template and data is answered alike by the three requests that render. A malformed
template is rejected by all of them with the same detail. Otherwise, where the preview is answered with
success, it shows the required paths without a value and the layout of a rendering. If there are such paths,
final markup and a file are refused with them, and the rasterizer has no part in that. If there are none,
final markup is the markup of this very layout, and a file is made of it: what comes about is what one run
of the rasterizer on this markup reports, with other messages before and after its own. A rasterizer that
breaks down breaks the service. A body with half of a surrogate pair is no order: what it asks for can be
previewed where its markup cannot be encoded (`withBody`). -/
theorem renderings_agree (horder : IsOrder body template data) (supply : Supply) (w : World)
    (output : String) :
    (∀ problem location,
      Template.ofValue (.object template) = .error (.malformedTemplate problem location) →
        ∃ text, ∀ path ∈ ["/api/evaluate", "/api/render", "/api/render-pdf"], ∀ rasterize,
          Goes supply w (answer rasterize output (posted path body)) w (.ok (.detail 400 text))) ∧
    (∀ rasterize response, Goes supply w (answer rasterize output (posted "/api/evaluate" body)) w
        (.ok response) → response.status = 200 →
      ∃ (shown : Entries) (missing : List String) (layout : DocumentLayout),
        response = .json 200 (.object shown) ∧
        Entries.get shown "missingRequired" = .list (missing.map .text) ∧
        Entries.get shown "layout" = Response.sendable layout.toValue ∧
        (missing ≠ [] →
          (∀ rasterize, Goes supply w (answer rasterize output (posted "/api/render" body)) w
            (.ok (.missing missing))) ∧
          ∃ messages, ∀ rasterize, run supply w (answer rasterize output (posted "/api/render-pdf" body)) =
            (w, ⟨messages, .ok (.missing missing)⟩)) ∧
        (missing = [] →
          (∀ rasterize, Goes supply w (answer rasterize output (posted "/api/render" body)) w
            (.ok (.markup layout.markup))) ∧
          ∃ (before : List Message) (after : RasterReport → List Message), ∀ rasterize : Rasterizer,
            (∀ report, (rasterize layout.markup output).outcome = .ok report → ∃ response,
              run supply w (answer rasterize output (posted "/api/render-pdf" body)) =
                (w, ⟨before ++ (rasterize layout.markup output).messages ++ after report, .ok response⟩) ∧
              (∀ file, report.success = true → report.path = some file → response = .file file) ∧
              response.status = if report.success && report.path.isSome then 200 else 500) ∧
            ∀ failure, (rasterize layout.markup output).outcome = .error failure → IsBreakdown failure →
              run supply w (answer rasterize output (posted "/api/render-pdf" body)) =
                (w, ⟨before ++ (rasterize layout.markup output).messages, .ok .broken⟩))) := by
  constructor
  · intro problem location hmalformed
    refine ⟨"Invalid template: " ++ (Failure.malformedTemplate problem location).message,
      fun path hpath rasterize => ?_⟩
    simp only [List.mem_cons, List.not_mem_nil, or_false] at hpath
    rcases hpath with rfl | rfl | rfl
    · exact (answeredBy_evaluate horder).goes (goes_of_run (run_withParsed_malformed hmalformed _ _))
    · exact (answeredBy_render horder).goes (goes_of_run (run_withParsed_malformed hmalformed _ _))
    · obtain ⟨deliver, hfile, -⟩ := renderFile_order horder output
      refine (answeredBy_renderFile body).goes ?_
      rw [hfile]
      exact goes_of_run (run_withParsed_malformed hmalformed _ _)
  · intro rasterize response hanswer hstatus
    have hresponse := hanswer.outcome
    rw [(answeredBy_evaluate horder).run_eq] at hresponse
    rw [← Except.ok.inj hresponse] at hstatus
    obtain ⟨t, r, hparse, hpreview, hserved⟩ := exists_of_evaluate hstatus
    obtain ⟨shown, hshown, hmissing, hlayout⟩ := sendable_toValue r
    refine ⟨shown, r.evaluation.missingRequired, r.layout, ?_, hmissing, hlayout,
      fun hne => answers_of_missing horder hparse hpreview hne supply w output, fun hnone => ?_⟩
    · rw [← Except.ok.inj hresponse, hserved, ← hshown]
      rfl
    · obtain ⟨hmarkup, before, after, hfile⟩ :=
        answers_of_complete horder hparse hpreview hnone supply w output
      refine ⟨hmarkup, before, after, fun rasterize => ⟨fun report hreport =>
        ⟨reported report, (hfile rasterize).1 report hreport, fun file hsuccess hpath => ?_,
          status_reported report⟩, (hfile rasterize).2⟩⟩
      rw [reported, hsuccess, hpath]

/-! ## A greeting -/

/-- What is said of an object in a document is decided by looking it up. -/
instance {o : Option Value} {P : Entries → Prop} [∀ entries, Decidable (P entries)] :
    Decidable (∃ entries, o = some (.object entries) ∧ P entries) :=
  decidable_of_iff (∃ entries ∈ o.bind Value.object?, P entries)
    (by rcases o with - | v <;> [skip; cases v] <;> simp [Value.object?])

instance {x : Except ε Value} {P : Entries → Prop} [∀ entries, Decidable (P entries)] :
    Decidable (∃ entries, x = .ok (.object entries) ∧ P entries) :=
  decidable_of_iff (∃ entries, x.toOption = some (.object entries) ∧ P entries)
    (by cases x <;> simp [Except.toOption])

/-- A body that orders a greeting. -/
def greetingOrder : String :=
  "\x7b\"template\": \x7b\"page\": \x7b\"width\": 200, \"height\": 100\x7d, " ++
    "\"elements\": [\x7b\"id\": \"greeting\", \"type\": \"text\", \"text\": \"Dear \x7b\x7bname\x7d\x7d\"\x7d]\x7d, " ++
    "\"data\": \x7b\"name\": \"Ada\"\x7d\x7d"

/-- A text in three parts is read from its characters, which are found faster than in the text. -/
theorem exists_read_withoutMark {a b c : List Char} {P : Entries → Prop}
    (hmark : (a ++ b ++ c).head? ≠ some '\uFEFF')
    (h : ∃ entries, Json.readChars none (a ++ b ++ c) = .ok (.object entries) ∧ P entries) :
    ∃ entries, Json.read (withoutMark (String.ofList a ++ String.ofList b ++ String.ofList c)) =
      .ok (.object entries) ∧ P entries := by
  rw [← String.ofList_append, ← String.ofList_append]
  have hsame : withoutMark (String.ofList (a ++ b ++ c)) = String.ofList (a ++ b ++ c) := by
    unfold withoutMark
    rw [String.toList_ofList]
    split
    · rename_i htext
      exact absurd (htext ▸ rfl) hmark
    · rfl
  obtain ⟨entries, hread, hentries⟩ := h
  refine ⟨entries, ?_, hentries⟩
  rw [hsame, Json.read, Json.readWith, String.toList_ofList, hread]

set_option maxRecDepth 2000 in
set_option synthInstance.maxSize 256 in
/-- The greeting can be previewed. Nothing is missing, and the greeting is all that is shown. -/
theorem exists_preview_greeting : ∃ template data t r, IsOrder greetingOrder template data ∧
    Template.ofValue (.object template) = .ok t ∧ (t.preview (.object data) true none).outcome = .ok r ∧
      r.evaluation.missingRequired = [] ∧ r.layout.dataTexts = ["Dear Ada"] := by
  have horder : ∃ entries : Entries, Json.read (withoutMark greetingOrder) = .ok (.object entries) ∧
      ∃ template, Entries.find? entries "template" = some (.object template) ∧
      ∃ data, Entries.find? entries "data" = some (.object data) ∧
        (Entries.find? entries "evaluate" = none ∧ Entries.find? entries "pages" = none) ∧
        Validation.HasValidParts template ∧ Json.isDocument (.object template) = true ∧
        Json.isDocument (.object data) = true ∧
        ∃ t, Template.ofValue (.object template) = .ok t ∧
          (t.partials = [] ∧ t.contract = [] ∧ ¬t.page.bodyHeight ≤ 0) ∧
          t.IsReadable ∧ t.HasRoom ∧ t.FormatsCells (.object data) ∧
          (∀ e ∈ t.elements, ∀ c ∈ t.conditionsOf e, Condition.IsSpelled c) ∧
          ∀ e, t.evaluate (.object data) = .ok e → e.missingRequired = [] ∧ ∀ d,
            (do
              let plan ← (Layout.plan t e.data true (← List.flatten <$> t.elements.mapM t.expandElement)).outcome
              let assembled ← (Layout.wanted plan.pageCount none).mapM fun page =>
                (Layout.assemblePage t e.data true plan page).outcome
              return (⟨t.page, t.fonts, plan.pageCount, assembled⟩ : DocumentLayout)) = .ok d →
            d.dataTexts = ["Dear Ada"] := by
    refine exists_read_withoutMark (by decide) ?_
    decide +kernel
  obtain ⟨entries, hread, template, htemplate, data, hdata, ⟨hevaluate, hpages⟩, hparts, hdocument, hpayload, t,
    ht, ⟨hpartials, hcontract, hbody⟩, hreadable, hroom, hformats, hspelled, hcomplete⟩ := horder
  have hvalid : Validation.issues (.object template) = .ok [] :=
    Validation.issues_of_flat hparts ⟨t, ht, by simp [hpartials], hbody⟩
  obtain ⟨t', ht', hchecked⟩ := Validation.exists_checked hvalid
  obtain rfl := Except.ok.inj (ht.symm.trans ht')
  have hundisturbed : t.IsUndisturbed data :=
    Contract.Plain.undisturbed_of_pairwise _ _ (hcontract ▸ List.Pairwise.nil)
  obtain ⟨r, hr⟩ := Template.returns_preview hchecked ht hdocument hpayload hreadable hroom hundisturbed
    hformats hspelled
  obtain ⟨heval, hlaid⟩ := Template.preview_eq_ok.mp hr
  obtain ⟨hmissing, hshown⟩ := hcomplete _ heval
  have hlayout := Template.layout_of_layOut hlaid
  have hcycle : t.findCycle = .ok none := Template.findCycle_of_flat (by simp [hpartials])
  rw [Layout.outcome_assemble, Layout.planOf, Template.expand_eq_of_findCycle hcycle] at hlayout
  exact ⟨template, data, t, r, ⟨entries, hread, htemplate, hdata, hevaluate, hpages⟩, ht, hr, hmissing,
    hshown _ (by simpa using hlayout)⟩

/-- Ids and times that say nothing. A rendering takes none of them. -/
def blank : Supply := ⟨fun _ => "", fun _ => ""⟩

/-- A rasterizer that writes every file. -/
def obliging : Rasterizer := fun _ output => pure { success := true, path := some output }

/-- The greeting is previewed, and its final markup, in which it is found, and its file are made of the layout
that is shown. -/
theorem renderings_agree_greeting :
    ∃ (shown : Entries) (layout : DocumentLayout),
      Goes blank {} (answer obliging "out.pdf" (posted "/api/evaluate" greetingOrder)) {}
        (.ok (.json 200 (.object shown))) ∧
      Entries.get shown "layout" = Response.sendable layout.toValue ∧
      Goes blank {} (answer obliging "out.pdf" (posted "/api/render" greetingOrder)) {}
        (.ok (.markup layout.markup)) ∧
      "Dear Ada".toList <:+: layout.markup.toList ∧
      Goes blank {} (answer obliging "out.pdf" (posted "/api/render-pdf" greetingOrder)) {}
        (.ok (.file "out.pdf")) := by
  obtain ⟨template, data, t, r, horder, hparse, hpreview, hcomplete, htexts⟩ := exists_preview_greeting
  have hgoes := goes_evaluate horder hparse hpreview obliging blank {} "out.pdf"
  obtain ⟨-, hagree⟩ := renderings_agree horder blank {} "out.pdf"
  obtain ⟨shown, missing, layout, hresponse, hmissing, hlayout, -, hfinal⟩ := hagree obliging _ hgoes rfl
  have hnone : missing = [] := by
    obtain ⟨shown', hshown', hmissing', -⟩ := sendable_toValue r
    rw [hshown'] at hresponse
    obtain rfl := Value.object.inj (Response.json.inj hresponse).2
    rw [hmissing', hcomplete] at hmissing
    exact (List.map_eq_nil_iff.mp (Value.list.inj hmissing).symm)
  obtain ⟨hmarkup, before, after, hfile⟩ := hfinal hnone
  obtain ⟨response, hrun, hserved, -⟩ := (hfile obliging).1 _ rfl
  rw [hserved "out.pdf" rfl rfl] at hrun
  -- Both are what the one answer holds, so the layout shown has the markup of the rendering previewed.
  have hsame : layout.markup = r.layout.markup := by
    have hrendered := ((answers_of_complete horder hparse hpreview hcomplete blank {} "out.pdf").1 obliging).outcome
    exact Response.markup.inj (Except.ok.inj ((hmarkup obliging).outcome.symm.trans hrendered))
  have hgreeting : "Dear Ada".toList <:+: layout.markup.toList := by
    have hescaped := Markup.escape_infix_markup (d := r.layout) (htexts ▸ List.mem_singleton_self "Dear Ada")
    rwa [show Markup.escape "Dear Ada".toList = "Dear Ada".toList by decide, ← hsame] at hescaped
  exact ⟨shown, layout, hresponse ▸ hgoes, hlayout, hmarkup obliging, hgreeting,
    goes_of_run hrun⟩

end Pagewright.Service
