import Pagewright.Proofs.Service.Agreement
import Pagewright.Proofs.Store.Rejection

/-!
# What is rejected changes nothing

A store is reached by operations and by requests to the service (`runActs`). On every such store a call that
is rejected, and a request that is not answered with success, leaves everything as it is
(`rejected_changes_nothing`).

Only three endpoints change a store, each by one call. All others look, so that every request is settled by
what is known of calls (`settled_serve`).
-/

namespace Pagewright.Service

open Procedure Store

variable {α : Type} {supply : Supply} {w : World}

/-! ## Requests that look -/

theorem looks_reject (route : String) (status : ℕ) (reason text : String) :
    (reject route status reason text).Looks := trivial

theorem looks_refusal (e : Failure) : (refusal e).Looks := by
  unfold refusal
  split <;> trivial

theorem looks_withTemplate (id : String) {next : StoredTemplate → Procedure Response}
    (h : ∀ t, (next t).Looks) : (withTemplate id next).Looks :=
  (looks_get id).bind fun found => by
    cases found with
    | some t => exact h t
    | none => exact looks_refusal _

theorem looks_withParsed (route : String) (document : Value) {next : Template → Procedure Response}
    (h : ∀ t, (next t).Looks) : (withParsed route document next).Looks := by
  unfold withParsed
  split
  · exact h _
  · exact looks_reject _ _ _ _
  · trivial

theorem looks_withRendering (route : String) (x : Logged α) {next : α → Procedure Response}
    (h : ∀ a, (next a).Looks) : (withRendering route x next).Looks :=
  (looks_ofLogged x).attempt.bind fun outcome => by
    split
    · exact h _
    · exact looks_reject _ _ _ _
    · trivial
    · trivial

theorem looks_evaluate (o : RenderOrder) : (evaluate o).Looks :=
  looks_withParsed _ _ fun _ => looks_withRendering _ _ fun _ => trivial

theorem looks_render (o : RenderOrder) : (render o).Looks :=
  looks_withParsed _ _ fun _ => looks_withRendering _ _ fun _ => trivial

theorem looks_renderFile (rasterize : Rasterizer) (output body : String) :
    (renderFile rasterize output body).Looks := by
  unfold renderFile
  split
  · dsimp only
    split
    · trivial
    · exact looks_reject _ _ _ _
  · refine looks_withParsed _ _ fun t => looks_withRendering _ _ fun rendered => ?_
    dsimp only
    split <;> trivial
  · trivial

/-! ## Requests are settled -/

/-- A request ends with a store that can be read back, and changes it only if it is answered with success. -/
structure Settled (supply : Supply) (w : World) (t : Procedure Response) : Prop where
  legible : Legible (run supply w t).1.disk
  unchanged : (run supply w t).1 = w ∨
    ∃ response, (run supply w t).2.outcome = .ok response ∧ response.status < 400

theorem settled_of_looks {t : Procedure Response} (hw : Legible w.disk) (h : t.Looks) :
    Settled supply w t where
  legible := (h.reads supply w).symm ▸ hw
  unchanged := .inl (h.reads supply w)

theorem Settled.of_goes {t : Procedure Response} {w' : World} {response : Response}
    (h : Goes supply w t w' (.ok response)) (hw' : Legible w'.disk) (hstatus : response.status < 400) :
    Settled supply w t where
  legible := h.world.symm ▸ hw'
  unchanged := .inr ⟨response, h.outcome, hstatus⟩

theorem goes_attempt {t : Procedure α} {w' : World} {o : Outcome α} (h : Goes supply w t w' o) :
    Goes supply w t.attempt w' (.ok o) := by
  constructor
  · rw [run_attempt]
    exact h.world
  · rw [run_attempt]
    exact congrArg Except.ok h.outcome

theorem settled_templateResponse (hw : Legible w.disk) (c : Call) {status : ℕ} (hstatus : status < 400) :
    Settled supply w (templateResponse status c.procedure) := by
  rcases hw.decided_call supply c with ⟨e, hgoes⟩ | ⟨w', t, hgoes, hw'⟩
  · have hrefusal : Goes supply w (refusal e) w (run supply w (refusal e)).2.outcome :=
      ⟨(looks_refusal e).reads supply w, rfl⟩
    have hrejected : Goes supply w (templateResponse status c.procedure) w _ :=
      Goes.bind (goes_attempt hgoes) hrefusal
    exact ⟨hrejected.world.symm ▸ hw, .inl hrejected.world⟩
  · exact .of_goes (Goes.bind (goes_attempt hgoes) (goes_pure _)) hw' hstatus

theorem settled_withBody (hw : Legible w.disk) (request : Request) (read : Entries → Checked α)
    {next : α → Procedure Response} (h : ∀ a, Settled supply w (next a)) :
    Settled supply w (withBody request read next) := by
  have hpure (response : Response) : Settled supply w (pure response) := settled_of_looks hw trivial
  unfold withBody
  split
  · exact hpure _
  split
  · split
    · exact settled_of_looks hw trivial
    · split
      · exact hpure _
      · exact hpure _
  · split
    · exact h _
    · exact hpure _
  · exact hpure _

/-- Every endpoint settles its requests. -/
theorem settled_serve (hw : Legible w.disk) (rasterize : Rasterizer) (output : String) (request : Request)
    (endpoint : Endpoint) : Settled supply w (serve rasterize output request endpoint) := by
  cases endpoint with
  | health => exact settled_of_looks hw trivial
  | listTemplates => exact settled_of_looks hw (looks_list.bind fun _ => trivial)
  | createTemplate =>
    exact settled_withBody hw request _ fun d => settled_templateResponse hw
      (.create (.text d.name) (textOrNull d.description) (.object d.content) (.text d.actor)) (by decide)
  | showTemplate id => exact settled_of_looks hw (looks_withTemplate id fun _ => trivial)
  | updateTemplate id =>
    exact settled_withBody hw request _ fun p => settled_templateResponse hw
      (.update id (textOrNull p.name) (textOrNull p.description) (textOrNull p.status) (.text p.actor))
      (by decide)
  | listVersions id =>
    exact settled_of_looks hw (looks_withTemplate id fun _ => (looks_versions id).bind fun _ => trivial)
  | createVersion id =>
    exact settled_withBody hw request _ fun d => settled_templateResponse hw
      (.version id (.object d.content) (.text d.actor)) (by decide)
  | listEvents id =>
    -- Looking is decided by going through the procedure, which should not go through the text of the limit.
    dsimp only [serve]
    generalize Value.text ((request.parameter? "limit").getD (toString defaultLimit)) = limit
    have hevents : (audit id limit >>= fun events => pure (Response.entry 200 "events" (.list events))).Looks :=
      (looks_audit id limit).bind fun _ => looks_done _
    exact settled_of_looks hw (looks_withTemplate id fun _ => hevents)
  | evaluate =>
    exact settled_withBody hw request _ fun o => settled_of_looks hw (looks_evaluate o)
  | render => exact settled_withBody hw request _ fun o => settled_of_looks hw (looks_render o)
  | renderFile => exact settled_of_looks hw (looks_renderFile rasterize output request.body)

theorem settled_answer (hw : Legible w.disk) (rasterize : Rasterizer) (output : String) (request : Request) :
    Settled supply w (answer rasterize output request) := by
  cases hendpoint : Endpoint.ofRequest request with
  | error problem =>
    refine settled_of_looks hw ?_
    unfold answer
    rw [hendpoint]
    cases problem <;> trivial
  | ok endpoint =>
    have hserve : Settled supply w (serve rasterize output request endpoint) :=
      settled_serve hw rasterize output request endpoint
    obtain ⟨hlegible, hunchanged⟩ := hserve
    constructor
    · rw [(answeredBy_serve hendpoint).run_eq]
      exact hlegible
    · rw [(answeredBy_serve hendpoint).run_eq]
      refine hunchanged.imp_right fun ⟨response, houtcome, hstatus⟩ => ⟨response, ?_, hstatus⟩
      simp only [houtcome]
      rfl

/-! ## All that is done with a store -/

/-- What is done with a store: an operation, or a request to the service. -/
inductive Act where
  | operation (o : Operation)
  | request (rasterize : Rasterizer) (output : String) (request : Request)

/-- The world after an act. -/
def Act.world (supply : Supply) (w : World) : Act → World
  | .operation o => (runOperations supply w [o]).1
  | .request rasterize output r => (run supply w (answer rasterize output r)).1

/-- The world after acts one after the other. -/
def runActs (supply : Supply) (w : World) (acts : List Act) : World := acts.foldl (Act.world supply) w

theorem Act.legible (hw : Legible w.disk) (supply : Supply) (act : Act) :
    Legible (act.world supply w).disk := by
  cases act with
  | request rasterize output request => exact (settled_answer hw rasterize output request).legible
  | operation o =>
    unfold Act.world
    dsimp only
    rw [runOperations_eq]
    cases o with
    | call c =>
      change Legible (run supply w c.procedure).1.disk
      rcases hw.decided_call supply c with ⟨e, hgoes⟩ | ⟨w', t, hgoes, hw'⟩
      · rw [hgoes.world]
        exact hw
      · rw [hgoes.world]
        exact hw'
    | get | list | versions | audit => exact hw

theorem legible_runActs (hw : Legible w.disk) (supply : Supply) (acts : List Act) :
    Legible (runActs supply w acts).disk := by
  induction acts generalizing w with
  | nil => exact hw
  | cons act acts ih => exact ih (act.legible hw supply)

/-- On a store that is reached from an empty one by any operations and requests, a call that is rejected
leaves everything as it is, the audit trail and what is given to the next call included. Calls with a blank
name, and calls for an id under which there is no template, are rejected. A request that is answered with a
status of 400 or more leaves everything as it is.

This is about stores that can be written to: a save does not fail here (`Procedure.save`), and so only a missing
name is answered with 400 by the requests that change a template (`refusal`). A text with half a surrogate pair
cannot be written as UTF-8. A handler would answer that with 400 too, with the file of a first version there that
no record names; no call has such a text, and a body with one is outside the model (`withBody`). -/
theorem rejected_changes_nothing {supply : Supply} {acts : List Act} {w : World}
    (hreached : runActs supply {} acts = w) :
    (∀ (c : Call) w' e, Goes supply w c.procedure w' (.error e) → w' = w) ∧
    (∀ c : Call, Refused w.disk c → ∃ e, Goes supply w c.procedure w (.error e)) ∧
    ∀ rasterize output request w' response, Goes supply w (answer rasterize output request) w' (.ok response) →
      400 ≤ response.status → w' = w := by
  subst hreached
  have hlegible := legible_runActs (w := {}) legible_empty supply acts
  refine ⟨fun c w' e hgoes => ?_, fun c hrefused => hrefused.exists_goes supply,
    fun rasterize output request w' response hgoes hstatus => ?_⟩
  · rcases hlegible.decided_call supply c with ⟨e', hgoes'⟩ | ⟨u, t, hgoes', -⟩
    · exact (hgoes.unique hgoes').1
    · exact absurd hgoes hgoes'.not_error
  · rcases (settled_answer hlegible rasterize output request).unchanged with hsame | ⟨r, houtcome, hsuccess⟩
    · exact hgoes.world.symm.trans hsame
    · obtain rfl := Except.ok.inj (hgoes.outcome.symm.trans houtcome)
      omega

/-- A change of an invoice that is sent with a blank name. -/
def blankPatch : Request where
  method := "PATCH"
  path := "/api/templates/" ++ counted.id 0
  body := "\x7b\"name\": \"  \", \"description\": \"new\", \"status\": \"live\"\x7d"

/-- An invoice is created by a request and gets a second version. -/
def invoiceActs : List Act :=
  [.request obliging "out.pdf" (posted "/api/templates" "\x7b\"name\": \"Invoice\"\x7d"),
    .operation (.call (.version (counted.id 0) (.text "second") .null))]

/-- The patch is refused with status 400, and nothing is changed. -/
theorem rejected_changes_nothing_blankPatch : ∃ w response, w = runActs counted {} invoiceActs ∧
    (w.disk.find? (versionPath (counted.id 0) 2)).isSome = true ∧ response.status = 400 ∧
    Goes counted w (answer obliging "out.pdf" blankPatch) w (.ok response) := by
  have hpatch : ((runActs counted {} invoiceActs).disk.find? (versionPath (counted.id 0) 2)).isSome = true ∧
      ((run counted (runActs counted {} invoiceActs) (answer obliging "out.pdf" blankPatch)).2.outcome.toOption.map
        Response.status) = some 400 := by
    decide +kernel
  obtain ⟨hversion, hstatus⟩ := hpatch
  cases houtcome : (run counted (runActs counted {} invoiceActs)
    (answer obliging "out.pdf" blankPatch)).2.outcome with
  | error e =>
    rw [houtcome] at hstatus
    cases hstatus
  | ok response =>
    rw [houtcome] at hstatus
    obtain hstatus : response.status = 400 := Option.some.inj hstatus
    have hgoes : Goes counted (runActs counted {} invoiceActs) (answer obliging "out.pdf" blankPatch) _
        (.ok response) := ⟨rfl, houtcome⟩
    have hsame := (rejected_changes_nothing rfl).2.2 _ _ _ _ _ hgoes hstatus.ge
    rw [hsame] at hgoes
    exact ⟨_, response, rfl, hversion, hstatus, hgoes⟩

end Pagewright.Service
