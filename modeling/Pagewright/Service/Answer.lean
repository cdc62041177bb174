import Pagewright.Rendering.Basic
import Pagewright.Service.Body
import Pagewright.Service.Endpoint
import Pagewright.Service.Response
import Pagewright.Store.Operations

/-!
# Answering requests

Every request is answered by a procedure on the files of the store. Requests about templates go to the
operations of the store; the three that render read a template from their body and differ only in
what they do with it. A refusal is made before anything is changed.
-/

namespace Pagewright.Service

open Pagewright

/-- The version of the service. -/
def version : String := "0.1.0"

/-- A rejected request in the log. -/
def sayRejected (route : String) (status : Nat) (reason : String) : Procedure Unit :=
  Procedure.tell (if status ≥ 500 then .error else .warning)
    ("[api] " ++ route ++ " -> " ++ toString status ++ ": " ++ reason)

/-- A rejection with its reason in the log. -/
def reject (route : String) (status : Nat) (reason text : String) : Procedure Response := do
  sayRejected route status reason
  return .detail status text

/-! ## Reading bodies -/

/-- A text without a byte order mark. -/
def withoutMark (s : String) : String :=
  match s.toList with
  | '\uFEFF' :: rest => String.ofList rest
  | _ => s

/-- Go on with what a body holds. Half a surrogate pair in it is outside the model. -/
def withBody (r : Request) (read : Entries → Checked α) (next : α → Procedure Response) :
    Procedure Response :=
  if r.body.isEmpty then return .invalid ["body"]
  else
    match Json.read (withoutMark r.body) with
    | .error e =>
      if e.fault = .unpairedSurrogate then Procedure.fail (.undefinedOn .unpairedSurrogate)
      else if e.fault = .longNumber then return .detail 400 "There was an error parsing the body"
      else return .invalid ["body." ++ toString e.place.offset]
    | .ok (.object entries) =>
      match read entries with
      | .ok a => next a
      | .error places => return .invalid places
    | .ok _ => return .invalid ["body"]

/-! ## Templates in the store -/

/-- A failure of an operation of the store as a response. What a save could fail with is outside the model, so
that a name or an action alone is answered with 400. -/
def refusal (e : Failure) : Procedure Response :=
  match e with
  | .templateNotFound _ => return .detail 404 e.message
  | .nameRequired | .nameEmpty | .unknownAction _ => return .detail 400 e.message
  | e => Procedure.fail e

/-- An operation that gives a template. -/
def templateResponse (status : Nat) (t : Procedure StoredTemplate) : Procedure Response := do
  match ← t.attempt with
  | .ok t => return .entry status "template" t.toValue
  | .error e => refusal e

/-- Go on with a template that is in the store. -/
def withTemplate (id : String) (next : StoredTemplate → Procedure Response) : Procedure Response := do
  match ← Store.get id with
  | some t => next t
  | none => refusal (.templateNotFound id)

/-- A text that need not be there. -/
def textOrNull (s : Option String) : Value := (s.map Value.text).getD .null

/-! ## Rendering -/

/-- Go on with the template that a document holds. -/
def withParsed (route : String) (document : Value) (next : Template → Procedure Response) :
    Procedure Response :=
  match Template.ofValue document with
  | .ok t => next t
  | .error (.malformedTemplate problem location) =>
    let text := (Failure.malformedTemplate problem location).message
    reject route 400 text ("Invalid template: " ++ text)
  | .error e => Procedure.fail e

/-- Go on with a finished rendering. Circles of partials and missing data are refused. -/
def withRendering (route : String) (x : Logged α) (next : α → Procedure Response) :
    Procedure Response := do
  match ← (Procedure.ofLogged x).attempt with
  | .ok a => next a
  | .error (.cyclicPartials cycle) =>
    let text := (Failure.cyclicPartials cycle).message
    reject route 400 text text
  | .error (.missingRequired paths) => do
    sayRejected route 422 ("missing required fields " ++ Text.quotedList paths)
    return .missing paths
  | .error e => Procedure.fail e

/-- A preview of an order. -/
def evaluate (o : RenderOrder) : Procedure Response :=
  let route := "/api/evaluate"
  withParsed route (.object o.template) fun t =>
    withRendering route (t.preview (.object o.data) o.evaluate o.pages) fun rendering =>
      return .json 200 (Response.sendable (rendering.toValue false))

/-- A final document as markup. -/
def render (o : RenderOrder) : Procedure Response :=
  let route := "/api/render"
  withParsed route (.object o.template) fun t =>
    withRendering route (t.render (.object o.data)) fun rendering => return .markup rendering.markup

/-- A final document as a file, for a body that is any JSON object. Half a surrogate pair in it is outside
the model. -/
def renderFile (rasterize : Rasterizer) (output : String) (body : String) : Procedure Response :=
  let route := "/api/render-pdf"
  match Json.read (withoutMark body) with
  | .error e =>
    if e.fault = .unpairedSurrogate then Procedure.fail (.undefinedOn .unpairedSurrogate)
    else reject route 400 "body is not JSON" "Request body must be JSON"
  | .ok (.object entries) =>
    withParsed route ((Entries.get entries "template").orElse (.object [])) fun t =>
      let data := (Entries.get entries "data").orElse (.object [])
      withRendering route (t.renderFile data output rasterize false) fun (_, report) => do
        match report.success, report.path with
        | true, some path => return .file path
        | true, none => Procedure.fail (.undefinedOn (.missingFile output))
        | false, _ => do
          sayRejected route 500 ("; ".intercalate report.errors)
          return .entry 500 "error" (.text "PDF render failed")
  | .ok _ => return .detail 400 "Request body must be a JSON object"

/-! ## All requests -/

/-- What an endpoint does. A finished document is put into the file `output`. -/
def serve (rasterize : Rasterizer) (output : String) (r : Request) : Endpoint → Procedure Response
  | .health => return .json 200 (.object [("status", .text "ok"), ("version", .text version)])
  | .listTemplates => do
    return .entry 200 "templates" (.list ((← Store.list).map TemplateRecord.toValue))
  | .createTemplate => withBody r TemplateDraft.ofEntries fun d =>
    templateResponse 201
      (Store.create (.text d.name) (textOrNull d.description) (.object d.content) (.text d.actor))
  | .showTemplate id => withTemplate id fun t => return .entry 200 "template" t.toValue
  | .updateTemplate id => withBody r MetadataPatch.ofEntries fun p =>
    templateResponse 200
      (Store.update id (textOrNull p.name) (textOrNull p.description) (textOrNull p.status)
        (.text p.actor))
  | .createVersion id => withBody r VersionDraft.ofEntries fun d =>
    templateResponse 201 (Store.createVersion id (.object d.content) (.text d.actor))
  | .listVersions id => withTemplate id fun _ => do
    return .entry 200 "versions" (.list ((← Store.versions id).map TemplateVersion.toValue))
  | .listEvents id => withTemplate id fun _ => do
    let limit := (r.parameter? "limit").getD (toString Store.defaultLimit)
    return .entry 200 "events" (.list (← Store.audit id (.text limit)))
  | .evaluate => withBody r RenderOrder.ofEntries evaluate
  | .render => withBody r RenderOrder.ofEntries render
  | .renderFile => renderFile rasterize output r.body

/-- The answer to a request. -/
def answer (rasterize : Rasterizer) (output : String) (r : Request) : Procedure Response := do
  match Endpoint.ofRequest r with
  | .error .notFound => return .detail 404 "Not Found"
  | .error .methodNotAllowed => return .detail 405 "Method Not Allowed"
  | .ok endpoint =>
    match ← (serve rasterize output r endpoint).attempt with
    | .ok response => return response
    | .error _ => return .broken

end Pagewright.Service
