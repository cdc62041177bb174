import Pagewright.Contract.Evaluation
import Pagewright.Layout.Assembly
import Pagewright.Markup.Document
import Pagewright.Rendering.Rasterizer
import Pagewright.Template.Discovery

/-!
# Rendering

A template and a payload become a document in one way only: the contract turns the payload into the data
record, and the layout is assembled over the record. A preview does that and no more, so it shows
what is missing. A final document, as markup or as a file, is refused while a required path has no
value; the rasterizer is not even called then.
-/

namespace Pagewright

/-- A document with what was found out on the way. -/
structure Rendering where
  evaluation : Contract.Evaluation
  layout : DocumentLayout
  missingBindings : List String
  deriving Repr

namespace Rendering

/-- The document as markup. -/
def markup (r : Rendering) : String := r.layout.markup

/-- The entries that describe a rendering. -/
def entries (r : Rendering) : Entries :=
  [("pageCount", .int r.layout.pageCount),
   ("missingRequired", .list (r.evaluation.missingRequired.map .text)),
   ("missingBindings", .list (r.missingBindings.map .text)),
   ("contract", r.evaluation.toValue), ("layout", r.layout.toValue)]

/-- A rendering as a document, with its markup if asked for. -/
def toValue (r : Rendering) (withMarkup : Bool) : Value :=
  .object (r.entries ++ if withMarkup then [("html", .text r.markup)] else [])

/-- A message of the log under the heading of rendering. -/
def say (level : Level) (text : String) : Logged Unit := Logged.say level ("[render] " ++ text)

/-- Report on the evaluation of a contract. -/
def sayEvaluation (label : String) (e : Contract.Evaluation) : Logged Unit := do
  let say (level : Level) (text : String) := Logged.say level ("[template] " ++ label ++ ": " ++ text)
  let defaults := e.fields.filter (·.usedDefault)
  say .debug ("evaluated " ++ toString e.fields.length ++ " contract field(s), " ++
    toString defaults.length ++ " default(s) used")
  for r in e.fields.filter fun r => !r.problem.isEmpty do
    say .warning ("transform '" ++ r.transform.display ++ "' failed on '" ++ r.path ++ "': " ++ r.problem)
  if !e.missingRequired.isEmpty then
    say .warning ("missing required field(s): " ++ ", ".intercalate e.missingRequired)

/-- Report on a layout. -/
def sayLayout (label : String) (d : DocumentLayout) : Logged Unit := do
  say .info (label ++ ": " ++ toString d.pageCount ++ " page(s)")
  for p in d.pages do
    say .debug ("  Page " ++ toString p.number ++ ": header=" ++ toString p.header.length ++ " body=" ++
      toString p.body.length ++ " footer=" ++ toString p.footer.length ++ " box(es)")

/-- Report on the start of a final rendering. -/
def sayStart (label mode : String) (output : Option String) : Logged Unit := do
  say .info ("Rendering " ++ label ++ " (" ++ mode ++ ")")
  match output with
  | some path => say .debug ("  Output: " ++ path)
  | none => pure ()

/-- A line across the log. -/
def ruler : String := String.ofList (List.replicate 80 '=')

/-- Show output of a rasterizer. -/
def sayOutput (title text : String) : Logged Unit :=
  if text.isEmpty then pure ()
  else Logged.sayRaw ("\n" ++ ruler ++ "\nRASTERIZER " ++ title ++ ":\n" ++ ruler ++ "\n" ++ text ++ "\n")

/-- Whether a file has another number of pages than the layout. -/
def disagrees (pages : Nat) (report : RasterReport) : Option Int :=
  report.pageCount.filter fun n => n != pages

/-- Report on a rasterizer's work. -/
def sayReport (label : String) (report : RasterReport) (pages : Nat) (verbose : Bool) :
    Logged Unit := do
  let time := " (" ++ Binary64.fixed report.seconds 2 ++ "s)"
  if report.success then
    say .success (label ++ ": PDF written" ++ time)
    match report.path with
    | some path => say .debug ("  PDF: " ++ path)
    | none => pure ()
    match disagrees pages report with
    | some n =>
      say .warning (label ++ ": layout has " ++ toString pages ++ " page(s) but PDF has " ++ toString n)
    | none => pure ()
  else
    say .error (label ++ ": rasterization failed" ++ time)
    let shown := report.errors.take 5
    for (i, problem) in (List.range shown.length).zip shown do
      say .error ("  Error " ++ toString (i + 1) ++ ": " ++ problem)
  if verbose || !report.success then
    sayOutput "STDOUT" report.stdout
    sayOutput "STDERR" report.stderr

end Rendering

namespace Template

/-- Lay out the record of an evaluation. -/
def layOut (t : Template) (e : Contract.Evaluation) (evaluate : Bool) (pages : Option (List Int)) :
    Logged Rendering := do
  let layout ← Layout.assemble t e.data evaluate pages
  Rendering.sayLayout t.label layout
  return ⟨e, layout, ← t.missingBindingsLogged e.data⟩

/-- Evaluate the contract and report on it. -/
def evaluateLogged (t : Template) (payload : Value) : Logged Contract.Evaluation := do
  let e ← t.evaluate payload
  Rendering.sayEvaluation t.label e
  return e

/-- A preview. Required paths without a value are shown empty. -/
def preview (t : Template) (payload : Value) (evaluate : Bool) (pages : Option (List Int)) :
    Logged Rendering := do
  t.layOut (← t.evaluateLogged payload) evaluate pages

/-- A final document as markup. It is refused while a required path has no value. -/
def render (t : Template) (payload : Value) : Logged Rendering := do
  Rendering.sayStart t.label "html" none
  let e ← t.evaluateLogged payload
  if e.missingRequired.isEmpty then t.layOut e true none
  else throw (.missingRequired e.missingRequired)

/-- A final document as a file. -/
def renderFile (t : Template) (payload : Value) (output : String) (rasterize : Rasterizer)
    (verbose : Bool) : Logged (Rendering × RasterReport) := do
  let r ← t.render payload
  Rendering.sayStart t.label "pdf" (some output)
  let report ← rasterize r.markup output
  Rendering.sayReport t.label report r.layout.pageCount verbose
  return (r, report)

end Template

end Pagewright
