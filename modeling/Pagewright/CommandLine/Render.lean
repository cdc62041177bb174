import Pagewright.CommandLine.Command
import Pagewright.CommandLine.Session
import Pagewright.Rendering.Basic

/-!
# Commands that render

Final documents are refused while required data is missing, with exit code 1; the commands that show
diagnostics or the layout only list what is missing.
-/

namespace Pagewright.CommandLine

open Pagewright Act

/-- A failure to read a template or data. -/
def isUnreadable : Failure → Bool
  | .unreadable .. | .malformedTemplate .. => true
  | _ => false

/-- A circle of partials. -/
def isCycle : Failure → Bool
  | .cyclicPartials _ => true
  | _ => false

/-- The template and the data that a command works on. -/
def Sources.load (s : Sources) : Act (Template × Value) := do
  let f := (← get).folder
  let loaded : Outcome (Template × Value) := do
    let template ← f.loadTemplate s.template
    match s.data with
    | some path => return (template, .object (← f.load path))
    | none => return (template, .object [])
  match loaded with
  | .ok loaded => return loaded
  | .error e => explain isUnreadable e

/-- List required paths without a value. -/
def printMissing (paths : List String) : Act Unit := do
  print "✗ Missing required fields"
  printAll (paths.map ("  - " ++ ·))
  print ""

/-- Go on with a rendering, if it was not refused. -/
def finished (x : Logged α) : Act α := do
  match ← observe x with
  | .ok a => return a
  | .error (.missingRequired paths) => do
    printMissing paths
    leave 1
  | .error e => explain isCycle e

/-- Render to markup. -/
def renderMarkup (s : Sources) (output : Option String) : Act Unit := do
  let (template, data) ← s.load
  if output.isSome then let _ ← startLog "render" "render"
  let rendering ← finished (template.render data)
  match output with
  | none => print rendering.markup
  | some path =>
    write path rendering.markup
    print ("\n✓ Rendered " ++ toString rendering.layout.pageCount ++ " page(s)")
    print ("  HTML: " ++ FilePath.normal path)
    print ""

/-- The lines about a finished file. -/
def fileLines (pages : Nat) (report : RasterReport) : List String :=
  if report.success then
    ["✓ Rendering succeeded", "  Layout pages: " ++ toString pages,
     "  PDF pages: " ++ ((report.pageCount.map Value.int).getD .null).display,
     "  PDF: " ++ ((report.path.map Value.text).getD .null).display]
  else
    ("✗ Rendering failed with " ++ toString report.errors.length ++ " errors") ::
      (report.errors.take 10).map ("  - " ++ ·)

/-- Render to a finished file. -/
def renderFile (s : Sources) (output : String) (verbose : Bool) : Act Unit := do
  let (template, data) ← s.load
  let log ← startLog "render" "render"
  let name := if template.name.isEmpty then FilePath.name s.template else template.name
  print ("\nRendering: " ++ name)
  print ""
  let around ← read
  let rasterize : Rasterizer := fun markup path =>
    around.rasterize markup (FilePath.resolve around.folder path)
  let (rendering, report) ←
    finished (template.renderFile data (FilePath.normal output) rasterize verbose)
  print ""
  printAll (fileLines rendering.layout.pageCount report)
  print ("  Log: " ++ log)
  print ""
  if !report.success then leave 1

/-- What is said about a contract field in brackets. -/
def notes (r : Contract.FieldReport) : List Value :=
  (if r.required then [Value.text "required"] else []) ++
    (if r.usedDefault then [Value.text "default"] else []) ++
    (match r.transform with
     | .text "none" => []
     | v => [v])

/-- The line about a contract field. -/
def fieldLine (r : Contract.FieldReport) : Outcome String := do
  let mark := if !r.problem.isEmpty then "✗" else if r.missing then "!" else "✓"
  let notes ← (notes r).mapM fun v =>
    match v with
    | .text s => pure s
    | v => undefinedOn (.wrongKind v)
  let ending := if notes.isEmpty then "" else " (" ++ ", ".intercalate notes ++ ")"
  return "  " ++ mark ++ " " ++ r.path ++ " = " ++ r.value.quoted ++ ending

/-- Show what the data contract makes of the data. -/
def evaluate (s : Sources) (asJson : Bool) : Act Unit := do
  let (template, data) ← s.load
  let rendering ← finished (template.preview data true none)
  let e := rendering.evaluation
  if asJson then print (Json.indented .ascii e.toValue)
  else
    print ("\nData contract: " ++ toString e.fields.length ++ " field(s)")
    for r in e.fields do
      print (← require (fieldLine r))
      if !r.problem.isEmpty then print ("      " ++ r.problem)
    if !e.missingRequired.isEmpty then
      print ""
      printMissing e.missingRequired
    if !rendering.missingBindings.isEmpty then
      print "Unresolved bindings:"
      printAll (rendering.missingBindings.map ("  - " ++ ·))
    print ""

/-- The most characters of a text that are shown in the line about its box. -/
def previewLength : Nat := 40

/-- What is said about the content of a box. -/
def boxDetail (b : Box) : String :=
  match b.content with
  | .table t => " rows=" ++ toString t.cells.length ++ " pad=" ++ toString t.padding
  | .text s _ =>
    if s.isEmpty then ""
    else " " ++ Text.quoted (String.ofList ((Text.replace ['\n'] [' '] s.toList).take previewLength))
  | _ => ""

/-- A text with blanks on the right. -/
def padded (width : Nat) (s : String) : String := String.ofList (Text.padRight width s.toList)

/-- The line about a box. -/
def boxLine (b : Box) : String :=
  "    " ++ padded 16 b.id ++ " " ++ padded 9 b.kind ++ " (" ++ Binary64.general b.x ++ ", " ++
    Binary64.general b.y ++ ") " ++ Binary64.general b.w ++ "x" ++ Binary64.general b.h ++ boxDetail b

/-- The lines about a page. -/
def pageLines (p : PageLayout) : List String :=
  ("\nPage " ++ toString p.number) ::
    Region.all.flatMap fun region =>
      match p.region region with
      | [] => []
      | boxes => ("  " ++ region.name ++ ":") :: boxes.map boxLine

/-- Show the boxes of pages. -/
def showLayout (s : Sources) (pages : List Int) (design asJson : Bool) : Act Unit := do
  let (template, data) ← s.load
  let asked := if pages.isEmpty then none else some pages
  let rendering ← finished (template.preview data (!design) asked)
  if asJson then print (Json.indented .ascii rendering.layout.toValue)
  else
    print ("\nPages: " ++ toString rendering.layout.pageCount)
    printAll (rendering.layout.pages.flatMap pageLines)
    if !rendering.evaluation.missingRequired.isEmpty then
      print ""
      printMissing rendering.evaluation.missingRequired
    print ""

end Pagewright.CommandLine
