import Pagewright.Log
import Pagewright.Number.Decimal
import Pagewright.Text.Scan

/-!
# Rasterizers

A rasterizer makes a PDF file of a document of markup and reports how it went; a failure is part of the
report. `Browser.rasterizer` is the one that runs a browser without a window. It judges by the file alone:
whatever the exit code of the browser, a file that is there is a success.
-/

namespace Pagewright

/-- What a rasterizer reports. -/
structure RasterReport where
  success : Bool
  path : Option String := none
  stdout : String := ""
  stderr : String := ""
  errors : List String := []
  pageCount : Option Int := none
  seconds : Float := 0
  deriving Repr, Inhabited

/-- From a document of markup and the path of the file to write to a report. -/
abbrev Rasterizer := String → String → Logged RasterReport

/-- How a run of a browser ended. -/
inductive Ending where
  | exited (code : Int)
  | timedOut
  deriving Repr, DecidableEq

/-- What a run of a browser left. -/
structure BrowserRun where
  ending : Ending
  stdout : String := ""
  stderr : String := ""
  /-- Whether the file that was asked for is there. -/
  wroteFile : Bool := false
  /-- The number of pages in it, if it can be read. -/
  pageCount : Option Int := none
  deriving Repr

/-- A browser that is installed: its path, and what it does when it is called with arguments to show a
document. -/
structure Browser where
  path : String
  run : List String → String → BrowserRun

namespace Browser

/-- The browser that is run where none is named. -/
def defaultName : String := "chromium"

/-- Names that are tried after the one that is asked for. -/
def alternatives : List String :=
  ["chromium", "chromium-browser", "google-chrome", "google-chrome-stable"]

/-- The name to look for first. -/
def nameOrDefault (name : String) : String := if name.isEmpty then defaultName else name

/-- The first browser that is installed. -/
def find? (installed : String → Option Browser) (name : String) : Option Browser :=
  (nameOrDefault name :: alternatives).findSome? installed

/-- The arguments for printing a document to a file. -/
def arguments (document output : String) : List String :=
  ["--headless", "--disable-gpu", "--no-sandbox", "--no-pdf-header-footer",
   "--print-to-pdf-no-header", "--print-to-pdf=" ++ output, "file://" ++ document]

/-- The last part of a path. -/
def baseName (path : String) : String :=
  String.ofList ((path.toList.reverse.takeWhile (· != '/')).reverse)

/-- Output of a program, with every line break in its short form. -/
def outputText (s : String) : String := String.ofList (Text.unifyBreaks s.toList)

/-- What went wrong in a run that ended by itself. -/
def problems (code : Int) (wroteFile : Bool) : List String :=
  if wroteFile then []
  else "PDF file was not generated" ::
    (if code = 0 then [] else ["Rasterizer exited with code " ++ toString code])

/-- The report on a run. Output of a run that was cut off is lost. -/
def report (timeout : Float) (output : String) (r : BrowserRun) : RasterReport :=
  match r.ending with
  | .timedOut =>
    { success := false
      errors := ["Rasterizer timed out after " ++ Binary64.fixed timeout 0 ++ "s"] }
  | .exited code =>
    { success := r.wroteFile
      path := if r.wroteFile then some output else none
      stdout := outputText r.stdout
      stderr := outputText r.stderr
      errors := problems code r.wroteFile
      pageCount := if r.wroteFile then r.pageCount else none }

/-- The rasterizer that runs the first browser installed, `name` before others. The document is handed
over in the file `document`. -/
def rasterizer (installed : String → Option Browser) (name : String) (timeout : Float)
    (document : String) : Rasterizer := fun markup output =>
  match find? installed name with
  | none =>
    return { success := false, errors := ["Rasterizer executable not found: " ++ nameOrDefault name] }
  | some browser => do
    let args := arguments document output
    Logged.say .info ("[render] Rasterizing with " ++ baseName browser.path)
    Logged.say .debug ("[render]   Command: " ++ " ".intercalate (browser.path :: args))
    return report timeout output (browser.run args markup)

end Browser

end Pagewright
