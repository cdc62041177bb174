import Pagewright.CommandLine.Render
import Pagewright.Template.Validation

/-!
# Commands that check templates

Validation lists every issue of every document and ends with code 1 if there is one. The paths that a
template uses are shown beside those that its contract declares.

Output is UTF-8, which has no surrogates: a command breaks off where it comes to the stand-in of one.
-/

namespace Pagewright.CommandLine

open Pagewright Act

/-- Validate one template; whether it is valid. -/
def validateOne (path : String) : Act Bool := do
  let shown := FilePath.normal path
  match (← get).folder.load path with
  | .error e => do
    if isUnreadable e then print ("✗ " ++ shown ++ ": " ++ e.message) else leave 1
    return false
  | .ok entries => do
    let issues ← obtain (Validation.issuesLogged (.object entries))
    if issues.isEmpty then print ("✓ " ++ shown)
    else
      print ("✗ " ++ shown ++ ": " ++ toString issues.length ++ " issue(s)")
      printAll (issues.map ("  - " ++ ·))
    return issues.isEmpty

/-- Validate templates. -/
def validateAll (paths : List String) : Act Unit := do
  let valid ← paths.mapM validateOne
  let failed := (valid.filter (!·)).length
  print ""
  if failed = 0 then print ("All " ++ toString paths.length ++ " template(s) valid")
  else
    print (toString failed ++ "/" ++ toString paths.length ++ " template(s) invalid")
    leave 1

/-- Whether a text has the stand-in of a surrogate. -/
def hasStandIn (standIn : Option Char) (text : List Char) : Bool := standIn.any text.contains

/-- Print a line unless it has the stand-in of a surrogate. -/
def printEncoded (standIn : Option Char) (line : String) : Act Unit :=
  if hasStandIn standIn line.toList then leave 1 else print line

/-- What gets into a JSON file of a document with the stand-in of a surrogate: all in front of the first piece that
has it. -/
def cutOff (standIn : Option Char) (document : Value) : Option String :=
  let pieces := Json.linePieces .unicode 0 document
  if pieces.any (hasStandIn standIn) then
    some (String.ofList (pieces.takeWhile fun piece => !hasStandIn standIn piece).flatten)
  else none

/-- Save a document, or break off in the middle of it. -/
def saveEncoded (standIn : Option Char) (path : String) (document : Value) : Act Unit := do
  match cutOff standIn document with
  | some text => do
    write path text
    leave 1
  | none => save path document

/-- Bring the contract of a template in a file into line with the paths it uses. -/
def syncFile (path : String) (document : Entries) (standIn : Option Char) (template : Template) : Act Unit := do
  let log ← startLog "sync" "template"
  let contract := (← obtain template.syncContractLogged).contract
  saveEncoded standIn path (.object (document.set "dataContract" contract.toValue))
  print ("\n✓ Synced " ++ toString contract.length ++ " field(s) to " ++ FilePath.normal path)
  print ("  Log: " ++ log)

/-- How a path that a template uses is shown; one that its contract does not declare is marked. -/
def bindingLine (declared : List String) (path : String) : String :=
  "  " ++ (if declared.contains path then " " else "+") ++ " " ++ path

/-- How a path that a contract declares for nothing is shown. -/
def staleLine (path : String) : String := "  - " ++ path ++ " (not referenced)"

/-- Show the paths that a template uses. -/
def showBindings (path : String) (sync : Bool) : Act Unit := do
  let f := (← get).folder
  let loaded : Outcome (Entries × Option Char × Template) := do
    let (document, standIn) ← f.loadMarked path
    return (document, standIn, ← Template.ofValue (.object document))
  match loaded with
  | .error e => explain isUnreadable e
  | .ok (document, standIn, template) => do
    let paths ← require template.discover
    let declared := template.contract.map (·.path)
    print ("\nBindings: " ++ toString paths.length)
    (paths.map (bindingLine declared)).forM (printEncoded standIn)
    let stale := sortUnique (declared.filter fun p => !paths.contains p)
    (stale.map staleLine).forM (printEncoded standIn)
    if sync then syncFile path document standIn template
    print ""

end Pagewright.CommandLine
