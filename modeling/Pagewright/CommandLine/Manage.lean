import Pagewright.Calendar.Timestamp
import Pagewright.CommandLine.Check
import Pagewright.Store.Operations

/-!
# Commands that manage the store

Documents are validated before they are stored. One with issues is stored only by force.
-/

namespace Pagewright.CommandLine

open Pagewright Act

/-- The most issues that are listed. -/
def issueLimit : Nat := 10

/-- The document to be stored. -/
def readContent (path : String) (force : Bool) : Act Value := do
  match (← get).folder.load path with
  | .error e => explain isUnreadable e
  | .ok entries => do
    let issues ← obtain (Validation.issuesLogged (.object entries))
    if !issues.isEmpty then
      complain (FilePath.normal path ++ ": " ++ toString issues.length ++ " validation issue(s)")
      (issues.take issueLimit).forM fun issue => complain ("  - " ++ issue)
      if !force then
        complain "Fix the issues or pass --force to store anyway."
        leave 1
    return .object entries

/-- A failure that the store answers a request with. -/
def isRefusal : Failure → Bool
  | .nameRequired | .nameEmpty | .unknownAction _ => true
  | _ => false

/-- Go on with a template that an operation gives. -/
def stored (t : Procedure StoredTemplate) : Act StoredTemplate := do
  match ← onStore t with
  | .ok t => return t
  | .error e => do
    match e with
    | .templateNotFound _ => complain e.message
    | e => if isRefusal e then complain ("Error: " ++ e.message)
    leave 1

/-- A text of a record, padded; other values cannot be. -/
def field (width : Nat) (v : Value) : Act String :=
  match v with
  | .text s => return padded width s
  | _ => leave 1

/-- The time of a record relative to now. -/
def age (v : Value) : Act String := do
  return (← require (Timestamp.showRelative v (← read).now)).display

/-- The time of a record. -/
def time (v : Value) : String := (Timestamp.showAbsolute v).display

/-- List the templates. -/
def listTemplates : Act Unit := do
  let records ← require (← onStore Store.list)
  print "\nTemplates:"
  if records.isEmpty then print "  (none)"
  else
    let names ← records.mapM fun r => field 0 r.name
    let width := (names.map String.length).foldl max 0
    for r in records do
      let name ← field width r.name
      let status ← field 10 r.status
      print ("  " ++ r.id.display ++ "  " ++ name ++ "  " ++ status ++ "  v" ++
        r.versionNumber.display ++ "  " ++ (← age r.updatedAt))
    print ("\nTotal: " ++ toString records.length)

/-- A value for a text that may not be given. -/
def textOrNull (s : Option String) : Value := (s.map Value.text).getD .null

/-- Create a template. -/
def createTemplate (name : String) (content description : Option String) (actor : String) (force : Bool) :
    Act Unit := do
  let content ← match content with
    | some path => readContent path force
    | none => pure (.object [])
  let t ← stored (Store.create (.text name) (textOrNull description) content (.text actor))
  print ("✓ Created " ++ t.record.name.display)
  print ("  Id:      " ++ t.record.id.display)
  print ("  Version: " ++ t.record.versionNumber.display)

/-- The line about a version. -/
def versionLine (current : Value) (v : TemplateVersion) : String :=
  "  v" ++ padded 4 (toString v.number) ++ " " ++ time v.createdAt ++ "  " ++ v.createdBy.display ++
    (if v.id.same current then " (current)" else "")

/-- Show a template and its versions, or its content. -/
def showTemplate (id : String) (content : Bool) : Act Unit := do
  match ← require (← onStore (Store.get id)) with
  | none => do
    complain ("Template '" ++ id ++ "' not found")
    leave 1
  | some t =>
    if content then
      print (Json.indented .ascii ((t.version.map (·.content)).getD (.object [])))
    else
      let r := t.record
      print ("\n" ++ r.name.display)
      print ("  Id:          " ++ r.id.display)
      print ("  Status:      " ++ r.status.display)
      print ("  Description: " ++ (r.description.orElse (.text "-")).display)
      print ("  Updated:     " ++ time r.updatedAt ++ " by " ++ r.updatedBy.display)
      print ("  Created:     " ++ time r.createdAt ++ " by " ++ r.createdBy.display)
      print "\nVersions:"
      printAll ((← require (← onStore (Store.versions id))).map (versionLine r.versionId))

/-- Store a document as the next version of a template. -/
def createVersion (id path actor : String) (force : Bool) : Act Unit := do
  let content ← readContent path force
  let t ← stored (Store.createVersion id content (.text actor))
  print ("✓ " ++ t.record.name.display ++ ": version " ++ t.record.versionNumber.display ++ " is current")

/-- Change the name, description or status of a template. -/
def updateTemplate (id : String) (name description status : Option String) (actor : String) :
    Act Unit := do
  if name.isNone && description.isNone && status.isNone then complain "Nothing to update"
  else
    let before ← require (← onStore (Store.get id))
    let t ← stored (Store.update id (textOrNull name) (textOrNull description) (textOrNull status)
      (.text actor))
    print ("✓ Updated " ++ t.record.id.display)
    let old := ((before.map fun t => t.record.metadata).bind Value.object?).getD []
    for (key, new) in (t.record.metadata.object?).getD [] do
      let was := Entries.get old key
      if !was.same new then print ("  " ++ key ++ ": " ++ was.quoted ++ " → " ++ new.quoted)

/-- The line about an event. -/
def eventLine (event : Value) : Act String := do
  let entries ← require event.asObject
  let action ← field 26 (← require (Entries.require entries "action"))
  return "  " ++ time (← require (Entries.require entries "timestamp")) ++ "  " ++ action ++ "  " ++
    (← require (Entries.require entries "actor_id")).display

/-- Show the events of a template. -/
def showEvents (id : String) (limit : Int) : Act Unit := do
  let events ← require (← onStore (Store.audit id (.int limit)))
  print ("\nAudit trail for " ++ id ++ ":")
  if events.isEmpty then print "  (none)"
  else
    for event in events do
      print (← eventLine event)

end Pagewright.CommandLine
