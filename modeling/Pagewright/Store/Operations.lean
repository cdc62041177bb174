import Pagewright.Store.Record
import Pagewright.Store.Procedure
import Pagewright.Text.Case

/-!
# Operations of a store

Templates are created, get new versions and get new metadata; every such change ends with one event in
the audit trail. A version file is written before the record that names it, and the event comes last.

Only ids of letters and digits can name a template.
-/

namespace Pagewright.Store

/-- The folder of records. -/
def recordFolder : String := "templates"

/-- The folder of versions. -/
def versionFolder (id : String) : String := "versions/" ++ id

/-- The file of a template's record. -/
def recordName (id : String) : String := id ++ ".json"

/-- The file of a version. -/
def versionName (number : Value) : String := "v" ++ number.display ++ ".json"

/-- Whether a text can name a template. -/
def isId (id : String) : Bool := !id.isEmpty && id.toList.all Text.isAlphanumeric

/-- The greatest length of a file name in bytes. -/
def nameLimit : Nat := 255

/-- A name if it is short enough for a file. -/
def checkName (name : String) : Outcome Unit :=
  if name.utf8ByteSize ≤ nameLimit then .ok () else undefinedOn (.longName name)

/-- A message of the log under the heading of the store. -/
def tell (level : Level) (text : String) : Procedure Unit := Procedure.tell level ("[store] " ++ text)

/-- The document in a file, if the file is there. -/
def document? (path : String) : Procedure (Option Value) := do
  match ← Procedure.look path with
  | some contents => return some (← liftM contents.json)
  | none => return none

/-- The record of a template. -/
def loadRecord (id : String) : Procedure (Option TemplateRecord) := do
  if !isId id then return none
  liftM (checkName (recordName id))
  match ← document? (Disk.inFolder recordFolder (recordName id)) with
  | some v => return some (← liftM (TemplateRecord.ofValue v))
  | none => return none

/-- The record of a template that must be there. -/
def requireRecord (id : String) : Procedure TemplateRecord := do
  match ← loadRecord id with
  | some r => return r
  | none => Procedure.fail (.templateNotFound id)

/-- A version of a template. -/
def loadVersion (id : String) (number : Value) : Procedure (Option TemplateVersion) := do
  if number.isNull then return none
  match ← document? (Disk.inFolder (versionFolder id) (versionName number)) with
  | some v => return some (← liftM (TemplateVersion.ofValue v))
  | none => return none

/-- A template with its current version. -/
def get (id : String) : Procedure (Option StoredTemplate) := do
  match ← loadRecord id with
  | some r => return some ⟨r, ← loadVersion id r.versionNumber⟩
  | none => return none

/-- Whether a file is named like a version. -/
def isVersionName (name : String) : Bool :=
  match name.toList with
  | 'v' :: rest => ".json".toList.isSuffixOf rest
  | _ => false

/-- Whether a file is named like a record. -/
def isRecordName (name : String) : Bool := ".json".toList.isSuffixOf name.toList

/-- Read every file of some; each must hold a document. -/
def readAll (read : Value → Outcome α) (folder : String) : List String → Procedure (List α)
  | [] => return []
  | name :: rest => do
    match ← Procedure.look (Disk.inFolder folder name) with
    | none => liftM (undefinedOn (.missingFile (Disk.inFolder folder name)) : Outcome (List α))
    | some contents =>
      let a ← liftM (contents.json >>= read)
      return a :: (← readAll read folder rest)

/-- Put a version into a list that is sorted from the newest. -/
def insertVersion (v : TemplateVersion) : List TemplateVersion → List TemplateVersion
  | [] => [v]
  | other :: rest => if other.number < v.number then v :: other :: rest else other :: insertVersion v rest

/-- The versions of a template, the newest first. -/
def versions (id : String) : Procedure (List TemplateVersion) := do
  if !isId id then return []
  liftM (checkName id)
  let names ← Procedure.filesIn (versionFolder id)
  let found ← readAll TemplateVersion.ofValue (versionFolder id) (names.filter isVersionName)
  return found.foldl (fun sorted v => insertVersion v sorted) []

/-- The records of all templates, the one changed last first. -/
def list : Procedure (List TemplateRecord) := do
  let names ← Procedure.filesIn recordFolder
  let found ← readAll TemplateRecord.ofValue recordFolder (names.filter isRecordName)
  liftM (TemplateRecord.sortNewest found)

/-- Write a new version. -/
def writeVersion (id : String) (number : Int) (content actor : Value) : Procedure TemplateVersion := do
  let version : TemplateVersion := ⟨.text (← Procedure.newId), .text id, number, content, actor,
    .text (← Procedure.now)⟩
  Procedure.save (versionFolder id) (versionName (.int number)) version.toValue
  return version

/-- Write a record. -/
def writeRecord (r : TemplateRecord) : Procedure Unit :=
  Procedure.save recordFolder (recordName r.id.display) r.toValue

/-- A description as text; an empty one is none. -/
def descriptionOf (v : Value) : Value := if v.isGiven then .text v.display else .null

/-- A content, empty if none is given. -/
def contentOf (v : Value) : Value := v.orElse (.object [])

/-- An actor, the default one if none is given. -/
def actorOf (v : Value) : Value := v.orElse (.text defaultActor)

/-- Create a template with its first version. It must have a name. -/
def create (name description content actor : Value) : Procedure StoredTemplate := do
  let name := Text.trimmed (name.orElse (.text "")).display
  if name.isEmpty then Procedure.fail .nameRequired
  else do
    let content := contentOf content
    let actor := actorOf actor
    let id ← Procedure.newId
    let version ← writeVersion id 1 content actor
    let time ← Procedure.now
    let record : TemplateRecord := {
      id := .text id
      name := .text name
      description := descriptionOf description
      status := .text initialStatus
      versionId := version.id
      versionNumber := .int version.number
      createdBy := actor
      updatedBy := actor
      createdAt := .text time
      updatedAt := .text time }
    writeRecord record
    let _ ← Procedure.record {
      action := "template.created"
      templateId := .text id
      actor := actor
      versionId := version.id
      after := content }
    tell .info ("Created template '" ++ name ++ "' (" ++ id ++ ")")
    return ⟨record, some version⟩

/-- The greatest number of some versions. -/
def latest (versions : List TemplateVersion) : Int :=
  match versions.map (·.number) with
  | [] => 0
  | n :: rest => rest.foldl max n

/-- Make a content the next version of a template. -/
def createVersion (id : String) (content actor : Value) : Procedure StoredTemplate := do
  let record ← requireRecord id
  let previous ← loadVersion id record.versionNumber
  let content := contentOf content
  let actor := actorOf actor
  let number := latest (← versions id)
  let version ← writeVersion id (number + 1) content actor
  let record := { record with
    versionId := version.id
    versionNumber := .int version.number
    updatedBy := actor
    updatedAt := .text (← Procedure.now) }
  writeRecord record
  let _ ← Procedure.record {
    action := "template.version.created"
    templateId := .text id
    actor := actor
    versionId := version.id
    before := (previous.map (·.content)).getD .null
    after := content }
  tell .info ("Template " ++ id ++ ": version " ++ toString version.number ++ " created")
  return ⟨record, some version⟩

/-- A record with a new name, description and status; null leaves a part as it is. -/
def revise (r : TemplateRecord) (name description status : Value) : Outcome TemplateRecord := do
  let newName ←
    if name.isNull then pure r.name
    else
      let s := Text.trimmed name.display
      if s.isEmpty then .error .nameEmpty else pure (.text s)
  return { r with
    name := newName
    description := if description.isNull then r.description else descriptionOf description
    status :=
      if status.isNull then r.status
      else .text (String.ofList (Text.upper status.display.toList)) }

/-- Change the name, description or status of a template. -/
def update (id : String) (name description status actor : Value) : Procedure StoredTemplate := do
  let old ← requireRecord id
  let actor := actorOf actor
  let revised ← liftM (revise old name description status)
  let record := { revised with updatedBy := actor, updatedAt := .text (← Procedure.now) }
  writeRecord record
  let _ ← Procedure.record {
    action := "template.metadata.updated"
    templateId := .text id
    actor := actor
    versionId := record.versionId
    before := old.metadata
    after := record.metadata }
  tell .debug ("Template " ++ id ++ ": metadata " ++ old.metadata.quoted ++ " -> " ++
    record.metadata.quoted)
  return ⟨record, ← loadVersion id record.versionNumber⟩

/-- The number of events that are listed where no number is asked for. -/
def defaultLimit : Int := 100

/-- The greatest number of events that are listed. -/
def maxLimit : Int := 500

/-- The number of events that a value asks for: from 1 to the greatest, the default for zero and for
what is no number. An infinity has no whole part. -/
def limitOf (v : Value) : Outcome Nat := do
  let n ←
    match v.toWhole with
    | .ok n => pure (if n = 0 then defaultLimit else n)
    | .error (.undefinedOn .notFinite) =>
      match v with
      | .float x => if Binary64.isNaN x then pure defaultLimit else undefinedOn .notFinite
      | _ => pure defaultLimit
    | .error _ => pure defaultLimit
  return (max 1 (min n maxLimit)).toNat

/-- The events of a template, the newest first. -/
def audit (id : String) (limit : Value) : Procedure (List Value) := do
  let limit ← liftM (limitOf limit)
  Procedure.readAudit fun trail => do
    let events ← liftM (((trail.getD {}).events (.text id) .null))
    return events.reverse.take limit

end Pagewright.Store
