import Pagewright.Failure
import Pagewright.Number.Reader

/-!
# Stored templates

A template in the store is a record, with its name, status and the number of its current version, and
versions, each with the template document of that version. Fields of files that were written by
hand are kept as they stand.
-/

namespace Pagewright

/-- The record of a stored template. -/
structure TemplateRecord where
  id : Value
  name : Value
  description : Value
  status : Value
  versionId : Value
  versionNumber : Value
  createdBy : Value
  updatedBy : Value
  createdAt : Value
  updatedAt : Value
  deriving Repr, Inhabited

/-- A version of a stored template. -/
structure TemplateVersion where
  id : Value
  templateId : Value
  number : Int
  content : Value
  createdBy : Value
  createdAt : Value
  deriving Repr, Inhabited

/-- A record with its current version, if that can be found. -/
structure StoredTemplate where
  record : TemplateRecord
  version : Option TemplateVersion
  deriving Repr, Inhabited

/-- The status of a new template. -/
def initialStatus : String := "DRAFT"

/-- The actor where none is named. -/
def defaultActor : String := "system"

namespace Value

/-- A value as a whole number: the whole part of a double, the number that a text spells. -/
def toWhole : Value → Outcome Int
  | int n => .ok n
  | bool b => .ok (bit b)
  | float x =>
    match Binary64.truncate? x with
    | some n => .ok n
    | none => undefinedOn .notFinite
  | text s =>
    match Numeral.integer? s.toList with
    | some n => .ok n
    | none => undefinedOn (.wrongKind (text s))
  | v => undefinedOn (.wrongKind v)

/-- The entries of an object, which alone has parts. -/
def asObject : Value → Outcome Entries
  | object entries => .ok entries
  | v => undefinedOn (.wrongKind v)

end Value

namespace Entries

/-- The value under a key that must be there. -/
def require (entries : Entries) (key : String) : Outcome Value :=
  match find? entries key with
  | some v => .ok v
  | none => undefinedOn (.missingPart key)

/-- The value under a key, or another when the key is not there. -/
def getOr (entries : Entries) (key : String) (default : Value) : Value :=
  (find? entries key).getD default

end Entries

namespace TemplateVersion

/-- A version as a document. -/
def toValue (v : TemplateVersion) : Value :=
  .object [("id", v.id), ("templateId", v.templateId), ("version", .int v.number),
    ("content", v.content), ("createdBy", v.createdBy), ("createdAt", v.createdAt)]

/-- The version that a document describes. -/
def ofValue (v : Value) : Outcome TemplateVersion := do
  let raw ← v.asObject
  return {
    id := ← Entries.require raw "id"
    templateId := ← Entries.require raw "templateId"
    number := ← (← Entries.require raw "version").toWhole
    content := (Entries.get raw "content").orElse (.object [])
    createdBy := Entries.getOr raw "createdBy" (.text defaultActor)
    createdAt := Entries.getOr raw "createdAt" (.text "") }

end TemplateVersion

namespace TemplateRecord

/-- The entries of a record. -/
def entries (r : TemplateRecord) : Entries :=
  [("id", r.id), ("name", r.name), ("description", r.description), ("status", r.status),
   ("currentVersionId", r.versionId), ("currentVersionNumber", r.versionNumber),
   ("createdBy", r.createdBy), ("updatedBy", r.updatedBy), ("createdAt", r.createdAt),
   ("updatedAt", r.updatedAt)]

/-- A record as a document. -/
def toValue (r : TemplateRecord) : Value := .object r.entries

/-- The record that a document describes. -/
def ofValue (v : Value) : Outcome TemplateRecord := do
  let raw ← v.asObject
  return {
    id := ← Entries.require raw "id"
    name := ← Entries.require raw "name"
    description := Entries.get raw "description"
    status := Entries.getOr raw "status" (.text initialStatus)
    versionId := Entries.get raw "currentVersionId"
    versionNumber := Entries.get raw "currentVersionNumber"
    createdBy := Entries.getOr raw "createdBy" (.text defaultActor)
    updatedBy := Entries.getOr raw "updatedBy" (.text defaultActor)
    createdAt := Entries.getOr raw "createdAt" (.text "")
    updatedAt := Entries.getOr raw "updatedAt" (.text "") }

/-- What an audit event records about a change of the record. -/
def metadata (r : TemplateRecord) : Value :=
  .object [("name", r.name), ("description", r.description), ("status", r.status)]

/-- Whether a value comes before another; only values of one kind are in an order. -/
def precedes (a b : Value) : Outcome Bool :=
  match a, b with
  | .text s, .text t => .ok (decide (s < t))
  | .int m, .int n => .ok (decide (m < n))
  | a, _ => undefinedOn (.wrongKind a)

/-- Whether a record was last changed before another; of two changed at the same time, whether its id
comes first. -/
def isOlder (a b : TemplateRecord) : Outcome Bool :=
  if a.updatedAt.same b.updatedAt then
    if a.id.same b.id then .ok false else precedes a.id b.id
  else precedes a.updatedAt b.updatedAt

/-- Put a record into a list that is sorted from the newest. -/
def insertNewest (r : TemplateRecord) : List TemplateRecord → Outcome (List TemplateRecord)
  | [] => .ok [r]
  | other :: rest => do
    if ← other.isOlder r then return r :: other :: rest
    else return other :: (← insertNewest r rest)

/-- Records from the one changed last. -/
def sortNewest (records : List TemplateRecord) : Outcome (List TemplateRecord) :=
  records.foldlM (fun sorted r => insertNewest r sorted) []

end TemplateRecord

namespace StoredTemplate

/-- A stored template as a document, its current version in it. -/
def toValue (t : StoredTemplate) : Value :=
  .object (t.record.entries ++ (t.version.map fun v => ("currentVersion", v.toValue)).toList)

end StoredTemplate

end Pagewright
