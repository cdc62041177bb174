import Pagewright.Record.Shared
import Pagewright.Template.Basic

/-!
# Evaluating a contract

A contract turns a payload into the data record that a template reads. The record starts as a copy of
the payload; the fields are taken in order, and each writes its value at its path, so that a later field
can read what an earlier one wrote.

Values are not copied on the way: a list or object read from the payload is the payload's own, so a
later write inside it changes what later fields read from the payload, and a reported value shows what
has become of it at the end.
-/

namespace Pagewright

namespace Contract

/-- The payload and the record under way. -/
structure Workspace where
  heap : Heap
  payload : Slot
  record : Nat
  deriving Repr, Inhabited

/-- What happened to one field. -/
structure Step where
  field : ContractField
  usedDefault : Bool := false
  missing : Bool := false
  problem : String := ""
  written : Slot := .null
  deriving Repr, Inhabited

/-- What is reported about one field. -/
structure FieldReport where
  path : String
  required : Bool
  source : Value
  externalPath : Value
  transform : Value
  usedDefault : Bool
  missing : Bool
  problem : String
  value : Value
  deriving Repr, Inhabited

/-- The data record and the reports on the fields. -/
structure Evaluation where
  data : Value
  fields : List FieldReport
  missingRequired : List String
  deriving Repr, Inhabited

namespace Workspace

/-- The workspace at the start: the payload, and a copy of it as the record. -/
def ofPayload (payload : Entries) : Workspace :=
  let (slot, heap) := Heap.insert #[] (.object payload)
  let (copy, heap) := heap.insert (.object payload)
  { heap := heap
    payload := slot
    record := match copy with
      | .node id => id
      | .leaf _ => 0 }

/-- The slot at a path of the record. -/
def findRecord (w : Workspace) (path : String) : Outcome Slot := w.heap.find (.node w.record) path

/-- The slot at a path of the payload; the path must be a text. -/
def findPayload (w : Workspace) (path : Value) : Outcome Slot :=
  match path with
  | .text s => w.heap.find w.payload s
  | v => undefinedOn (.wrongKind v)

/-- The data record. -/
def data (w : Workspace) : Outcome Value := w.heap.toValue (.node w.record)

/-- The slot that a field reads, before its default. -/
def source (w : Workspace) (f : ContractField) : Outcome Slot := do
  if f.isExternal then
    let found ← w.findPayload f.payloadPath
    if found.isPresent then return found else w.findRecord f.path
  else w.findRecord f.path

/-- The slot that a field gets, whether it is the default, and the heap with the default added. -/
def resolve (w : Workspace) (f : ContractField) : Outcome (Slot × Bool × Heap) := do
  let found ← w.source f
  if !found.isPresent && f.hasDefault then
    let (slot, heap) := w.heap.insert f.defaultValue
    return (slot, true, heap)
  else return (found, false, w.heap)

/-- What a field's transform does to a slot. A field without a transform does not look at it. A value that contains
itself cannot be looked at here (`Cause.endlessValue`): a transform that takes the text of it, with `{...}` for
what is inside itself, is outside the model. -/
def transform (h : Heap) (f : ContractField) (s : Slot) (settings : Entries) :
    Outcome Transformed := do
  match ← f.transform? with
  | none => return .kept
  | some t => return t.run (← h.toValue s) f.options settings

/-- Evaluate one field. -/
def step (settings : Entries) (w : Workspace) (f : ContractField) : Outcome (Workspace × Step) := do
  let (found, usedDefault, heap) ← w.resolve f
  let w := { w with heap := heap }
  if !found.isPresent then
    return (w, { field := f, usedDefault := usedDefault, missing := true })
  else
    let result ← transform heap f found settings
    let new : Slot :=
      match result with
      | .changed v => .leaf v
      | _ => found
    if new.isPresent then
      let heap ← heap.assign w.record f.path new
      return ({ w with heap := heap },
        { field := f, usedDefault := usedDefault, problem := result.problem, written := new })
    else
      return (w, { field := f, usedDefault := usedDefault, problem := result.problem })

/-- Evaluate fields in order. -/
def run (settings : Entries) (w : Workspace) : Contract → Outcome (Workspace × List Step)
  | [] => .ok (w, [])
  | f :: rest => do
    let (w, first) ← w.step settings f
    let (w, steps) ← run settings w rest
    return (w, first :: steps)

end Workspace

/-- The report on a field, its value being what the written slot has become. -/
def Step.report (h : Heap) (s : Step) : Outcome FieldReport := do
  return {
    path := s.field.path
    required := s.field.required
    source := s.field.source
    externalPath := s.field.payloadPath
    transform := s.field.transformName
    usedDefault := s.usedDefault
    missing := s.missing
    problem := s.problem
    value := ← h.toValue s.written }

/-- The paths of required fields that got no value. -/
def missingPaths (steps : List Step) : List String :=
  (steps.filter fun s => s.missing && s.field.required).map (·.field.path)

/-- Evaluate a contract on a payload. What is no object counts as an empty payload. -/
def evaluate (contract : Contract) (settings : Entries) (payload : Value) : Outcome Evaluation := do
  let (w, steps) ← (Workspace.ofPayload (payload.object?.getD [])).run settings contract
  return ⟨← w.data, ← steps.mapM (Step.report w.heap), missingPaths steps⟩

namespace FieldReport

/-- A report as a document. -/
def toValue (r : FieldReport) : Value :=
  .object [("path", .text r.path), ("required", .bool r.required), ("source", r.source),
    ("externalPath", r.externalPath), ("transform", r.transform),
    ("usedDefault", .bool r.usedDefault), ("missing", .bool r.missing), ("error", .text r.problem),
    ("value", r.value)]

end FieldReport

namespace Evaluation

/-- The messages of failed transforms. -/
def errors (e : Evaluation) : List String :=
  (e.fields.filter fun r => !r.problem.isEmpty).map fun r => r.path ++ ": " ++ r.problem

/-- An evaluation as a document. -/
def toValue (e : Evaluation) : Value :=
  .object [("data", e.data), ("fields", .list (e.fields.map FieldReport.toValue)),
    ("missingRequired", .list (e.missingRequired.map .text))]

end Evaluation

end Contract

namespace Template

/-- Evaluate the template's contract on a payload. -/
def evaluate (t : Template) (payload : Value) : Outcome Contract.Evaluation :=
  t.contract.evaluate t.settings payload

end Template

end Pagewright
