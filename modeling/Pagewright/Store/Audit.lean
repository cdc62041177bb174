import Pagewright.Failure
import Pagewright.Json.Reader
import Pagewright.Json.Writer

/-!
# The audit trail

An audit trail is a text file to which every change adds one line, the event as JSON. Lines may also
come from elsewhere, whole or cut short; a line that is no JSON is passed over when the trail is read.

A line that the trail wrote itself is kept as the event in it. An event that is added behind an
unfinished line continues that line, so the two are one line then and are read as one.
-/

namespace Pagewright

/-- A line of an audit trail. -/
inductive AuditLine where
  /-- An event written by the trail. -/
  | event (v : Value)
  /-- A line written by someone else. -/
  | raw (text : String)
  deriving Repr, Inhabited

/-- An audit trail: its lines, and what follows the last line break. -/
structure AuditTrail where
  lines : List AuditLine := []
  unfinished : String := ""
  deriving Repr, Inhabited

namespace AuditLine

/-- The text of a line. -/
def text : AuditLine → String
  | event v => Json.compact v
  | raw text => text

/-- What a text without blanks around it is read as. Half a surrogate pair, which only others write to a
trail and no text can hold, is read as U+FFFD: which one it was is outside the model. -/
def readJson (text : String) : Except Json.Error Value := Json.readWith (some '\uFFFD') text

/-- The value that a line of text holds, if it is JSON. -/
def valueOfText (text : String) : Outcome (Option Value) :=
  let s := Text.trimmed text
  if s.isEmpty then .ok none
  else
    match readJson s with
    | .ok v => .ok (some v)
    | .error e => if e.fault = .longNumber then undefinedOn .notJson else .ok none

/-- The value that a line holds, if it is JSON. -/
def value : AuditLine → Outcome (Option Value)
  | event v => .ok (some v)
  | raw text => valueOfText text

end AuditLine

namespace AuditTrail

/-- Whether a character ends a line. -/
def isBreak (c : Char) : Bool := c == '\n' || c == '\r'

/-- The lines of a text and what follows the last line break; `read` is the line under way, last
character first. -/
def splitLines (read : List Char) : List Char → List String × String
  | [] => ([], String.ofList read.reverse)
  | c :: rest =>
    if isBreak c then
      let (lines, unfinished) := splitLines [] rest
      (String.ofList read.reverse :: lines, unfinished)
    else splitLines (c :: read) rest

/-- Add text as it is. -/
def addText (t : AuditTrail) (text : String) : AuditTrail :=
  let (lines, unfinished) := splitLines [] (t.unfinished ++ text).toList
  ⟨t.lines ++ lines.map AuditLine.raw, unfinished⟩

/-- The trail that a text is. -/
def ofText (text : String) : AuditTrail := addText {} text

/-- Add an event as a line. -/
def add (t : AuditTrail) (event : Value) : AuditTrail :=
  if t.unfinished.isEmpty then ⟨t.lines ++ [AuditLine.event event], ""⟩
  else ⟨t.lines ++ [AuditLine.raw (t.unfinished ++ Json.compact event)], ""⟩

/-- The text of a trail. -/
def text (t : AuditTrail) : String :=
  String.join (t.lines.map fun line => line.text ++ "\n") ++ t.unfinished

/-- The values in the lines of a trail, oldest first. -/
def values (t : AuditTrail) : Outcome (List Value) := do
  return (← (t.lines ++ [AuditLine.raw t.unfinished]).mapM AuditLine.value).filterMap id

/-- Whether an event has a value under a key. A value that is no object has no keys. -/
def hasField (key : String) (wanted : Value) : Value → Outcome Bool
  | .object event => .ok ((Entries.get event key).same wanted)
  | v => undefinedOn (.wrongKind v)

/-- The values with the wanted value under a key; all of them if none is wanted. -/
def select (key : String) (wanted : Value) (values : List Value) : Outcome (List Value) :=
  if wanted.isGiven then values.filterM (hasField key wanted) else .ok values

/-- The events of a template with an action, oldest first. An empty template or action stands for
all. -/
def events (t : AuditTrail) (template action : Value) : Outcome (List Value) := do
  select "action" action (← select "template_id" template (← t.values))

end AuditTrail

/-- An event of an audit trail. -/
structure AuditEvent where
  action : String
  templateId : Value
  actor : Value
  versionId : Value := .null
  before : Value := .null
  after : Value := .null
  /-- Further fields of the event. -/
  extra : Entries := []
  deriving Repr, Inhabited

namespace AuditEvent

/-- An event as a document, with its id and time. -/
def toValue (e : AuditEvent) (id time : String) : Value :=
  let own : Entries := [("id", .text id), ("timestamp", .text time), ("action", .text e.action),
    ("template_id", e.templateId), ("actor_id", e.actor), ("version_id", e.versionId),
    ("before", e.before), ("after", e.after)]
  .object (e.extra.foldl (fun entries (key, v) => Entries.set entries key v) own)

/-- Whether an event has an action that is recorded. -/
def check (e : AuditEvent) : Outcome Unit :=
  if auditActions.contains e.action then .ok () else .error (.unknownAction e.action)

end AuditEvent

end Pagewright
