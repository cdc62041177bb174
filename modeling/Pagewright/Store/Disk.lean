import Pagewright.Store.Audit

/-!
# Files of a store

The files under the folder of a store, by their paths in it, and the audit trail beside them. A file
holds text, or a document that was saved to it as JSON. Every change of a store is made of few kinds of
steps on its files (`Change`), each of which happens as a whole.
-/

namespace Pagewright

/-- What a file holds. -/
inductive Contents where
  /-- A document saved as JSON. -/
  | document (v : Value)
  | text (s : String)
  deriving Repr, Inhabited

namespace Contents

/-- The document in a file. Half a surrogate pair in one is outside the model. -/
def json : Contents → Outcome Value
  | document v => .ok v
  | text s =>
    match Json.read s with
    | .ok v => .ok v
    | .error e => undefinedOn (if e.fault = .unpairedSurrogate then .unpairedSurrogate else .notJson)

/-- The text of a file. -/
def toText : Contents → String
  | document v => Json.indented .unicode v
  | text s => s

end Contents

/-- The files of a store and its audit trail, if there is one yet. -/
structure Disk where
  files : List (String × Contents) := []
  audit : Option AuditTrail := none
  deriving Repr, Inhabited

/-- A step of a change. -/
inductive Change where
  /-- Write a document to a file. -/
  | write (path : String) (v : Value)
  /-- Give a file the path of another, which it replaces. -/
  | replace (source target : String)
  /-- Add an event to the audit trail. -/
  | record (event : Value)
  deriving Repr

namespace Disk

/-- What a file holds. -/
def find? (d : Disk) (path : String) : Option Contents := d.files.lookup path

/-- Put a file under a path: in place of the one there, else at the end. -/
def putFile : List (String × Contents) → String → Contents → List (String × Contents)
  | [], path, contents => [(path, contents)]
  | (p, c) :: rest, path, contents =>
    if p == path then (p, contents) :: rest else (p, c) :: putFile rest path contents

/-- Put a file under a path. -/
def put (d : Disk) (path : String) (contents : Contents) : Disk :=
  { d with files := putFile d.files path contents }

/-- Take a file away. -/
def remove (d : Disk) (path : String) : Disk :=
  { d with files := d.files.filter fun f => f.1 != path }

/-- The path of a file in a folder. -/
def inFolder (folder name : String) : String := folder ++ "/" ++ name

/-- The name of the file with a path, if the file is in the folder itself. -/
def nameIn? (folder path : String) : Option String :=
  match (folder ++ "/").toList.isPrefixOf? path.toList with
  | some name => if name.contains '/' then none else some (String.ofList name)
  | none => none

/-- The names of the files in a folder. -/
def names (d : Disk) (folder : String) : List String :=
  d.files.filterMap fun f => nameIn? folder f.1

/-- The name of the `n`-th temporary file. -/
def temporaryName (n : Nat) : String := "tmp" ++ toString n ++ ".json"

/-- A path in a folder for a temporary file that is not there yet. -/
def temporaryPath (d : Disk) (folder : String) : String :=
  let paths := (List.range (d.files.length + 1)).map fun n => inFolder folder (temporaryName n)
  (paths.find? fun path => (d.find? path).isNone).getD (inFolder folder (temporaryName 0))

/-- What a step does. Renaming a file that is not there does nothing. -/
def apply (d : Disk) : Change → Disk
  | .write path v => d.put path (.document v)
  | .replace source target =>
    match d.find? source with
    | some contents => (d.remove source).put target contents
    | none => d
  | .record event => { d with audit := some ((d.audit.getD {}).add event) }

end Disk

end Pagewright
