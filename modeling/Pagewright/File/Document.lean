import Pagewright.File.Folder
import Pagewright.Json.Reader
import Pagewright.Json.Writer
import Pagewright.Template.Reader
import Pagewright.Yaml.Writer

/-!
# Documents in files

A document is an object in a JSON file, or in a YAML file when the suffix says so. Templates and data
records are documents.

A document with half a surrogate pair in it is not loaded: what is done with it is outside the model, but for
the command that writes a document back. That one gets it with one stand-in for all surrogates
(`Folder.loadMarked`), since it breaks off where it comes to write one. Where surrogates are sorted, are told
apart or stand in an error message, their stand-in is no guide.
-/

namespace Pagewright

/-- The formats of documents. -/
inductive DocumentFormat where
  | json
  | yaml
  deriving Repr, DecidableEq

/-- Why a text is not read as a document. -/
inductive Unread where
  | malformed (reason : String)
  /-- It has half a surrogate pair. -/
  | unpairedSurrogate
  deriving Repr, DecidableEq

/-- Why a JSON text is not read. -/
def Unread.ofJson (e : Json.Error) : Unread :=
  if e.fault = .unpairedSurrogate then unpairedSurrogate else malformed e.message

/-- Why a YAML text is not read. -/
def Unread.ofYaml (fault : Yaml.Fault) : Unread :=
  if fault = .surrogate then unpairedSurrogate else malformed fault.message

namespace DocumentFormat

/-- The format that the suffix of a path stands for, in letters of any case. -/
def ofPath (path : String) : DocumentFormat :=
  if String.ofList (Text.lower (FilePath.suffix path).toList) ∈ [".yaml", ".yml"] then yaml else json

/-- The document that a YAML value is. Nothing is an empty document, and a text is read once more: the
text that comes out of it is a key without a value. -/
def ofYaml (v : Value) : Except Unread Value :=
  match v with
  | .null => .ok (.object [])
  | .text s =>
    match Yaml.read s with
    | .ok .null => .ok (.object [])
    | .ok (.text s) => .ok (.object [(s, .null)])
    | .ok (.object entries) => .ok (.object entries)
    | .ok (.list items) => .ok (.list items)
    | .ok _ => .error (.malformed "Invalid loaded object type")
    | .error e => .error (.ofYaml e)
  | .object entries => .ok (.object entries)
  | .list items => .ok (.list items)
  | _ => .error (.malformed "Invalid loaded object type")

/-- The value of a text, with a stand-in for every half of a surrogate pair in a JSON text. -/
def read (format : DocumentFormat) (standIn : Option Char) (text : String) : Except Unread Value :=
  let text := String.ofList (Text.unifyBreaks text.toList)
  match format with
  | json => (Json.readWith standIn text).mapError .ofJson
  | yaml => ((Yaml.read text).mapError .ofYaml) >>= ofYaml

/-- The text of a document. -/
def write (format : DocumentFormat) (document : Value) : String :=
  match format with
  | json => Json.indented .unicode document ++ "\n"
  | yaml => Yaml.write document

end DocumentFormat

namespace Folder

/-- The document in a file, with a stand-in for every half of a surrogate pair. -/
def loadWith (standIn : Option Char) (f : Folder) (path : String) : Outcome Entries :=
  let source := FilePath.normal path
  let unparsed (reason : String) := Failure.unreadable "Failed to parse document" source (some reason)
  match f.find? path with
  | none =>
    if f.isFolder path then .error (unparsed ("[Errno 21] Is a directory: " ++ Text.quoted source))
    else .error (.unreadable "Document not found" source none)
  | some text =>
    match (DocumentFormat.ofPath path).read standIn text with
    | .error .unpairedSurrogate => undefinedOn .unpairedSurrogate
    | .error (.malformed reason) => .error (unparsed reason)
    | .ok (.object entries) => .ok entries
    | .ok _ => .error (.unreadable "Document must contain a top-level object" source none)

/-- The document in a file. -/
def load (f : Folder) (path : String) : Outcome Entries := f.loadWith none path

/-- The document in a file, and the character that stands in it for halves of surrogate pairs, if there are any. -/
def loadMarked (f : Folder) (path : String) : Outcome (Entries × Option Char) :=
  match f.load path with
  | .error (.undefinedOn .unpairedSurrogate) => do
    let standIn := some (Json.unusedChar ((f.find? path).getD ""))
    return (← f.loadWith standIn path, standIn)
  | loaded => do return (← loaded, none)

/-- The template in a file. -/
def loadTemplate (f : Folder) (path : String) : Outcome Template := do
  Template.ofValue (.object (← f.load path))

/-- Save a document to a file. -/
def save (f : Folder) (path : String) (document : Value) : Outcome Folder :=
  f.write path ((DocumentFormat.ofPath path).write document)

end Folder

end Pagewright
