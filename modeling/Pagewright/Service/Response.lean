import Pagewright.Value
import Pagewright.Number.Binary64

/-!
# Responses

What a request is answered with. JSON has no numerals for infinities and NaN; null stands for them.
-/

namespace Pagewright.Service

open Pagewright

/-- An answer to a request. -/
inductive Response where
  /-- A document with a status. -/
  | json (status : Nat) (body : Value)
  /-- The places of a body that are wrong. -/
  | invalid (places : List String)
  | markup (text : String)
  /-- A finished document in a file. -/
  | file (path : String)
  /-- The service itself went wrong. -/
  | broken
  deriving Repr

namespace Response

/-- The status code of a response. -/
def status : Response → Nat
  | json status _ => status
  | invalid _ => 422
  | markup _ => 200
  | file _ => 200
  | broken => 500

mutual

/-- A value as a response can hold it. -/
def sendable : Value → Value
  | .float x =>
    match Binary64.decode x with
    | .finite _ => .float x
    | _ => .null
  | .list items => .list (sendableItems items)
  | .object entries => .object (sendableEntries entries)
  | v => v

/-- Items as a response can hold them. -/
def sendableItems : List Value → List Value
  | [] => []
  | v :: rest => sendable v :: sendableItems rest

/-- Entries as a response can hold them. -/
def sendableEntries : List (String × Value) → List (String × Value)
  | [] => []
  | (k, v) :: rest => (k, sendable v) :: sendableEntries rest

end

/-- A response with one entry. -/
def entry (status : Nat) (key : String) (v : Value) : Response :=
  json status (.object [(key, sendable v)])

/-- A refusal with its reason. -/
def detail (status : Nat) (text : String) : Response := entry status "detail" (.text text)

/-- The refusal of a final document without required data. -/
def missing (paths : List String) : Response :=
  json 422 (.object [("error", .text "Missing required fields"),
    ("missingRequired", .list (paths.map .text))])

end Response

end Pagewright.Service
