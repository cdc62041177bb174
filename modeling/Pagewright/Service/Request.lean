import Pagewright.Json.Reader
import Pagewright.Text.Scan

/-!
# Requests

A request has a method, a target and a body. The target is a path with an optional query; in both, `%`
and two hexadecimal digits stand for a byte of UTF-8.
-/

namespace Pagewright.Service

open Pagewright

/-- A request. The path and the query are in plain text. -/
structure Request where
  method : String
  path : String
  query : List (String × String) := []
  body : String := ""
  deriving Repr, DecidableEq

namespace Target

/-- The text of some bytes; what is no UTF-8 is replaced as a whole. -/
def bytesText (bytes : List Nat) : List Char :=
  if bytes.isEmpty then []
  else
    match String.fromUTF8? ⟨(bytes.map UInt8.ofNat).toArray⟩ with
    | some s => s.toList
    | none => ['\uFFFD']

/-- The byte that two hexadecimal digits after a percent sign stand for. -/
def byte? : List Char → Option Nat
  | a :: b :: _ => do return 16 * (← Json.hexValue? a) + (← Json.hexValue? b)
  | _ => none

/-- A text with its escapes decoded. `bytes` are those of the escapes just read, last first, and `skip`
counts digits of the last one still to pass over. -/
def decodeFrom (bytes : List Nat) : Nat → List Char → List Char
  | _, [] => bytesText bytes.reverse
  | skip + 1, _ :: rest => decodeFrom bytes skip rest
  | 0, c :: rest =>
    match (if c == '%' then byte? rest else none) with
    | some byte => decodeFrom (byte :: bytes) 2 rest
    | none => bytesText bytes.reverse ++ c :: decodeFrom [] 0 rest

/-- A text with its escapes decoded. -/
def decode (s : List Char) : List Char := decodeFrom [] 0 s

/-- The parts of a path without those that only point at a folder: one point at the folder itself, two at
the one above it. `kept` are the parts so far, last first. -/
def resolveDots (kept : List (List Char)) : List (List Char) → List (List Char)
  | [] => kept.reverse
  | part :: rest =>
    if part == ['.'] then resolveDots kept rest
    else if part == ['.', '.'] then
      resolveDots (if kept.isEmpty || kept == [[]] then kept else kept.tail) rest
    else resolveDots (part :: kept) rest

/-- One entry of a query. -/
def queryEntry (s : List Char) : String × String :=
  let plain (s : List Char) := String.ofList (decode (Text.replace ['+'] [' '] s))
  let key := s.takeWhile (· != '=')
  (plain key, plain (s.drop (key.length + 1)))

/-- The entries of a query. -/
def queryEntries (s : List Char) : List (String × String) :=
  ((Text.splitOn ['&'] s).filter fun entry => !entry.isEmpty).map queryEntry

/-- The path of a target and its query. A mark `#` ends the target. -/
def parse (target : String) : String × List (String × String) :=
  let s := target.toList.takeWhile (· != '#')
  let path := s.takeWhile (· != '?')
  let path := Text.join ['/'] (resolveDots [] (Text.splitOn ['/'] path))
  (String.ofList (decode path), queryEntries (s.drop ((s.takeWhile (· != '?')).length + 1)))

end Target

/-- The request for a target, with further entries of the query. -/
def Request.ofTarget (method target : String) (query : List (String × String)) (body : String) :
    Request :=
  let (path, own) := Target.parse target
  { method := method, path := path, query := own ++ query, body := body }

/-- The value of an entry of the query: the last one, where there are several. -/
def Request.parameter? (r : Request) (key : String) : Option String := r.query.reverse.lookup key

end Pagewright.Service
