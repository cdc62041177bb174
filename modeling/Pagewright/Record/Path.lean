import Pagewright.Failure
import Pagewright.Number.Reader
import Pagewright.Text.Scan

/-!
# Data paths

A path is a text such as `items[0].sku` that names a place in a data record. `Path.segments` brings
it into the form of non-empty segments, where `a[b]` and `a.b` are the same; `Value.find` reads the
place and `Value.assign` writes it, making objects on the way where there is no list or object.

Lists are entered by existing positions only: a write that meets a list at any other segment leaves
the record as it is.
-/

namespace Pagewright

namespace Path

open Pagewright.Text

/-- Whether a text continues with word characters and a closing bracket. -/
def closesWord (s : List Char) : Bool :=
  match s with
  | c :: _ => isWord c && (s.dropWhile isWord).head? == some ']'
  | [] => false

/-- Bracketed words as dotted ones: `a[b]` becomes `a.b`. Inside a bracketed word the next closing
bracket is dropped; brackets around anything else stay. -/
def unbracket (inside : Bool) : List Char → List Char
  | [] => []
  | c :: rest =>
    if inside then
      if c == ']' then unbracket false rest else c :: unbracket true rest
    else if c == '[' && closesWord rest then '.' :: unbracket true rest
    else c :: unbracket false rest

/-- The segments of a path. None of them is empty. -/
def pieces (path : List Char) : List (List Char) :=
  (splitOn ['.'] (unbracket false path)).filter fun piece => !piece.isEmpty

/-- The segments of a path. None of them is empty. -/
def segments (path : String) : List String := (pieces path.toList).map String.ofList

/-- The position that a segment stands for in a list, if it is made of digits. Digits in the wide
sense that are no decimal digits have no position. -/
def index? (segment : String) : Outcome (Option Nat) :=
  let s := segment.toList
  if s.isEmpty || !s.all isDigit then .ok none
  else
    match Numeral.natural? s with
    | none => undefinedOn (.notAnIndex segment)
    | some n => if s.length ≤ Numeral.digitLimit then .ok (some n) else undefinedOn (.longIndex s.length)

end Path

namespace Value

/-- The part of a value under one segment; null when there is none. -/
def child (v : Value) (segment : String) : Outcome Value :=
  match v with
  | object entries => .ok (Entries.get entries segment)
  | list items => do
    match ← Path.index? segment with
    | some i => return items.getD i null
    | none => return null
  | _ => .ok null

/-- The value under a sequence of segments; null where the record does not reach that far. -/
def walk (v : Value) : List String → Outcome Value
  | [] => .ok v
  | segment :: rest =>
    if v.isNull then .ok null
    else do walk (← v.child segment) rest

/-- The value at a path. A path without segments names nothing. -/
def find (v : Value) (path : String) : Outcome Value :=
  match Path.segments path with
  | [] => .ok null
  | segments => v.walk segments

/-- A value to go on writing in: itself if it is a list or an object, else a new object. -/
def asContainer (v : Value) : Value := if v.isContainer then v else object []

/-- Write under a sequence of segments. -/
def assignAt (v : Value) (new : Value) : List String → Outcome Value
  | [] => .ok v
  | [segment] =>
    match v with
    | list items => do
      match ← Path.index? segment with
      | some i => return if i < items.length then list (items.set i new) else v
      | none => return v
    | object entries => .ok (object (Entries.set entries segment new))
    | _ => .ok v
  | segment :: rest =>
    match v with
    | list items => do
      match ← Path.index? segment with
      | some i =>
        match items[i]? with
        | some item => return list (items.set i (← assignAt item.asContainer new rest))
        | none => return v
      | none => return v
    | object entries => do
      return object (Entries.set entries segment (← assignAt (Entries.get entries segment).asContainer new rest))
    | v => undefinedOn (.wrongKind v)

/-- Write at a path. -/
def assign (v : Value) (path : String) (new : Value) : Outcome Value :=
  assignAt v new (Path.segments path)

/-- Whether a value is worth showing: null and the empty text are not. -/
def isPresent : Value → Bool
  | null => false
  | text s => !s.isEmpty
  | _ => true

end Value

end Pagewright
