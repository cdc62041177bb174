import Pagewright.Failure
import Pagewright.Number.Reader
import Pagewright.Template.Style

/-!
# Elements

What a template puts on its pages. Every element has an id, a region, a place, a style, a condition
and a rule for the pages it repeats on; its content is text, flowing text, an image, a table, a code,
a line, a box, or the inclusion of a partial.

Fields that the document leaves free are kept as they stand there. A field that is missing or empty
is null.
-/

namespace Pagewright

/-- A column of a table. -/
structure TableColumn where
  field : String
  header : String
  w : Float
  align : Value
  format : Value
  precision : Option Int
  deriving Repr, Inhabited

/-- How a table goes on to further pages. -/
structure TablePagination where
  mode : Value
  rowHeight : Option Float
  deriving Repr, Inhabited

/-- A table bound to a list of rows. -/
structure Table where
  rows : Value
  columns : List TableColumn
  pagination : Option TablePagination
  rowStyle : Option Style
  headerStyle : Option Style
  fillMode : Value
  continuationY : Option Float
  continuationH : Option Float
  deriving Repr, Inhabited

/-- The content of an element. -/
inductive Content where
  | text (text : Value) (rich : Bool)
  | flowText (text : Value) (columns : Nat) (gap : Option Float)
  | image (src : Value) (fit : Value)
  | table (table : Table)
  | code (value : Value)
  | line
  | box
  | inclusion (ref : Value)
  deriving Repr, Inhabited

/-- An element of a template. -/
structure Element where
  id : String
  region : Value
  x : Float
  y : Float
  w : Float
  h : Float
  style : Option Style
  stylePreset : Value
  visibleIf : Value
  repeats : Value
  page : Option Nat
  zIndex : Option Int
  content : Content
  deriving Repr, Inhabited

/-- The kinds of elements by the names that documents use, in alphabetical order. -/
def elementKinds : List String :=
  ["box", "flowText", "image", "include", "line", "qr", "table", "text"]

namespace Content

/-- The name of a content's kind. -/
def kind : Content → String
  | text .. => "text"
  | flowText .. => "flowText"
  | image .. => "image"
  | table _ => "table"
  | code _ => "qr"
  | line => "line"
  | box => "box"
  | inclusion _ => "include"

/-- The fields of a content that may hold placeholders. -/
def bindingFields : Content → List Value
  | text t _ => [t]
  | flowText t _ _ => [t]
  | image src _ => [src]
  | table t => [t.rows]
  | code value => [value]
  | _ => []

/-- Whether a content is styled as text, over the default text style. -/
def isTextual : Content → Bool
  | text .. | flowText .. | table _ => true
  | _ => false

/-- The partial that a content includes. -/
def inclusion? : Content → Option Value
  | inclusion ref => some ref
  | _ => none

end Content

namespace Value

/-- Whether a value is the given text. -/
def isText (v : Value) (s : String) : Bool :=
  match v with
  | text t => t == s
  | _ => false

/-- A number as a double; a text is read, a boolean is 0 or 1. -/
def toFloat : Value → Outcome Float
  | int n =>
    match Binary64.ofInt? n with
    | some x => .ok x
    | none => undefinedOn .numberTooLarge
  | float x => .ok x
  | bool b => .ok (if b then 1 else 0)
  | text s =>
    match Numeral.float? s.toList with
    | some x => .ok x
    | none => undefinedOn (.wrongKind (text s))
  | v => undefinedOn (.wrongKind v)

end Value

namespace Table

/-- Whether rows that do not fit go on to the next page. -/
def isAuto (t : Table) : Bool :=
  match t.pagination with
  | some p => p.mode.isText "auto"
  | none => false

/-- Whether the last page is filled up with empty rows. -/
def padsRows (t : Table) : Bool := t.fillMode.isText "pad"

/-- The height of rows where nothing sets it. -/
def defaultRowHeight : Float := 14

/-- The height of a row: that of the pagination, else the line height of the row style, else the
default. -/
def rowHeight (t : Table) : Outcome Float :=
  match t.pagination.bind (·.rowHeight) with
  | some h => if h != 0 then .ok h else ofStyle
  | none => ofStyle
where
  /-- The line height of the row style. -/
  ofStyle : Outcome Float :=
    match t.rowStyle with
    | some s => if s.lineHeight.isGiven then s.lineHeight.toFloat else .ok defaultRowHeight
    | none => .ok defaultRowHeight

end Table

namespace Element

/-- The name of an element's kind. -/
def kind (e : Element) : String := e.content.kind

/-- The region of an element, the body when none is named. -/
def effectiveRegion (e : Element) : Value := e.region.orElse (.text "body")

/-- Whether an element is in the body. -/
def inBody (e : Element) : Bool := e.effectiveRegion.isText "body"

/-- The rule for repeating an element where it names none: flowing text and elements of the bands are
on all pages, others on the first. -/
def defaultRepeat (e : Element) : String :=
  match e.content with
  | .flowText .. => "all"
  | _ => if e.inBody then "first" else "all"

/-- The rule for the pages that an element is on. -/
def effectiveRepeat (e : Element) : Value := e.repeats.orElse (.text e.defaultRepeat)

/-- Whether an element includes a partial. -/
def isInclusion (e : Element) : Bool := e.content.inclusion?.isSome

end Element

end Pagewright
