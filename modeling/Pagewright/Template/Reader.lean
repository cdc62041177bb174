import Pagewright.Template.Basic

/-!
# Reading templates

A template document is checked while it is read: objects, lists and numbers must be where they belong,
and a fault is reported with its place. Parts are read in a fixed order, partials and styles first, so
the first fault is well defined.
-/

namespace Pagewright

namespace Reading

/-- A fault at a place of the document. -/
def fault (problem location : String) : Outcome α := .error (.malformedTemplate problem (some location))

/-- A number; null and a blank text are the default. -/
def number (v : Value) (location : String) (default : Float) : Outcome Float :=
  let bad : Outcome Float := fault ("Expected a number, got " ++ v.quoted) location
  match v with
  | .null => .ok default
  | .int n =>
    match Binary64.ofInt? n with
    | some x => .ok x
    | none => undefinedOn .numberTooLarge
  | .float x => .ok x
  | .text s =>
    if Text.isBlankText s then .ok default
    else
      match Numeral.float? s.toList with
      | some x => .ok x
      | none => bad
  | _ => bad

/-- A number that may be missing. -/
def number? (v : Value) (location : String) : Outcome (Option Float) :=
  if v.isNull then .ok none else do return some (← number v location 0)

/-- An object that may be missing. -/
def mapping (v : Value) (location : String) : Outcome Entries :=
  match v with
  | .null => .ok []
  | .object entries => .ok entries
  | v => fault ("Expected an object, got " ++ v.quoted) location

/-- A list that may be missing. -/
def list (v : Value) (location : String) : Outcome (List Value) :=
  match v with
  | .null => .ok []
  | .list items => .ok items
  | v => fault ("Expected a list, got " ++ v.quoted) location

/-- The page that an element or the length of a document is pinned to. What is no number of at least 1
pins nothing. -/
def pin (v : Value) : Outcome (Option Nat) := do
  let x? : Option Float ←
    match v with
    | .int n =>
      match Binary64.ofInt? n with
      | some x => pure (some x)
      | none => undefinedOn .numberTooLarge
    | .float x => pure (some x)
    | .text s => pure (Numeral.float? s.toList)
    | _ => pure none
  match x? with
  | none => return none
  | some x => return if x < 1 then none else (Binary64.truncate? x).map Int.toNat

/-- A whole number that is no boolean. -/
def whole? : Value → Option Int
  | .int n => some n
  | _ => none

/-- A value as text, empty when it does not count as given. -/
def textOf (v : Value) : String := if v.isGiven then v.display else ""

/-- A value that counts as given, else null. -/
def orNull (v : Value) : Value := v.orElse .null

/-- Items with their positions, read one by one. -/
def each (read : Nat → α → Outcome β) : Nat → List α → Outcome (List β)
  | _, [] => .ok []
  | i, a :: rest => do
    let b ← read i a
    return b :: (← each read (i + 1) rest)

/-- The place of an item. -/
def item (location : String) (i : Nat) : String := location ++ "[" ++ toString i ++ "]"

/-- A page. -/
def page (v : Value) : Outcome PageSpec :=
  match v with
  | .object raw => do
    let field (key : String) : Outcome Float := number (Entries.get raw key) ("page." ++ key) 0
    let margins ← mapping (Entries.get raw "margin") "page.margin"
    let margin (key : String) : Outcome Float :=
      number (Entries.get margins key) ("page.margin." ++ key) 0
    let top ← margin "top"
    let right ← margin "right"
    let bottom ← margin "bottom"
    let left ← margin "left"
    if (Entries.get raw "width").isNull || (Entries.get raw "height").isNull then
      fault "Page width and height are required" "page"
    else
      let width ← field "width"
      let height ← field "height"
      let headerHeight ← field "headerHeight"
      let footerHeight ← field "footerHeight"
      return ⟨width, height, ⟨top, right, bottom, left⟩, headerHeight, footerHeight⟩
  | _ => fault "Template is missing a 'page' object" "page"

/-- A font. -/
def font (raw : Entries) (location : String) : Outcome Font := do
  return {
    name := ((Entries.find? raw "name").getD (.text "")).display
    source := ((Entries.find? raw "source").getD (.text "local")).display
    url := Entries.get raw "url"
    data := Entries.get raw "data"
    fallback := ← list (Entries.get raw "fallback") (location ++ ".fallback") }

/-- A column of a table. -/
def column (raw : Entries) (location : String) : Outcome TableColumn := do
  return {
    field := textOf (Entries.get raw "field")
    header := textOf (Entries.get raw "header")
    w := ← number (Entries.get raw "w") (location ++ ".w") 0
    align := (Entries.get raw "align").orElse (.text "left")
    format := Entries.get raw "format"
    precision := whole? (Entries.get raw "precision") }

/-- The columns among the items of a list. Items that are no objects are passed over. -/
def columns (items : List Value) (location : String) : Outcome (List TableColumn) := do
  let read (i : Nat) : Value → Outcome (Option TableColumn)
    | .object raw => do return some (← column raw (item location i))
    | _ => .ok none
  return (← each read 0 items).filterMap id

/-- The content of a table element. -/
def table (raw : Entries) (location : String) : Outcome Table := do
  let columns ←
    match (Entries.get raw "columns").orElse (.list []) with
    | .list items => columns items (location ++ ".columns")
    | _ => fault "Table columns must be a list" (location ++ ".columns")
  let pagination ←
    match Entries.get raw "pagination" with
    | .object p => do
      let rowHeight ← number? (Entries.get p "rowHeight") (location ++ ".pagination.rowHeight")
      pure (some ⟨(Entries.get p "mode").orElse (.text "none"), rowHeight⟩)
    | _ => pure none
  return {
    rows := (Entries.get raw "rows").orElse (.text "")
    columns := columns
    pagination := pagination
    rowStyle := Style.ofValue? (Entries.get raw "rowStyle")
    headerStyle := Style.ofValue? (Entries.get raw "headerStyle")
    fillMode := Entries.get raw "fillMode"
    continuationY := ← number? (Entries.get raw "continuationY") (location ++ ".continuationY")
    continuationH := ← number? (Entries.get raw "continuationH") (location ++ ".continuationH") }

/-- The number of columns of flowing text, at least one. -/
def flowColumns (v : Value) (location : String) : Outcome Nat := do
  match Binary64.truncate? (← number v location 1) with
  | some n => return max 1 n.toNat
  | none => undefinedOn .notFinite

/-- The content of an element of a kind. -/
def content (kind : String) (raw : Entries) (location : String) : Outcome Content :=
  let textual (key : String) : Value := (Entries.get raw key).orElse (.text "")
  match kind with
  | "text" => .ok (.text (textual "text") (Entries.get raw "richText").isGiven)
  | "flowText" => do
    let columns ← flowColumns (Entries.get raw "columns") (location ++ ".columns")
    let gap ← number? (Entries.get raw "gap") (location ++ ".gap")
    return .flowText (textual "text") columns gap
  | "image" => .ok (.image (textual "src") ((Entries.get raw "fit").orElse (.text "contain")))
  | "table" => do return .table (← table raw location)
  | "qr" => .ok (.code (textual "value"))
  | "line" => .ok .line
  | "include" => .ok (.inclusion (textual "ref"))
  | _ => .ok .box

/-- The kind that an element names. -/
def kindOf (v : Value) (location : String) : Outcome String :=
  let unknown : Outcome String :=
    fault ("Unknown element type " ++ v.quoted ++ ". Expected one of " ++
      Text.quotedList elementKinds) location
  match v with
  | .text s => if elementKinds.contains s then .ok s else unknown
  | v => if v.isContainer then undefinedOn (.notAKey v) else unknown

/-- An element. A style that is a text names a preset. -/
def element (v : Value) (location : String) : Outcome Element :=
  match v with
  | .object raw => do
    let field (key : String) : Outcome Float :=
      number (Entries.get raw key) (location ++ "." ++ key) 0
    let kind ← kindOf (Entries.get raw "type") location
    let style := Entries.get raw "style"
    let x ← field "x"
    let y ← field "y"
    let w ← field "w"
    let h ← field "h"
    let page ← pin (Entries.get raw "page")
    let content ← content kind raw location
    return {
      id := textOf (Entries.get raw "id")
      region := orNull (Entries.get raw "region")
      x := x
      y := y
      w := w
      h := h
      style := Style.ofValue? style
      stylePreset := if style.text?.isSome then style else Entries.get raw "stylePreset"
      visibleIf := orNull (Entries.get raw "visibleIf")
      repeats := orNull (Entries.get raw "repeat")
      page := page
      zIndex := whole? (Entries.get raw "zIndex")
      content := content }
  | _ => fault "Element must be an object" location

/-- A list of elements that may be missing. -/
def elements (v : Value) (location : String) : Outcome (List Element) :=
  match v with
  | .null => .ok []
  | .list items => each (fun i v => element v (item location i)) 0 items
  | _ => fault "Elements must be a list" location

/-- A partial. What is no object has no elements. -/
def partialNamed (name : String) (v : Value) : Outcome (List Element) :=
  elements (Entries.get (v.object?.getD []) "elements") ("partials." ++ name ++ ".elements")

/-- A field of a contract. -/
def contractField (raw : Entries) : ContractField where
  path := textOf (Entries.get raw "path")
  required := (Entries.get raw "required").isGiven
  type := (Entries.get raw "type").orElse (.text "string")
  source := (Entries.get raw "source").orElse (.text "external")
  externalPath := orNull (Entries.get raw "externalPath")
  defaultValue := Entries.get raw "defaultValue"
  hasDefault := Entries.has raw "defaultValue"
  transform := (Entries.get raw "transform").orElse (.text "none")
  locale := orNull (Entries.get raw "transformLocale")
  currency := orNull (Entries.get raw "transformCurrency")
  dateStyle := orNull (Entries.get raw "transformDateStyle")

/-- A contract. Fields without a path are passed over, and what is no contract has no fields. -/
def contract (v : Value) : Contract :=
  match v with
  | .object raw =>
    match Entries.get raw "fields" with
    | .list items =>
      items.filterMap fun
        | .object f => if (Entries.get f "path").isGiven then some (contractField f) else none
        | _ => none
    | _ => []
  | _ => []

/-- The fonts among the items of a list. -/
def fonts (items : List Value) : Outcome (List Font) := do
  let read (i : Nat) : Value → Outcome (Option Font)
    | .object raw => do return some (← font raw (item "fonts" i))
    | _ => .ok none
  return (← each read 0 items).filterMap id

end Reading

open Reading in
/-- The template that a document describes. -/
def Template.ofValue (v : Value) : Outcome Template :=
  match v with
  | .object raw => do
    let partials ←
      match (Entries.get raw "partials").orElse (.object []) with
      | .object ps => ps.mapM fun (name, v) => do return (name, ← partialNamed name v)
      | _ => fault "Partials must be an object" "partials"
    let styles ← mapping (Entries.get raw "styles") "styles"
    let pageCount ← pin (Entries.get raw "pageCount")
    let page ← Reading.page (Entries.get raw "page")
    let fonts ← Reading.fonts (← list (Entries.get raw "fonts") "fonts")
    let elements ← Reading.elements (Entries.get raw "elements") "elements"
    let settings ← mapping (Entries.get raw "variables") "variables"
    return {
      page := page
      id := textOf (Entries.get raw "id")
      name := textOf (Entries.get raw "name")
      version := Entries.get raw "version"
      unit := (Entries.get raw "unit").orElse (.text "pt")
      fonts := fonts
      styles := styles.filterMap fun (name, v) => (Style.ofValue? v).map fun s => (name, s)
      contract := Reading.contract (Entries.get raw "dataContract")
      elements := elements
      partials := partials
      settings := settings
      pageCount := pageCount }
  | _ => .error (.malformedTemplate "Template document must be an object" none)

end Pagewright
