import Pagewright.Layout.Cell
import Pagewright.Layout.FlowPages
import Pagewright.Layout.TablePages
import Pagewright.Template.Expansion
import Pagewright.Template.Reader

/-!
# Assembling a document

Lays a template out over its data. First every table and flowing text of the body is dealt out to pages
(`Paging`), which settles the number of pages: the most that any of them, a pin or the template itself
asks for. Then each page gets the boxes of the elements that are shown on it.

Elements whose condition does not hold are left out of both steps, unless conditions are switched off.
-/

namespace Pagewright

/-- How an element is spread over the pages. -/
inductive Paging where
  | scheduled
  | table (table : Table) (pages : TablePages)
  | flow (pages : FlowPages)
  deriving Repr

namespace Layout

/-- The region of an element, if the page has it. -/
def regionOf? (e : Element) : Option Region := e.effectiveRegion.text?.bind Region.ofName?

/-- Whether an element is shown. -/
def isShown (evaluate : Bool) (data : Value) (e : Element) : Logged Bool :=
  if evaluate then Condition.showsLogged e.visibleIf data else pure true

/-- Whether an element takes part in dealing out the body. -/
def isInBody (evaluate : Bool) (data : Value) (e : Element) : Logged Bool :=
  if e.inBody && !e.isInclusion then isShown evaluate data e else pure false

/-- How an element of the body is spread over the pages; `others` are all elements of the body. -/
def pagingOf (t : Template) (data : Value) (others : List Element) (e : Element) : Outcome Paging :=
  let body := t.page.rect .body
  match e.content with
  | .table table =>
    if table.isAuto then do return .table table (← TablePages.ofTable e table data body.h others)
    else .ok .scheduled
  | .flowText text columns gap => do
    return .flow (← FlowPages.ofFlow e text columns gap data t body.w body.h)
  | _ => .ok .scheduled

/-- The pages of the document that an element needs for its spread. -/
def pagesNeeded (e : Element) : Paging → Nat
  | .scheduled => 0
  | .table _ pages => pages.pages.length
  | .flow pages => (e.rule.pagesNeeded pages.pages.length).toNat

/-- The elements of a document with their spread, and the number of pages. -/
structure Plan where
  elements : List (Element × Paging)
  pageCount : Nat
  deriving Repr

/-- The number of pages: the template's own, or the most that an element needs or is pinned to; never
less than one. -/
def countPages (t : Template) (elements : List (Element × Paging)) : Nat :=
  let needs := elements.map fun (e, paging) => pagesNeeded e paging
  let pins := elements.filterMap fun (e, _) => e.page
  (needs ++ pins).foldl max (max 1 (t.pageCount.getD 1))

/-- Deal out the body. -/
def plan (t : Template) (data : Value) (evaluate : Bool) (elements : List Element) : Logged Plan := do
  let flags ← elements.mapM (isInBody evaluate data)
  let marked := elements.zip flags
  let body := (marked.filter (·.2)).map (·.1)
  let pagings ← liftM (marked.mapM fun (e, inBody) =>
    if inBody then pagingOf t data body e else pure .scheduled)
  let planned := elements.zip pagings
  return ⟨planned, countPages t planned⟩

/-- The box of an element in its own place. -/
def baseBox (t : Template) (region : Region) (e : Element) (content : BoxContent) : Outcome Box := do
  return {
    id := e.id
    kind := e.kind
    region := region
    x := e.x
    y := e.y
    w := e.w
    h := e.h
    style := ← t.resolveStyle e e.content.isTextual
    zIndex := e.zIndex
    content := content }

/-- The cell texts of a row. -/
def cellsOf (t : Template) (table : Table) (row : Value) : Outcome (List String) :=
  table.columns.mapM fun c => do c.cellText (← row.find c.field) t.settings

/-- A table with the given rows. -/
def tableBox (t : Template) (table : Table) (rows : List Value) (padding : Nat) (rowHeight : Float) :
    Outcome TableBox := do
  return {
    columns := table.columns
    headerStyle := t.defaultTextStyle.under table.headerStyle
    rowStyle := t.defaultTextStyle.under table.rowStyle
    rowHeight := rowHeight
    cells := ← rows.mapM (cellsOf t table)
    padding := padding }

/-- The empty rows of a table on a single page. -/
def paddingOf (e : Element) (table : Table) (rowHeight : Float) (rows : Nat) : Outcome Nat :=
  if table.padsRows && e.h > rowHeight then do return (← Table.capacity e.h rowHeight) - rows
  else .ok 0

/-- The content of the box of an element that is scheduled like any other. -/
def contentOf (t : Template) (data : Value) (page : PageContext) (e : Element) :
    Outcome BoxContent :=
  match e.content with
  | .text text rich => do return .text (← Binding.substituteValue text data page) rich
  | .flowText text _ _ => do return .text (← Binding.substituteValue text data page) false
  | .image src fit => do return .image (← Binding.substituteValue src data page) fit
  | .code value => do return .code (← Binding.substituteValue value data page)
  | .table table => do
    let rows ← table.rowsIn data
    let rowHeight ← table.rowHeight
    let padding ← paddingOf e table rowHeight rows.length
    return .table (← tableBox t table rows padding rowHeight)
  | _ => .ok .blank

/-- The box of a table on a page of its spread, if it goes on so far. The first page has the element's
place, later pages the place of continuations. -/
def tablePageBox (t : Template) (region : Region) (e : Element) (table : Table) (pages : TablePages)
    (page : Nat) : Outcome (List Box) :=
  match pages.pages[page]? with
  | none => .ok []
  | some slice => do
    let content ← tableBox t table slice.rows slice.padding pages.rowHeight
    let box ← baseBox t region e (.table content)
    let (y, h) :=
      if page = 0 then (e.y, if e.h > 0 then e.h else pages.firstAvailable)
      else
        (table.continuationY.getD e.y,
          match table.continuationH with
          | some h => if h > 0 then h else pages.otherAvailable
          | none => pages.otherAvailable)
    return [{ box with y := y, h := h }]

/-- The box of one column of a flowing text. -/
def columnBox (t : Template) (region : Region) (e : Element) (flow : FlowPages) (column : Nat)
    (text : String) : Outcome Box := do
  let box ← baseBox t region e (.text text false)
  let step := flow.columnWidth + (← flow.gap.toNumber)
  return { box with
    id := e.id ++ "__c" ++ toString column
    x := e.x + (← (Value.int column).toNumber) * step
    w := flow.columnWidth
    h := flow.flowHeight }

/-- The boxes of a flowing text on a page of the document. -/
def flowPageBoxes (t : Template) (region : Region) (e : Element) (flow : FlowPages)
    (page count : Nat) : Outcome (List Box) :=
  match e.rule.flowPage? page count flow.pages.length with
  | none => .ok []
  | some i =>
    Reading.each (fun column text => columnBox t region e flow column text) 0 (flow.pages.getD i [])

/-- The boxes of an element that is shown, on a page. -/
def boxesOf (t : Template) (data : Value) (count page : Nat) (region : Region) (e : Element)
    (paging : Paging) : Outcome (List Box) :=
  match paging with
  | .table table pages => tablePageBox t region e table pages page
  | .flow flow => flowPageBoxes t region e flow page count
  | .scheduled =>
    if e.isOnPage page count then do
      let content ← contentOf t data ⟨page + 1, count⟩ e
      return [← baseBox t region e content]
    else .ok []

/-- The boxes of an element on a page with their region. -/
def placeElement (t : Template) (data : Value) (evaluate : Bool) (count page : Nat) (e : Element)
    (paging : Paging) : Logged (List Box) :=
  match regionOf? e with
  | none => pure []
  | some region => do
    if e.isInclusion then return []
    else if ← isShown evaluate data e then liftM (boxesOf t data count page region e paging)
    else return []

/-- The boxes of a region. -/
def inRegion (region : Region) (boxes : List Box) : List Box :=
  boxes.filter fun b => b.region == region

/-- A page of the document. -/
def assemblePage (t : Template) (data : Value) (evaluate : Bool) (plan : Plan) (page : Nat) :
    Logged PageLayout := do
  let parts ← plan.elements.mapM fun (e, paging) =>
    placeElement t data evaluate plan.pageCount page e paging
  let boxes := parts.flatten
  return ⟨page + 1, inRegion .header boxes, inRegion .body boxes, inRegion .footer boxes⟩

/-- Put a number into an ascending list without repetition. -/
def insertPage (p : Nat) : List Nat → List Nat
  | [] => [p]
  | q :: rest => if p < q then p :: q :: rest else if p = q then q :: rest else q :: insertPage p rest

/-- The pages to assemble: all, or those asked for that exist, in order. -/
def wanted (count : Nat) : Option (List Int) → List Nat
  | none => List.range count
  | some asked =>
    ((asked.filter fun p => 0 ≤ p && p < (count : Int)).map Int.toNat).foldr insertPage []

/-- Lay out a document. The number of pages does not depend on the pages asked for. -/
def assemble (t : Template) (data : Value) (evaluate : Bool) (pages : Option (List Int)) :
    Logged DocumentLayout := do
  let elements ← t.expandLogged
  let plan ← plan t data evaluate elements
  let assembled ← (wanted plan.pageCount pages).mapM (assemblePage t data evaluate plan)
  Logged.say .debug ("[render] Assembled " ++ toString assembled.length ++ " of " ++
    toString plan.pageCount ++ " page(s)")
  return ⟨t.page, t.fonts, plan.pageCount, assembled⟩

end Layout

end Pagewright
