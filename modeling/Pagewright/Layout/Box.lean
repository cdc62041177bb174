import Pagewright.Template.Basic

/-!
# Boxes

The result of laying out a document: for every page, the boxes of each region in drawing order, with
their place in the region, their style and their content.
-/

namespace Pagewright

/-- A table on one page: its columns, styles and rows of cell texts, and empty rows after them. -/
structure TableBox where
  columns : List TableColumn
  headerStyle : Style
  rowStyle : Style
  rowHeight : Float
  cells : List (List String)
  padding : Nat
  deriving Repr, Inhabited

/-- The content of a box. -/
inductive BoxContent where
  | text (text : String) (rich : Bool)
  | image (src : String) (fit : Value)
  | code (value : String)
  | table (table : TableBox)
  | blank
  deriving Repr, Inhabited

/-- A positioned element on a page. -/
structure Box where
  id : String
  kind : String
  region : Region
  x : Float
  y : Float
  w : Float
  h : Float
  style : Style
  zIndex : Option Int
  content : BoxContent
  deriving Repr

/-- The boxes of a page by region. -/
structure PageLayout where
  number : Nat
  header : List Box := []
  body : List Box := []
  footer : List Box := []
  deriving Repr

/-- A document laid out. -/
structure DocumentLayout where
  page : PageSpec
  fonts : List Font
  pageCount : Nat
  pages : List PageLayout
  deriving Repr

namespace TableBox

/-- A column as a document. -/
def columnValue (c : TableColumn) : Value :=
  .object [("field", .text c.field), ("header", .text c.header), ("w", .float c.w),
    ("align", c.align), ("format", c.format),
    ("precision", (c.precision.map Value.int).getD .null)]

/-- A table as a document. -/
def toValue (t : TableBox) : Value :=
  .object [("columns", .list (t.columns.map columnValue)),
    ("header_style", .object t.headerStyle.toEntries), ("row_style", .object t.rowStyle.toEntries),
    ("row_height", .float t.rowHeight),
    ("cells", .list (t.cells.map fun row => .list (row.map .text))),
    ("padding", .int t.padding)]

end TableBox

namespace Box

/-- The text of a box. -/
def text? (b : Box) : Option String :=
  match b.content with
  | .text t _ => some t
  | _ => none

/-- Whether the text of a box is markup. -/
def isRich (b : Box) : Bool :=
  match b.content with
  | .text _ rich => rich
  | _ => false

/-- The entries that the content of a box adds. -/
def contentEntries (b : Box) : Entries :=
  match b.content with
  | .text t rich => [("text", .text t), ("rich_text", .bool rich)]
  | .image src fit => [("rich_text", .bool false), ("src", .text src), ("fit", fit)]
  | .code value => [("rich_text", .bool false), ("value", .text value)]
  | .table table => [("rich_text", .bool false), ("table", table.toValue)]
  | .blank => [("rich_text", .bool false)]

/-- A box as a document. -/
def toValue (b : Box) : Value :=
  .object ([("id", Value.text b.id), ("kind", Value.text b.kind), ("region", Value.text b.region.name),
      ("x", Value.float b.x), ("y", Value.float b.y), ("w", Value.float b.w), ("h", Value.float b.h),
      ("style", Value.object b.style.toEntries)] ++
    (match b.zIndex with
     | some z => [("z_index", Value.int z)]
     | none => []) ++ b.contentEntries)

end Box

namespace PageLayout

/-- The boxes of a region. -/
def region (p : PageLayout) : Region → List Box
  | .header => p.header
  | .body => p.body
  | .footer => p.footer

/-- All boxes of a page. -/
def boxes (p : PageLayout) : List Box := p.header ++ p.body ++ p.footer

/-- The first box with an id. -/
def find? (p : PageLayout) (id : String) : Option Box := p.boxes.find? fun b => b.id == id

/-- A page as a document. -/
def toValue (p : PageLayout) : Value :=
  .object (("pageNumber", .int p.number) ::
    Region.all.map fun r => (r.name, .list ((p.region r).map Box.toValue)))

end PageLayout

namespace DocumentLayout

/-- A laid-out document as a document. -/
def toValue (d : DocumentLayout) : Value :=
  .object [("pageCount", .int d.pageCount), ("pages", .list (d.pages.map PageLayout.toValue))]

end DocumentLayout

end Pagewright
