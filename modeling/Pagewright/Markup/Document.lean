import Pagewright.Markup.Css
import Pagewright.Markup.Fragment

/-!
# Documents as markup

A laid-out document as a self-contained page of markup: one block of fixed size per page, in it one block
per region, in it one element per box, all placed absolutely. Every text that comes from data is a hole,
save for rich text, which is markup itself.
-/

namespace Pagewright.Markup

open Fragment

/-- The space above and below the text of a cell. -/
def cellPadding : Float := 4

/-- The line height in the cells of a table. -/
def cellLineHeight (rowHeight : Float) : Float :=
  if rowHeight - cellPadding > 0 then rowHeight - cellPadding else 0

/-- The color of a line that has none. -/
def lineColor : String := "#333"

/-- A line break. -/
def newLine : Fragment := fixed "\n"

/-- The start of the element of a box: its class, its id and its place. -/
def openBox (class_ : String) (b : Box) : List Fragment :=
  [fixed ("<div class=\"el " ++ class_ ++ "\" data-id=\""), hole b.id, fixed "\" style=\"",
   hole (Css.geometry b)]

/-- The style and content of a cell. -/
def cell (tag css : String) (align : Option Value) (rowHeight : Float) (content : List Fragment) :
    List Fragment :=
  [fixed ("<" ++ tag ++ " style=\""), hole css] ++
  (match align with
   | some v => [fixed ";text-align:", value v]
   | none => []) ++
  [fixed ";height:", hole (Css.points rowHeight), fixed ";line-height:",
   hole (Css.points (cellLineHeight rowHeight)), fixed ";\">"] ++ content ++
  [fixed ("</" ++ tag ++ ">")]

/-- A row of cells. -/
def row (tag css : String) (rowHeight : Float) (columns : List TableColumn) (texts : List String) :
    List Fragment :=
  (columns.zip texts).flatMap fun (c, text) => cell tag css (some c.align) rowHeight [hole text]

/-- The inside of a table. -/
def table (t : TableBox) (fonts : List Font) : List Fragment :=
  let headerCss := Css.ofStyle t.headerStyle fonts
  let rowCss := Css.ofStyle t.rowStyle fonts
  [fixed "  <table class=\"tbl\">\n    <colgroup>"] ++
  t.columns.flatMap (fun c => [fixed "<col style=\"width:", hole (Css.points c.w), fixed ";\" />"]) ++
  [fixed "</colgroup>\n    <thead><tr>"] ++
  row "th" headerCss t.rowHeight t.columns (t.columns.map (·.header)) ++
  [fixed "</tr></thead>\n    <tbody>\n"] ++
  t.cells.flatMap (fun texts =>
    [fixed "      <tr>"] ++ row "td" rowCss t.rowHeight t.columns texts ++ [fixed "</tr>\n"]) ++
  (List.replicate t.padding ([fixed "      <tr class=\"pad\">"] ++
    t.columns.flatMap (fun _ => cell "td" rowCss none t.rowHeight []) ++ [fixed "</tr>\n"])).flatten ++
  [fixed "    </tbody>\n  </table>\n"]

/-- The element of a box. -/
def box (fonts : List Font) (b : Box) : List Fragment :=
  let css := hole (Css.ofStyle b.style fonts)
  match b.content with
  | .text text true =>
    openBox "text" b ++ [fixed ";", css, fixed ";white-space:normal;\">", rich text, fixed "</div>\n"]
  | .text text false =>
    openBox (if b.kind == "flowText" then "flow-text" else "text") b ++
      [fixed ";", css, fixed ";white-space:pre-wrap;\">", hole text, fixed "</div>\n"]
  | .image src fit =>
    [fixed "<img class=\"el image\" data-id=\"", hole b.id, fixed "\" src=\"", hole src,
     fixed "\" style=\"", hole (Css.geometry b), fixed ";object-fit:", value fit, fixed ";\" />\n"]
  | .table t =>
    openBox "table" b ++ [fixed ";overflow:hidden;\">\n"] ++ table t fonts ++ [fixed "</div>\n"]
  | .code v =>
    [fixed "<div class=\"el qr\" data-id=\"", hole b.id, fixed "\" data-value=\"", hole v,
     fixed "\" style=\"", hole (Css.geometry b), fixed ";", css,
     fixed ";border:1pt solid #333;\"></div>\n"]
  | .blank =>
    if b.kind == "line" then
      let width := if b.style.borderWidth.isNull then .int 1 else b.style.borderWidth
      openBox "line" b ++ [fixed ";border-top:", hole (Css.length width), fixed " solid ",
        value (b.style.borderColor.orElse (.text lineColor)), fixed ";height:0;\"></div>\n"]
    else openBox "box" b ++ [fixed ";", css, fixed ";\"></div>\n"]

/-- The block of a region. -/
def region (fonts : List Font) (p : PageLayout) (r : Region) : List Fragment :=
  [fixed ("      <div class=\"page-region page-" ++ r.name ++ "\">\n")] ++
  (p.region r).flatMap (fun b => [fixed "        "] ++ box fonts b ++ [newLine]) ++
  [fixed "      </div>\n"]

/-- The block of a page. -/
def page (fonts : List Font) (p : PageLayout) : List Fragment :=
  [fixed "    <div class=\"page\" data-page=\"", hole (toString p.number), fixed "\">\n"] ++
  Region.all.flatMap (region fonts p) ++ [fixed "    </div>\n"]

/-- A line of the style sheet: a selector and declarations with lengths in them. -/
def styleLine (selector : String) (declarations : List Fragment) : List Fragment :=
  [fixed ("      " ++ selector ++ " \x7b ")] ++ declarations ++ [fixed " \x7d\n"]

/-- A length in the style sheet. -/
def len (x : Float) : Fragment := hole (Css.points x)

/-- The style sheet of a document. -/
def styleSheet (p : PageSpec) (fonts : List Font) : List Fragment :=
  let body := p.rect .body
  let footer := p.rect .footer
  [fixed "      ", rich (Css.fontRules fonts), newLine] ++
  styleLine "@page" [fixed "size: ", len p.width, fixed " ", len p.height, fixed "; margin: 0;"] ++
  styleLine "body" [fixed "margin: 0;"] ++
  styleLine ".page" [fixed "position: relative; width: ", len p.width, fixed "; height: ",
    len p.height, fixed "; overflow: hidden; break-after: page; page-break-after: always;"] ++
  styleLine ".page:last-child" [fixed "break-after: auto; page-break-after: auto;"] ++
  styleLine ".page-region" [fixed "position: absolute; left: ", len p.margin.left,
    fixed "; width: ", len p.bodyWidth, fixed ";"] ++
  styleLine ".page-header" [fixed "top: ", len p.margin.top, fixed "; height: ", len p.headerHeight,
    fixed ";"] ++
  styleLine ".page-body" [fixed "top: ", len body.y, fixed "; height: ", len body.h, fixed ";"] ++
  styleLine ".page-footer" [fixed "top: ", len footer.y, fixed "; height: ", len footer.h,
    fixed ";"] ++
  styleLine ".el" [fixed "position: absolute; box-sizing: border-box;"] ++
  styleLine ".tbl" [fixed "width: 100%; border-collapse: collapse; table-layout: fixed;"] ++
  styleLine ".tbl th, .tbl td" [fixed ("border: 1pt solid #E0E0E0; padding: 0pt 3pt; " ++
    "vertical-align: middle; box-sizing: border-box; overflow: hidden;")]

/-- The fragments of a document. -/
def ofLayout (d : DocumentLayout) : List Fragment :=
  [fixed ("<!doctype html>\n<html>\n  <head>\n    <meta charset=\"utf-8\" />\n    <style>\n")] ++
  styleSheet d.page d.fonts ++ [fixed "    </style>\n  </head>\n  <body>\n"] ++
  d.pages.flatMap (page d.fonts) ++ [fixed "  </body>\n</html>"]

end Pagewright.Markup

namespace Pagewright.DocumentLayout

/-- A laid-out document as markup. -/
def markup (d : DocumentLayout) : String := Markup.text (Markup.ofLayout d)

end Pagewright.DocumentLayout
