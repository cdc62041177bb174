import Pagewright.Failure

/-!
# Pages

A page has margins and up to three stacked regions of the same width: a header band, the body, a
footer band. Lengths are in points, from the top left corner.
-/

namespace Pagewright

/-- A rectangle. -/
structure Rect where
  x : Float
  y : Float
  w : Float
  h : Float
  deriving Repr, Inhabited

/-- The margins of a page. -/
structure Margins where
  top : Float
  right : Float
  bottom : Float
  left : Float
  deriving Repr, Inhabited

/-- The regions of a page. -/
inductive Region where
  | header
  | body
  | footer
  deriving Repr, DecidableEq

namespace Region

/-- The regions from top to bottom. -/
def all : List Region := [header, body, footer]

/-- The name of a region. -/
def name : Region → String
  | header => "header"
  | body => "body"
  | footer => "footer"

/-- The region with a name. -/
def ofName? (s : String) : Option Region := all.find? fun r => r.name == s

end Region

/-- A page with its margins and the heights of its bands. -/
structure PageSpec where
  width : Float
  height : Float
  margin : Margins
  headerHeight : Float
  footerHeight : Float
  deriving Repr, Inhabited

namespace PageSpec

/-- The width between the margins. -/
def bodyWidth (p : PageSpec) : Float := p.width - p.margin.left - p.margin.right

/-- The height that margins and bands leave. -/
def bodyHeight (p : PageSpec) : Float :=
  p.height - p.margin.top - p.margin.bottom - p.headerHeight - p.footerHeight

/-- The place of a region on the page. -/
def rect (p : PageSpec) : Region → Rect
  | .header => ⟨p.margin.left, p.margin.top, p.bodyWidth, p.headerHeight⟩
  | .body => ⟨p.margin.left, p.margin.top + p.headerHeight, p.bodyWidth, p.bodyHeight⟩
  | .footer =>
    ⟨p.margin.left, p.margin.top + p.headerHeight + p.bodyHeight, p.bodyWidth, p.footerHeight⟩

/-- The place of the region with a name. -/
def rectNamed (p : PageSpec) (name : String) : Outcome Rect :=
  match Region.ofName? name with
  | some r => .ok (p.rect r)
  | none => .error (.unknownRegion name)

end PageSpec

end Pagewright
