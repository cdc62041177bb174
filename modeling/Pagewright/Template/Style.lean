import Pagewright.Value

/-!
# Styles and fonts

A style gives up to twelve attributes; null stands for one that is not set. Styles are laid over each
other attribute by attribute (`Style.onto`). Attribute values are kept as the document has them: what
a renderer makes of an odd value is its business.
-/

namespace Pagewright

/-- A visual style. An attribute that is null is inherited. -/
structure Style where
  font : Value := .null
  size : Value := .null
  weight : Value := .null
  fontStyle : Value := .null
  color : Value := .null
  align : Value := .null
  lineHeight : Value := .null
  borderColor : Value := .null
  borderWidth : Value := .null
  borderRadius : Value := .null
  fill : Value := .null
  opacity : Value := .null
  deriving Repr, Inhabited

namespace Style

/-- The attributes of a style by name, in their order. -/
def attributes (s : Style) : Entries :=
  [("font", s.font), ("size", s.size), ("weight", s.weight), ("fontStyle", s.fontStyle),
   ("color", s.color), ("align", s.align), ("lineHeight", s.lineHeight),
   ("borderColor", s.borderColor), ("borderWidth", s.borderWidth),
   ("borderRadius", s.borderRadius), ("fill", s.fill), ("opacity", s.opacity)]

/-- The attributes that are set. -/
def toEntries (s : Style) : Entries := s.attributes.filter fun e => !e.2.isNull

/-- The style that an object describes. -/
def ofEntries (entries : Entries) : Style where
  font := Entries.get entries "font"
  size := Entries.get entries "size"
  weight := Entries.get entries "weight"
  fontStyle := Entries.get entries "fontStyle"
  color := Entries.get entries "color"
  align := Entries.get entries "align"
  lineHeight := Entries.get entries "lineHeight"
  borderColor := Entries.get entries "borderColor"
  borderWidth := Entries.get entries "borderWidth"
  borderRadius := Entries.get entries "borderRadius"
  fill := Entries.get entries "fill"
  opacity := Entries.get entries "opacity"

/-- The style that a value describes, if it is an object. -/
def ofValue? (v : Value) : Option Style := v.object?.map ofEntries

/-- An attribute laid over another. -/
def pick (upper lower : Value) : Value := if upper.isNull then lower else upper

/-- A style laid over another: its attributes that are set win. -/
def onto (upper lower : Style) : Style where
  font := pick upper.font lower.font
  size := pick upper.size lower.size
  weight := pick upper.weight lower.weight
  fontStyle := pick upper.fontStyle lower.fontStyle
  color := pick upper.color lower.color
  align := pick upper.align lower.align
  lineHeight := pick upper.lineHeight lower.lineHeight
  borderColor := pick upper.borderColor lower.borderColor
  borderWidth := pick upper.borderWidth lower.borderWidth
  borderRadius := pick upper.borderRadius lower.borderRadius
  fill := pick upper.fill lower.fill
  opacity := pick upper.opacity lower.opacity

/-- A style with another laid over it, if there is one. -/
def under (lower : Style) : Option Style → Style
  | some upper => upper.onto lower
  | none => lower

end Style

/-- A font declaration. Fonts from a `url` or from `data` are embedded. -/
structure Font where
  name : String
  source : String
  url : Value
  data : Value
  fallback : List Value
  deriving Repr, Inhabited

end Pagewright
