import Pagewright.Binding.Placeholder
import Pagewright.Layout.Wrap
import Pagewright.Template.Basic

/-!
# Flowing text

Flowing text is wrapped to the width of a column, set into columns of equal height, and the columns are
dealt out to pages. Widths of characters are estimated from the font size. Sizes that the template gives
are kept as it gives them, whole numbers and doubles apart.
-/

namespace Pagewright

/-- A flowing text dealt out to pages; each page has the text of its columns. -/
structure FlowPages where
  pages : List (List String)
  fontSize : Value
  lineHeight : Value
  columns : Nat
  gap : Value
  columnWidth : Float
  flowHeight : Float
  linesPerColumn : Nat
  deriving Repr, Inhabited

namespace Value

/-- A number to calculate with; a boolean is 0 or 1, and a text is none. -/
def toNumber : Value → Outcome Float
  | text s => undefinedOn (.wrongKind (text s))
  | v => v.toFloat

end Value

namespace FlowPages

/-- The font size where a template gives none. -/
def defaultFontSize : Value := .int 11

/-- The line height as a multiple of the font size. -/
def lineHeightFactor : Float := 1.2

/-- The width of a character as a multiple of the font size. -/
def charWidthFactor : Float := 0.55

/-- The number of columns where a template gives none. -/
def defaultColumns : Nat := 1

/-- The gap between columns where a template gives none. -/
def defaultGap : Value := .int 12

/-- The nearest whole number, a half going up. -/
def roundHalfUp (x : Float) : Outcome Int :=
  match Binary64.floor? (x + 0.5) with
  | some n => .ok n
  | none => undefinedOn .notFinite

/-- A quotient; there is none by zero. -/
def quotient (a b : Float) : Outcome Float :=
  if b == 0 then undefinedOn .divisionByZero else .ok (a / b)

/-- The width that gaps take between `columns` columns. -/
def gapsWidth (gap : Value) (columns : Nat) : Outcome Float :=
  match gap with
  | .int n => (Value.int (n * (columns - 1))).toNumber
  | gap => do return (← gap.toNumber) * (← (Value.int (columns - 1)).toNumber)

/-- The width of one of `columns` columns in a width. -/
def columnWidthIn (width : Float) (gap : Value) (columns : Nat) : Outcome Float :=
  if columns > 1 then do
    quotient (width - (← gapsWidth gap columns)) (← (Value.int columns).toNumber)
  else .ok width

/-- The columns of a page. -/
def columnsOf (columns linesPerColumn : Nat) (lines : List String) : List String :=
  (List.range columns).map fun c =>
    "\n".intercalate ((lines.drop (c * linesPerColumn)).take linesPerColumn)

/-- The pages of some lines. No lines make one page with one empty column. -/
def pagesOf (columns linesPerColumn : Nat) (lines : List String) : List (List String) :=
  if lines.isEmpty then [[""]]
  else (chunks (linesPerColumn * columns) lines).map (columnsOf columns linesPerColumn)

/-- The line height of a style, or one that suits the font size. -/
def lineHeightOf (style : Style) (fontSize : Value) : Outcome Value :=
  if style.lineHeight.isGiven then .ok style.lineHeight
  else do return .int (← roundHalfUp ((← fontSize.toNumber) * lineHeightFactor))

/-- A flowing text in a region, which gives the width and height that the element does not have. -/
def ofFlow (e : Element) (text : Value) (columns : Nat) (gap : Option Float) (data : Value)
    (t : Template) (regionWidth regionHeight : Float) : Outcome FlowPages := do
  let style ← t.resolveStyle e true
  let fontSize := style.size.orElse defaultFontSize
  let lineHeight ← lineHeightOf style fontSize
  let columns := if columns = 0 then defaultColumns else columns
  let gap := ((gap.map Value.float).getD .null).orElse defaultGap
  let width := if e.w > 0 then e.w else regionWidth - e.x
  let height := if e.h > 0 then e.h else regionHeight - e.y
  let columnWidth ← columnWidthIn width gap columns
  let maxChars ← quotient columnWidth ((← fontSize.toNumber) * charWidthFactor)
  let lines ← Wrap.linesIn maxChars (← Binding.substituteValue text data Binding.noPage)
  let linesPerColumn ← Wrap.limitOf (← quotient height (← lineHeight.toNumber))
  return {
    pages := pagesOf columns linesPerColumn lines
    fontSize := fontSize
    lineHeight := lineHeight
    columns := columns
    gap := gap
    columnWidth := columnWidth
    flowHeight := height
    linesPerColumn := linesPerColumn }

end FlowPages

end Pagewright
