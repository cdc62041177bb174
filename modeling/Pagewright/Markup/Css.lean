import Pagewright.Layout.Box
import Pagewright.Text.Class

/-!
# Style sheets

Styles, places and fonts as style sheet text. A length is in points and a whole double has no point in
it. A font name with a blank in it is quoted, and declared fallbacks follow the font.
-/

namespace Pagewright.Css

/-- A number without a point if it is whole. -/
def number (x : Float) : String :=
  match Binary64.integer? x with
  | some n => toString n
  | none => Binary64.text x

/-- A length. -/
def points (x : Float) : String := number x ++ "pt"

/-- The length that a value of a style stands for. -/
def length (v : Value) : String :=
  match v with
  | .float x => points x
  | v => v.display ++ "pt"

/-- The name of a font family. -/
def family (name : Value) : String :=
  let s := (name.orElse (.text "")).display
  if s.toList.any Text.isBlank then
    String.ofList ('\'' :: s.toList.flatMap (fun c => if c == '\'' then ['\\', '\''] else [c]) ++ ['\''])
  else s

/-- The declaration of the font that a value names. -/
def declared? (name : Value) (fonts : List Font) : Option Font :=
  fonts.find? fun f => name.isText f.name

/-- A font with its fallbacks. -/
def families? (name : Value) (fonts : List Font) : Option String :=
  if name.isGiven then
    let fallback := ((declared? name fonts).map (·.fallback)).getD []
    some (", ".intercalate ((name :: fallback).map family))
  else none

/-- A declaration for a value that counts as given. -/
def whenGiven (v : Value) (declare : Value → String) : List String :=
  if v.isGiven then [declare v] else []

/-- A declaration for a value that is not null. -/
def whenSet (v : Value) (declare : Value → String) : List String :=
  if v.isNull then [] else [declare v]

/-- The declarations of a style. A border needs a color and a width. -/
def declarations (s : Style) (fonts : List Font) : List String :=
  ((families? s.font fonts).map ("font-family:" ++ ·)).toList ++
  whenGiven s.size (fun v => "font-size:" ++ length v) ++
  whenGiven s.weight (fun v => "font-weight:" ++ v.display) ++
  whenGiven s.fontStyle (fun v => "font-style:" ++ v.display) ++
  whenGiven s.color (fun v => "color:" ++ v.display) ++
  whenGiven s.align (fun v => "text-align:" ++ v.display) ++
  whenGiven s.lineHeight (fun v => "line-height:" ++ length v) ++
  (if s.borderColor.isGiven then
    whenSet s.borderWidth (fun v => "border:" ++ length v ++ " solid " ++ s.borderColor.display)
   else []) ++
  whenSet s.borderRadius (fun v => "border-radius:" ++ length v) ++
  whenGiven s.fill (fun v => "background-color:" ++ v.display) ++
  whenSet s.opacity (fun v => "opacity:" ++ v.display)

/-- A style as text. -/
def ofStyle (s : Style) (fonts : List Font) : String := ";".intercalate (declarations s fonts)

/-- What a font is loaded from, if it is embedded. -/
def fontSource? (f : Font) : Option Value :=
  if f.name.isEmpty || f.source == "local" then none
  else (if f.source == "url" then f.url else f.data).given?

/-- The rule that embeds a font. -/
def fontRule (f : Font) : Option String :=
  (fontSource? f).map fun source =>
    "@font-face\x7bfont-family:\"" ++ f.name ++ "\";src:url(\"" ++ source.display ++
      "\");font-display:swap;\x7d"

/-- The rules that embed fonts. -/
def fontRules (fonts : List Font) : String := String.join (fonts.filterMap fontRule)

/-- The place of a box. -/
def geometry (b : Box) : String :=
  ";".intercalate (["left:" ++ points b.x, "top:" ++ points b.y, "width:" ++ points b.w,
    "height:" ++ points b.h] ++ (b.zIndex.map fun z => "z-index:" ++ toString z).toList)

end Pagewright.Css
