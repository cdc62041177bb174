import Pagewright.Template.Element
import Pagewright.Template.Page
import Pagewright.Transform

/-!
# Templates

A template is a page, the elements on it, partials that elements can include, style presets, fonts,
settings, and the contract that says how a payload becomes the data record.
-/

namespace Pagewright

/-- How one path of the data record gets its value. -/
structure ContractField where
  path : String
  required : Bool := false
  type : Value := .text "string"
  source : Value := .text "external"
  externalPath : Value := .null
  defaultValue : Value := .null
  hasDefault : Bool := false
  transform : Value := .text "none"
  locale : Value := .null
  currency : Value := .null
  dateStyle : Value := .null
  deriving Repr, Inhabited

namespace ContractField

/-- The path to read in the payload. -/
def payloadPath (f : ContractField) : Value := f.externalPath.orElse (.text f.path)

/-- The name of the field's transform. -/
def transformName (f : ContractField) : Value := f.transform.orElse (.text "none")

/-- The options of the field's transform. -/
def options (f : ContractField) : TransformOptions := ⟨f.locale, f.currency, f.dateStyle⟩

/-- The field's transform. A name that is not known changes nothing; a list or object cannot be a
name. -/
def transform? (f : ContractField) : Outcome (Option Transform) :=
  match f.transformName with
  | .text name => .ok (Transform.ofName? name)
  | name => if name.isContainer then undefinedOn (.notAKey name) else .ok none

/-- What the field's transform does to a value. -/
def apply (f : ContractField) (v : Value) (settings : Entries) : Outcome Transformed := do
  match ← f.transform? with
  | some t => return t.run v f.options settings
  | none => return .kept

/-- Whether the field reads the payload. -/
def isExternal (f : ContractField) : Bool := f.source.isText "external"

/-- A field as an entry of a contract document. -/
def toValue (f : ContractField) : Value :=
  let options := [("transformLocale", f.locale), ("transformCurrency", f.currency),
    ("transformDateStyle", f.dateStyle)]
  .object ([("path", .text f.path), ("required", .bool f.required), ("type", f.type),
      ("source", f.source), ("transform", f.transform)] ++
    (if f.externalPath.isGiven then [("externalPath", f.externalPath)] else []) ++
    (if f.hasDefault then [("defaultValue", f.defaultValue)] else []) ++
    options.filter fun e => e.2.isGiven)

end ContractField

/-- The fields of a contract, in the order in which they are evaluated. -/
abbrev Contract := List ContractField

/-- A contract as a document. -/
def Contract.toValue (c : Contract) : Value :=
  .object [("fields", .list (c.map ContractField.toValue))]

/-- A template. -/
structure Template where
  page : PageSpec
  id : String
  name : String
  version : Value
  unit : Value
  fonts : List Font
  styles : List (String × Style)
  contract : Contract
  elements : List Element
  partials : List (String × List Element)
  settings : Entries
  pageCount : Option Nat
  deriving Repr, Inhabited

namespace Template

/-- The name of the style preset under all text. -/
def defaultTextPreset : String := "defaultText"

/-- The style under all text. -/
def defaultTextStyle (t : Template) : Style := (t.styles.lookup defaultTextPreset).getD {}

/-- The style preset that an element names. A list or object cannot name one. -/
def preset? (t : Template) (e : Element) : Outcome (Option Style) :=
  match e.stylePreset with
  | .text s => .ok (if s.isEmpty then none else t.styles.lookup s)
  | v => if v.isGiven && v.isContainer then undefinedOn (.notAKey v) else .ok none

/-- The style of an element: its own over its preset, over the default text style if `textual`. -/
def resolveStyle (t : Template) (e : Element) (textual : Bool) : Outcome Style := do
  let base := if textual then t.defaultTextStyle else {}
  return (base.under (← t.preset? e)).under e.style

/-- What messages call a template. -/
def label (t : Template) : String :=
  if !t.name.isEmpty then t.name else if !t.id.isEmpty then t.id else "template"

/-- The elements of the partial that a reference names. A list or object cannot name one. -/
def partial? (t : Template) (ref : Value) : Outcome (Option (List Element)) :=
  match ref with
  | .text s => .ok (t.partials.lookup s)
  | v => if v.isContainer then undefinedOn (.notAKey v) else .ok none

end Template

end Pagewright
