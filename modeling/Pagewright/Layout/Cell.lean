import Pagewright.Binding.Placeholder
import Pagewright.Layout.Box

/-!
# Table cells

The text of a cell. A column formats its values as amounts, as grouped numbers with a fixed number of
places or up to three, or shows them as they are; what is no number is shown as it is.
-/

namespace Pagewright

namespace TableColumn

/-- The formats of a column. -/
inductive CellFormat where
  | currency
  | number
  | plain
  deriving Repr, DecidableEq

/-- The format of a column. -/
def cellFormat (c : TableColumn) : CellFormat :=
  if c.format.isText "currency" then .currency
  else if c.format.isText "number" then .number
  else .plain

/-- The least and greatest number of places of a column's numbers. -/
def places (c : TableColumn) : Nat × Nat :=
  match c.precision with
  | some n => (n.toNat, n.toNat)
  | none => (0, 3)

/-- The text of a number in a column. -/
def numberText (c : TableColumn) (x : Float) (settings : Entries) : Outcome String :=
  match c.cellFormat with
  | .currency => Amount.currency Locale.forCells x (Transform.currencyCode .null settings)
  | _ => Amount.number Locale.forCells x c.places.1 c.places.2

/-- The text of a cell. -/
def cellText (c : TableColumn) (v : Value) (settings : Entries) : Outcome String :=
  match v, c.cellFormat with
  | .null, _ => .ok ""
  | v, .plain => v.shown
  | v, _ => do
    match ← Transform.numberOf v with
    | some x => c.numberText x settings
    | none => v.shown

end TableColumn

end Pagewright
