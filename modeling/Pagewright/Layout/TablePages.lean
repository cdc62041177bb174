import Pagewright.Binding.Placeholder
import Pagewright.Layout.Chunks
import Pagewright.Layout.Schedule

/-!
# Tables over several pages

The rows of a table are dealt out to pages: the first page takes what fits below the header row in the
height there, every later page what fits in the height of continuations, and no page less than one row.
Elements below the table cap the height on the pages they are on.
-/

namespace Pagewright

/-- The rows on one page and the empty rows after them. -/
structure TableSlice where
  rows : List Value
  padding : Nat
  deriving Repr, Inhabited

/-- A table dealt out to pages. -/
structure TablePages where
  pages : List TableSlice
  rowHeight : Float
  firstAvailable : Float
  otherAvailable : Float
  firstCapacity : Nat
  otherCapacity : Nat
  deriving Repr, Inhabited

namespace Table

/-- The larger of two numbers, the first unless the second exceeds it. -/
def larger (a b : Float) : Float := if a < b then b else a

/-- The smaller of two numbers, the first unless the second is below it. -/
def smaller (a b : Float) : Float := if b < a then b else a

/-- The rows that fit below a header of one row; never less than one. -/
def capacity (available rowHeight : Float) : Outcome Nat :=
  if rowHeight ≤ 0 then .ok 1
  else
    match Binary64.floor? ((available - rowHeight) / rowHeight) with
    | some n => .ok (max 1 n.toNat)
    | none => undefinedOn .notFinite

/-- The rows of a table. What is no list has none. -/
def rowsIn (t : Table) (data : Value) : Outcome (List Value) := do
  return (← data.find (Binding.pathOf t.rows)).list?.getD []

/-- The least of some numbers; of numbers that do not compare, the first. -/
def least? : List Float → Option Float
  | [] => none
  | y :: ys => some (ys.foldl smaller y)

/-- The place of the first blocker below `top` among those on a page. -/
def ceiling? (blockers : List Element) (top : Float) (isOnPage : Element → Outcome Bool) :
    Outcome (Option Float) := do
  let below ← blockers.filterM fun e => if e.y > top then isOnPage e else pure false
  return least? (below.map (·.y))

/-- The height left when a ceiling caps it. -/
def available (base top : Float) (ceiling : Option Float) : Float :=
  larger 0 (match ceiling with
    | none => base
    | some y => smaller base (y - top))

/-- The rows of each page. A table without rows has one empty page. -/
def slices (rows : List Value) (first other : Nat) : List (List Value) :=
  rows.take first :: chunks other (rows.drop first)

/-- Pad the last page to its capacity. -/
def padLast (capacity : Nat) : List TableSlice → List TableSlice
  | [] => []
  | [s] => [{ s with padding := capacity - s.rows.length }]
  | s :: rest => s :: padLast capacity rest

/-- The pages of a table, padded if it asks for it. -/
def pagesOf (t : Table) (rows : List Value) (first other : Nat) : List TableSlice :=
  let pages := (slices rows first other).map fun rows => ({ rows := rows, padding := 0 } : TableSlice)
  if t.padsRows then padLast (if pages.length = 1 then first else other) pages else pages

end Table

namespace TablePages

/-- The table of the element `e` dealt out to pages of a region; blockers with the table's id do not
count. -/
def ofTable (e : Element) (t : Table) (data : Value) (regionHeight : Float)
    (blockers : List Element) : Outcome TablePages := do
  let blockers := blockers.filter fun b => b.id != e.id
  let rows ← t.rowsIn data
  let rowHeight ← t.rowHeight
  let firstTop := e.y
  let otherTop := t.continuationY.getD e.y
  let firstBase := if e.h > 0 then e.h else Table.larger 0 (regionHeight - firstTop)
  let rest := Table.larger 0 (regionHeight - otherTop)
  let otherBase :=
    match t.continuationH with
    | some h => if h > 0 then h else rest
    | none => rest
  let firstCeiling ← Table.ceiling? blockers firstTop Element.isOnFirstPage
  let otherCeiling ← Table.ceiling? blockers otherTop Element.isOnLaterPages
  let firstAvailable := Table.available firstBase firstTop firstCeiling
  let otherAvailable := Table.available otherBase otherTop otherCeiling
  let firstCapacity ← Table.capacity firstAvailable rowHeight
  let otherCapacity ← Table.capacity otherAvailable rowHeight
  return {
    pages := t.pagesOf rows firstCapacity otherCapacity
    rowHeight := rowHeight
    firstAvailable := firstAvailable
    otherAvailable := otherAvailable
    firstCapacity := firstCapacity
    otherCapacity := otherCapacity }

end TablePages

end Pagewright
