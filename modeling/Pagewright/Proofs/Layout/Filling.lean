import Mathlib.Algebra.Order.Floor.Div
import Pagewright.Proofs.Layout.Tables

/-!
# How full the pages of a table are

A table fills its pages greedily. The rows behind the first page are cut into pieces that all have the
same size, except for what is left at the end (`chunks_eq_concat`), so each page but the last is full, and
the last one is empty only if the table has no rows (`Table.slices_eq_concat`). This leaves one number of
pages (`TablePages.ofTable_fills`). Empty rows stand on the last page only, and fill it up.
-/

namespace Pagewright

/-- All pieces of a list but the last have the full size, and the last one has an item. -/
theorem chunks_eq_concat {α : Type} {n : ℕ} (hn : 0 < n) {xs : List α} (hxs : xs ≠ []) :
    ∃ (init : List (List α)) (last : List α), chunks n xs = init ++ [last] ∧
      (∀ piece ∈ init, piece.length = n) ∧ 0 < last.length ∧ last.length ≤ n := by
  fun_induction chunks n xs with
  | case1 => exact absurd rfl hxs
  | case2 x rest ih =>
    by_cases hrest : rest.drop (n - 1) = []
    · have hlength : rest.length ≤ n - 1 := List.drop_eq_nil_iff.mp hrest
      refine ⟨[], x :: rest.take (n - 1), by rw [hrest, chunks_nil]; rfl, by simp, by simp, ?_⟩
      rw [List.length_cons, List.length_take]
      omega
    · have hlength : n - 1 < rest.length := by simpa using hrest
      obtain ⟨init, last, hchunks, hinit, hpos, hle⟩ := ih hrest
      refine ⟨(x :: rest.take (n - 1)) :: init, last, by rw [hchunks]; rfl, ?_, hpos, hle⟩
      rintro piece (_ | ⟨_, hpiece⟩)
      · rw [List.length_cons, List.length_take]
        omega
      · exact hinit piece hpiece

theorem ceilDiv_of_pieces {n k last : ℕ} (hpos : 0 < last) (hle : last ≤ n) :
    (k * n + last) ⌈/⌉ n = k + 1 := by
  have hn : 0 < n := hpos.trans_le hle
  rw [Nat.ceilDiv_eq_add_pred_div]
  refine Nat.div_eq_of_lt_le ?_ ?_
  · rw [Nat.add_mul, Nat.one_mul]
    omega
  · rw [Nat.add_mul, Nat.add_mul, Nat.one_mul]
    omega

namespace Table

variable {rows : List Value} {first other : ℕ}

/-- All pages of a table but the last are full, and the last one has a row if there is one. -/
theorem slices_eq_concat (hother : 0 < other) (rows : List Value) (first : ℕ) :
    ∃ (init : List (List Value)) (last : List Value), slices rows first other = init ++ [last] ∧
      (∀ (i : ℕ) (piece : List Value), init[i]? = some piece → piece.length = if i = 0 then first else other) ∧
      last.length ≤ (if init.length = 0 then first else other) ∧
      (first ≠ 0 → last = [] → rows = []) ∧
      init.length + 1 =
        if rows.length ≤ first then 1 else 1 + (rows.length - first) ⌈/⌉ other := by
  by_cases hrows : rows.length ≤ first
  · refine ⟨[], rows, ?_, by simp, by simpa using hrows, fun _ h => h, by simp [hrows]⟩
    rw [slices, List.drop_eq_nil_of_le hrows, List.take_of_length_le hrows, chunks_nil, List.nil_append]
  · have hdrop : rows.drop first ≠ [] := by simpa using hrows
    obtain ⟨init, last, hchunks, hinit, hpos, hle⟩ := chunks_eq_concat hother hdrop
    have hfirst : (rows.take first).length = first := by
      rw [List.length_take]
      omega
    have hlength : rows.length - first = init.length * other + last.length := by
      have hflatten := congrArg List.length (flatten_chunks other (rows.drop first))
      rw [hchunks, List.length_flatten, List.map_append, List.sum_append,
        List.map_congr_left (g := fun _ => other) hinit] at hflatten
      simpa using hflatten.symm
    refine ⟨rows.take first :: init, last, by rw [slices, hchunks]; rfl, ?full, by simpa using hle, ?_, ?_⟩
    case full =>
      rintro (_ | i) piece hpiece
      · obtain rfl := Option.some.inj hpiece
        exact hfirst
      · exact hinit piece (List.mem_of_getElem? hpiece)
    · rintro - rfl
      exact absurd hpos (by simp)
    · rw [if_neg hrows, hlength, ceilDiv_of_pieces hpos hle, List.length_cons]
      omega

theorem padLast_concat (capacity : ℕ) (ss : List TableSlice) (s : TableSlice) :
    padLast capacity (ss ++ [s]) = ss ++ [{ s with padding := capacity - s.rows.length }] := by
  induction ss with
  | nil => rfl
  | cons s' ss ih =>
    cases ss with
    | nil => rfl
    | cons s'' ss =>
      rw [List.cons_append, List.cons_append, padLast, ← List.cons_append, ih]
      · rfl
      · simp

/-- Only the last page is padded. -/
theorem pagesOf_eq_concat (t : Table) {init : List (List Value)} {last : List Value}
    (h : slices rows first other = init ++ [last]) :
    t.pagesOf rows first other = init.map (⟨·, 0⟩) ++
      [⟨last, if t.padsRows then (if init.length = 0 then first else other) - last.length else 0⟩] := by
  have hlength : (init.length + 1 = 1) = (init.length = 0) := by simp
  unfold pagesOf
  rw [h, List.map_append, List.map_singleton]
  cases t.padsRows with
  | false => rfl
  | true =>
    simp only [if_true, padLast_concat, List.length_append, List.length_map, List.length_singleton, hlength]

end Table

namespace TablePages

variable {e : Element} {table : Table} {data : Value} {height : Float} {others : List Element}

/-- The number of rows that page `i` of a table has room for. -/
def roomOn (p : TablePages) (i : ℕ) : ℕ := if i = 0 then p.firstCapacity else p.otherCapacity

theorem capacity_pos {available rowHeight : Float} {n : ℕ} (h : Table.capacity available rowHeight = .ok n) :
    0 < n := by
  unfold Table.capacity at h
  split at h
  · obtain rfl := Except.ok.inj h
    exact Nat.one_pos
  · split at h
    · obtain rfl := Except.ok.inj h
      omega
    · cases h

/-- The rows are dealt out by the two capacities, neither of which is zero. -/
theorem pages_of_ofTable {pages : TablePages} (h : ofTable e table data height others = .ok pages) :
    ∃ rows, table.rowsIn data = .ok rows ∧
      pages.pages = table.pagesOf rows pages.firstCapacity pages.otherCapacity ∧
      0 < pages.firstCapacity ∧ 0 < pages.otherCapacity := by
  simp only [ofTable, Outcome.bind_eq_ok, Outcome.pure_eq_ok, Except.ok.injEq] at h
  obtain ⟨rows, hrows, rowHeight, -, ceiling, -, ceiling', -, first, hfirst, other, hother, rfl⟩ := h
  exact ⟨rows, hrows, rfl, capacity_pos hfirst, capacity_pos hother⟩

/-- A table takes as many pages as its rows need, one at least. All its rows are on them in their order.
Every page but the last is full, and the last one is empty only if there are no rows. Empty rows are on the
last page only: none, or as many as fill it up if the table asks for it. -/
theorem ofTable_fills {pages : TablePages} (h : ofTable e table data height others = .ok pages) :
    ∃ rows init last, table.rowsIn data = .ok rows ∧ pages.pages = init ++ [last] ∧
      0 < pages.firstCapacity ∧ 0 < pages.otherCapacity ∧
      pages.pages.length = (if rows.length ≤ pages.firstCapacity then 1
        else 1 + (rows.length - pages.firstCapacity) ⌈/⌉ pages.otherCapacity) ∧
      (pages.pages.map (·.rows)).flatten = rows ∧
      (∀ i slice, init[i]? = some slice → slice.rows.length = pages.roomOn i ∧ slice.padding = 0) ∧
      last.rows.length ≤ pages.roomOn init.length ∧ (last.rows = [] → rows = []) ∧
      (table.padsRows = false → last.padding = 0) ∧
      (table.padsRows = true → last.rows.length + last.padding = pages.roomOn init.length) := by
  obtain ⟨rows, hrows, hpagesOf, hfirst, hother⟩ := pages_of_ofTable h
  obtain ⟨init, last, hslices, hinit, hlast, hempty, hcount⟩ :=
    Table.slices_eq_concat hother rows pages.firstCapacity
  have hpages := hpagesOf.trans (table.pagesOf_eq_concat hslices)
  refine ⟨rows, _, _, hrows, hpages, hfirst, hother, ?count, ?rows, ?full, ?room, hempty hfirst.ne', ?_, ?_⟩
  case count =>
    rw [← hcount, hpages]
    simp
  case rows => rw [hpagesOf, Table.map_rows_pagesOf, Table.flatten_slices]
  case full =>
    intro i slice hslice
    rw [List.getElem?_map, Option.map_eq_some_iff] at hslice
    obtain ⟨piece, hpiece, rfl⟩ := hslice
    exact ⟨hinit i piece hpiece, rfl⟩
  case room =>
    rw [List.length_map]
    exact hlast
  · intro hpads
    simp [hpads]
  · intro hpads
    rw [List.length_map, hpads]
    exact Nat.add_sub_cancel' hlast

/-- A table of items with room for two of them on the first page and for three on later ones, the last of
which is filled up. -/
def ledgerTable : Table where
  rows := .text "\x7b\x7bitems\x7d\x7d"
  columns := [⟨"sku", "SKU", 40, .null, .null, none⟩]
  pagination := some ⟨.text "auto", some 10⟩
  rowStyle := none
  headerStyle := none
  fillMode := .text "pad"
  continuationY := some 0
  continuationH := some 40

/-- The element of the table. -/
def ledgerElement : Element :=
  ⟨"items", .null, 0, 60, 40, 0, none, .null, .null, .null, none, none, .table ledgerTable⟩

/-- Seven items. -/
def sevenItems : Value := .object [("items", .list ((List.range 7).map fun n => .int n))]

/-- Seven items take three pages, with two, three and two rows and one empty row at the end. -/
theorem ofTable_fills_sevenItems :
    ∃ pages init last, ofTable ledgerElement ledgerTable sevenItems 90 [] = .ok pages ∧
      pages.firstCapacity = 2 ∧ pages.otherCapacity = 3 ∧ pages.pages.length = 3 ∧
      pages.pages = init ++ [last] ∧
      (∀ i slice, init[i]? = some slice → slice.rows.length = pages.roomOn i ∧ slice.padding = 0) ∧
      last.rows.length + last.padding = pages.roomOn init.length := by
  obtain ⟨pages, hpages, hfirst, hother⟩ :
      ∃ pages, ofTable ledgerElement ledgerTable sevenItems 90 [] = .ok pages ∧
        pages.firstCapacity = 2 ∧ pages.otherCapacity = 3 := by
    decide +kernel
  obtain ⟨rows, init, last, hrows, heq, -, -, hcount, -, hfull, -, -, -, hpads⟩ := ofTable_fills hpages
  obtain rfl : _ = rows := Except.ok.inj hrows
  rw [hfirst, hother] at hcount
  exact ⟨pages, init, last, hpages, hfirst, hother, hcount, heq, hfull, hpads rfl⟩

end TablePages

end Pagewright
