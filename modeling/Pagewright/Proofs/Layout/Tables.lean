import Pagewright.Proofs.Layout.Assembly

/-!
# Tables over several pages

A table that goes on to further pages is cut into slices (`Table.flatten_slices`), one box a page
(`Layout.tablePageBox_eq_ok`). The document has a page for each of them, so put together again the boxes
show every row once and in its place, whatever else decides how long the document is
(`Layout.table_rows_shown`).
-/

namespace Pagewright

namespace Table

@[simp] theorem flatten_slices (rows : List Value) (first other : ℕ) :
    (slices rows first other).flatten = rows := by
  simp [slices]

@[simp] theorem map_rows_padLast (capacity : ℕ) (ss : List TableSlice) :
    (padLast capacity ss).map (·.rows) = ss.map (·.rows) := by
  fun_induction padLast capacity ss <;> simp_all

theorem map_rows_pagesOf (t : Table) (rows : List Value) (first other : ℕ) :
    (t.pagesOf rows first other).map (·.rows) = slices rows first other := by
  unfold pagesOf
  split <;> simp [Function.comp_def]

end Table

namespace TablePages

variable {e : Element} {table : Table} {data : Value} {height : Float} {others : List Element}

theorem rows_of_ofTable {pages : TablePages} (h : ofTable e table data height others = .ok pages) :
    ∃ rows, table.rowsIn data = .ok rows ∧ (pages.pages.map (·.rows)).flatten = rows := by
  simp only [ofTable, Outcome.bind_eq_ok, Outcome.pure_eq_ok, Except.ok.injEq] at h
  obtain ⟨rows, hrows, _, -, _, -, _, -, _, -, _, -, rfl⟩ := h
  exact ⟨rows, hrows, by simp [Table.map_rows_pagesOf]⟩

end TablePages

namespace Box

/-- The rows of cell texts that a box shows. -/
def cells (b : Box) : List (List String) :=
  match b.content with
  | .table table => table.cells
  | _ => []

end Box

namespace Layout

variable {t : Template} {data : Value} {evaluate : Bool} {d : DocumentLayout}
variable {e : Element} {table : Table} {pages : TablePages}

/-- A box is the table `e` with the given rows of cells. -/
structure ShowsTable (e : Element) (cells : List (List String)) (b : Box) : Prop where
  id : b.id = e.id
  region : b.region = .body
  isTable : ∃ table, b.content = .table table
  cells : b.cells = cells

/-- On a page of its spread, a table has one box with the formatted rows of its slice. -/
theorem tablePageBox_eq_ok {page : ℕ} {slice : TableSlice} (hslice : pages.pages[page]? = some slice)
    {boxes : List Box} (h : tablePageBox t .body e table pages page = .ok boxes) :
    ∃ b cells, boxes = [b] ∧ slice.rows.mapM (cellsOf t table) = .ok cells ∧ ShowsTable e cells b := by
  simp only [tablePageBox, hslice, Outcome.bind_eq_ok, Outcome.pure_eq_ok, Except.ok.injEq] at h
  obtain ⟨content, hcontent, box, hbox, rfl⟩ := h
  simp only [tableBox, Outcome.bind_eq_ok, Outcome.pure_eq_ok, Except.ok.injEq] at hcontent
  obtain ⟨cells, hcells, rfl⟩ := hcontent
  simp only [baseBox, Outcome.bind_eq_ok, Outcome.pure_eq_ok, Except.ok.injEq] at hbox
  obtain ⟨style, -, rfl⟩ := hbox
  exact ⟨_, cells, rfl, hcells, rfl, rfl, ⟨_, rfl⟩, rfl⟩

theorem tablePageBox_of_le {page : ℕ} (h : pages.pages.length ≤ page) :
    tablePageBox t .body e table pages page = .ok [] := by
  simp [tablePageBox, List.getElem?_eq_none h]

/-- Every row of a table of the visible body is shown once and in its place. The table has one box on each
page of its spread and none on later pages, and the document is long enough for it. -/
theorem table_rows_shown (h : (assemble t data evaluate none).outcome = .ok d) :
    ∃ a : Assembly t data evaluate d, ∀ (i : ℕ) (e : Element) (table : Table),
      a.elements[i]? = some e → e.content = .table table → table.isAuto = true → e.inBody = true →
      (isShown evaluate data e).outcome = .ok true →
      ∃ (pages : TablePages) (rows : List Value) (cells : List (List String)),
        TablePages.ofTable e table data (t.page.rect .body).h a.body = .ok pages ∧
        table.rowsIn data = .ok rows ∧ rows.mapM (cellsOf t table) = .ok cells ∧
        pages.pages.length ≤ d.pageCount ∧
        (∀ page < pages.pages.length, ∃ b shown, a.boxesAt page i = [b] ∧ ShowsTable e shown b) ∧
        (∀ page < d.pageCount, pages.pages.length ≤ page → a.boxesAt page i = []) ∧
        (List.range pages.pages.length).flatMap (fun page => (a.boxesAt page i).flatMap Box.cells) =
          cells := by
  obtain ⟨a⟩ := assembly_of_assemble h
  refine ⟨a, fun i e table he hcontent hauto hbody hshown => ?_⟩
  obtain ⟨paging, hpaging, hcount, hboxes⟩ :=
    a.exists_paging he hbody (by simp [Element.isInclusion, Content.inclusion?, hcontent]) hshown
  simp only [pagingOf, hcontent, hauto, if_true, Outcome.bind_eq_ok, Outcome.pure_eq_ok,
    Except.ok.injEq] at hpaging
  obtain ⟨pages, hpages, rfl⟩ := hpaging
  obtain ⟨rows, hrows, hflatten⟩ := TablePages.rows_of_ofTable hpages
  simp only [pagesNeeded] at hcount
  simp only [boxesOf] at hboxes
  -- Each page of the spread has its slice, formatted.
  have hpage : ∀ page, ∀ hlt : page < pages.pages.length, ∃ b cells, a.boxesAt page i = [b] ∧
      (pages.pages[page].rows).mapM (cellsOf t table) = .ok cells ∧ ShowsTable e cells b :=
    fun page hlt => tablePageBox_eq_ok (List.getElem?_eq_getElem hlt) (hboxes page (by omega))
  have hslices : (pages.pages.map (·.rows)).mapM (fun rows => rows.mapM (cellsOf t table)) =
      .ok ((List.range pages.pages.length).map fun page => (a.boxesAt page i).flatMap Box.cells) := by
    refine Outcome.mapM_eq_ok.mpr (List.forall₂_iff_get.mpr ⟨by simp, fun page hlt hlt' => ?_⟩)
    obtain ⟨b, cells, hb, hcells, hshows⟩ := hpage page (by simpa using hlt)
    simp [hb, hshows.cells, hcells]
  refine ⟨pages, rows, _, hpages, hrows, ?_, hcount, ?_, ?_, rfl⟩
  · rw [← hflatten, Outcome.mapM_flatten hslices, List.flatMap_def]
  · intro page hlt
    obtain ⟨b, cells, hb, -, hshows⟩ := hpage page hlt
    exact ⟨b, cells, hb, hshows⟩
  · intro page hlt hle
    have hnone := hboxes page hlt
    rw [tablePageBox_of_le hle, Except.ok.injEq] at hnone
    exact hnone.symm

/-- A table of items on pages with room for two of them. -/
def itemTable : Table where
  rows := .text "items"
  columns := [⟨"sku", "SKU", 40, .null, .null, none⟩]
  pagination := some ⟨.text "auto", some 10⟩
  rowStyle := none
  headerStyle := none
  fillMode := .null
  continuationY := none
  continuationH := none

/-- A template with nothing but a table of items. -/
def itemTemplate : Template where
  page := ⟨100, 100, ⟨0, 0, 0, 0⟩, 0, 0⟩
  id := "items"
  name := ""
  version := .null
  unit := .null
  fonts := []
  styles := []
  contract := []
  elements := [⟨"items", .null, 0, 0, 40, 30, none, .null, .null, .null, none, none, .table itemTable⟩]
  partials := []
  settings := []
  pageCount := none

/-- Three items. -/
def threeItems : Value :=
  .object [("items", .list [.object [("sku", .text "a")], .object [("sku", .text "b")],
    .object [("sku", .text "c")]])]

/-- Three items are shown in their order. -/
theorem table_rows_shown_threeItems :
    ∃ d, (assemble itemTemplate threeItems true none).outcome = .ok d ∧
      ∃ (a : Assembly itemTemplate threeItems true d) (pages : TablePages),
        pages.pages.length ≤ d.pageCount ∧
        (∀ page < pages.pages.length, ∃ b shown, a.boxesAt page 0 = [b] ∧
          ShowsTable itemTemplate.elements.head! shown b) ∧
        (List.range pages.pages.length).flatMap (fun page => (a.boxesAt page 0).flatMap Box.cells) =
          [["a"], ["b"], ["c"]] := by
  have hexpand : itemTemplate.expandLogged = ⟨[], .ok itemTemplate.elements⟩ := by cbv
  have hok : (assemble itemTemplate threeItems true none).outcome.isOk = true := by
    unfold assemble
    rw [hexpand]
    decide +kernel
  obtain ⟨d, hd⟩ := Outcome.exists_of_isOk hok
  obtain ⟨a, ha⟩ := table_rows_shown hd
  have helements : a.elements = itemTemplate.elements := a.elements_eq hexpand
  obtain ⟨pages, rows, cells, -, hrows, hcells, hcount, hboxes, -, hall⟩ :=
    ha 0 _ itemTable (by rw [helements]; rfl) rfl rfl rfl rfl
  obtain rfl : _ = rows := Except.ok.inj hrows
  obtain rfl : [["a"], ["b"], ["c"]] = cells := Except.ok.inj hcells
  exact ⟨d, hd, a, pages, hcount, hboxes, hall⟩

end Layout

end Pagewright
