import Mathlib.Tactic.MkIffOfInductiveProp
import Pagewright.Proofs.Layout.Assembly
import Pagewright.Proofs.Layout.Flows
import Pagewright.Proofs.Layout.Tables
import Pagewright.Proofs.Record.Readable
import Pagewright.Proofs.Template.Valid
import Pagewright.Template.Discovery

/-!
# Layouts that return

Where the layout of an element can go wrong, and where it cannot. A condition is evaluated with a result
just when it is a text or not given (`Condition.returns_shows_iff`). Texts, images and codes are filled from
any document if their paths are readable; a table shows its rows if its columns do; and what is dealt out
over pages is dealt out with any data if it is without (`Layout.HasRoom`).

From this the boxes of an element on a page come about, whatever the data (`Layout.returns_boxesOf`).
-/

namespace Pagewright

/-! ## Conditions -/

namespace Condition

/-- A condition is a text, or there is none. -/
def IsSpelled (condition : Value) : Prop := condition.isGiven = true → ∃ s, condition = .text s

instance (condition : Value) : Decidable (IsSpelled condition) :=
  decidable_of_iff (condition.isGiven = true → condition.text?.isSome = true)
    (by cases condition <;> simp [IsSpelled, Value.text?])

theorem returns_unless_given {condition : Value} (htext : ∀ s, condition ≠ .text s) (cause : Cause) (a : α) :
    Outcome.Returns (if condition.isGiven then undefinedOn cause else .ok a) ↔ IsSpelled condition := by
  split
  · rename_i hgiven
    refine ⟨fun h => absurd h (Outcome.not_returns_error _), fun h => ?_⟩
    obtain ⟨s, hs⟩ := h hgiven
    exact absurd hs (htext s)
  · rename_i hgiven
    exact ⟨fun _ h => absurd h hgiven, fun _ => Outcome.returns_ok _⟩

theorem returns_shows_iff {condition data : Value} :
    Outcome.Returns (shows condition data) ↔ IsSpelled condition := by
  unfold shows
  split
  · rename_i s
    refine ⟨fun _ _ => ⟨s, rfl⟩, fun _ => ?_⟩
    split
    · exact Outcome.returns_ok _
    · split <;> exact Outcome.returns_ok _
  · rename_i htext
    exact returns_unless_given htext _ _

theorem returns_alternativesOf_iff {condition : Value} :
    Outcome.Returns (alternativesOf condition) ↔ IsSpelled condition := by
  unfold alternativesOf
  split
  · rename_i s
    exact ⟨fun _ _ => ⟨s, rfl⟩, fun _ => Outcome.returns_ok _⟩
  · rename_i htext
    exact returns_unless_given htext _ _

theorem returns_conjoin_iff {first second : Value} :
    Outcome.Returns (conjoin first second) ↔ IsSpelled first ∧ IsSpelled second := by
  rw [← returns_alternativesOf_iff, ← returns_alternativesOf_iff]
  unfold conjoin
  constructor
  · rintro ⟨s, hs⟩
    obtain ⟨firsts, hfirsts, hs⟩ := Outcome.bind_eq_ok.mp hs
    obtain ⟨seconds, hseconds, -⟩ := Outcome.bind_eq_ok.mp hs
    exact ⟨⟨firsts, hfirsts⟩, ⟨seconds, hseconds⟩⟩
  · rintro ⟨hfirst, hsecond⟩
    exact hfirst.bind fun _ _ => hsecond.bind fun _ _ => Outcome.returns_pure _

theorem isSpelled_orElse_text (s : String) : IsSpelled ((Value.text s).orElse .null) := by
  intro _
  unfold Value.orElse at *
  split
  · exact ⟨s, rfl⟩
  · simp_all [Value.isGiven]

end Condition

/-! ## Texts -/

namespace Binding

variable {v data : Value} {s : String}

theorem returns_fill {path : String} (hpath : Path.IsReadable path) (hdata : Json.isDocument data = true)
    (page : PageContext) : Outcome.Returns (fill data page path) := by
  unfold fill
  split
  · exact Outcome.returns_ok _
  · split
    · exact Outcome.returns_ok _
    · exact (Value.returns_find hpath data).bind fun v hv =>
        Value.returns_shown v (Value.isDocument_of_find hdata hv)

theorem returns_substitute (hpaths : ∀ path ∈ pathsOf s, Path.IsReadable path)
    (hdata : Json.isDocument data = true) (page : PageContext) :
    Outcome.Returns (substitute s data page) := by
  have hpieces : Outcome.Returns ((Piece.ofText s).mapM (fillPiece data page)) := by
    refine Outcome.returns_mapM_iff.mpr fun piece hpiece => ?_
    cases piece with
    | char c => exact Outcome.returns_ok _
    | binding path =>
      have hmem : path ∈ pathsOf s := List.mem_filterMap.mpr ⟨_, hpiece, rfl⟩
      exact (returns_fill (hpaths path hmem) hdata page).bind fun _ _ => Outcome.returns_pure _
  exact hpieces.bind fun _ _ => Outcome.returns_pure _

/-- A field of a template is filled from any document if the paths in it are readable. -/
theorem returns_substituteValue (hpaths : ∀ s, v = .text s → ∀ path ∈ pathsOf s, Path.IsReadable path)
    (hdata : Json.isDocument data = true) (page : PageContext) :
    Outcome.Returns (substituteValue v data page) := by
  cases v with
  | text s => exact returns_substitute (hpaths s rfl) hdata page
  | _ => exact Outcome.returns_ok _

end Binding

/-! ## Elements -/

/-- What is said of the table of an element is decided by looking at its content. -/
instance {content : Content} {P : Table → Prop} [∀ table, Decidable (P table)] :
    Decidable (∀ table, content = .table table → P table) :=
  match content with
  | .table table => decidable_of_iff (P table) (by simp)
  | .text .. | .flowText .. | .image .. | .code _ | .line | .box | .inclusion _ => isTrue (by simp)

instance {content : Content} {P : Value → ℕ → Option Float → Prop}
    [∀ text columns gap, Decidable (P text columns gap)] :
    Decidable (∀ text columns gap, content = .flowText text columns gap → P text columns gap) :=
  match content with
  | .flowText text columns gap => decidable_of_iff (P text columns gap) (by simp)
  | .text .. | .table _ | .image .. | .code _ | .line | .box | .inclusion _ => isTrue (by simp)

/-- An element whose paths are readable and whose style preset can be looked up. -/
@[mk_iff]
structure Element.IsReadable (e : Element) : Prop where
  preset : (e.stylePreset.isGiven && e.stylePreset.isContainer) = false
  texts : ∀ path ∈ Template.textPathsOf e, Path.IsReadable path
  table : ∀ table, e.content = .table table →
    Path.IsReadable (Binding.pathOf table.rows) ∧ ∀ c ∈ table.columns, Path.IsReadable c.field

instance Element.instDecidableIsReadable (e : Element) : Decidable e.IsReadable :=
  decidable_of_iff _ (isReadable_iff e).symm

theorem Element.IsReadable.field {e : Element} (he : e.IsReadable) {v : Value}
    (hv : v ∈ e.content.bindingFields) : ∀ s, v = .text s → ∀ path ∈ Binding.pathsOf s, Path.IsReadable path := by
  rintro s rfl path hpath
  exact he.texts path (List.mem_flatMap.mpr ⟨.text s, hv, hpath⟩)

/-- Where the rule for repeating an element is no list and no object, it can be looked up. -/
theorem Element.returns_ruleAmong {e : Element} (he : e.repeats.isContainer = false) (rules : List RepeatRule) :
    Outcome.Returns (e.ruleAmong rules) := by
  have hname : e.effectiveRepeat.isContainer = false := by
    unfold Element.effectiveRepeat Value.orElse
    split
    · exact he
    · rfl
  unfold Element.ruleAmong
  rw [hname]
  exact Outcome.returns_ok _

theorem Element.returns_isOnFirstPage {e : Element} (he : e.repeats.isContainer = false) :
    Outcome.Returns e.isOnFirstPage := by
  unfold Element.isOnFirstPage
  split
  · exact Outcome.returns_ok _
  · exact Element.returns_ruleAmong he _

theorem Element.returns_isOnLaterPages {e : Element} (he : e.repeats.isContainer = false) :
    Outcome.Returns e.isOnLaterPages := by
  unfold Element.isOnLaterPages
  split
  · exact Outcome.returns_ok _
  · exact Element.returns_ruleAmong he _

theorem Template.returns_resolveStyle (t : Template) {e : Element} (he : e.IsReadable) (textual : Bool) :
    Outcome.Returns (t.resolveStyle e textual) := by
  have hpreset : Outcome.Returns (t.preset? e) := by
    unfold preset?
    split
    · exact Outcome.returns_ok _
    · rw [he.preset]
      exact Outcome.returns_ok _
  exact hpreset.bind fun _ _ => Outcome.returns_pure _

/-! ## Tables -/

namespace Table

variable {table : Table} {data : Value} {rows : List Value} {settings : Entries}

/-- A table whose columns can format what they meet in the rows. -/
def FormatsCells (table : Table) (settings : Entries) (data : Value) : Prop :=
  ∀ rows, table.rowsIn data = .ok rows → ∀ row ∈ rows, ∀ c ∈ table.columns, c.cellFormat ≠ .plain →
    ∀ v, row.find c.field = .ok v → Outcome.Returns (c.cellText v settings)

instance (table : Table) (settings : Entries) (data : Value) : Decidable (table.FormatsCells settings data) :=
  inferInstanceAs (Decidable (∀ rows, table.rowsIn data = .ok rows → ∀ row ∈ rows, ∀ c ∈ table.columns, _ → _))

theorem returns_rowsIn (h : Path.IsReadable (Binding.pathOf table.rows)) (data : Value) :
    Outcome.Returns (table.rowsIn data) :=
  (Value.returns_find h data).bind fun _ _ => Outcome.returns_pure _

theorem isDocument_of_mem_rowsIn (hdata : Json.isDocument data = true) (h : table.rowsIn data = .ok rows) :
    ∀ row ∈ rows, Json.isDocument row = true := by
  obtain ⟨v, hv, h⟩ := Outcome.bind_eq_ok.mp h
  rw [← Except.ok.inj h]
  have hdocument := Value.isDocument_of_find hdata hv
  cases v with
  | list items => exact (Value.areDocuments_iff items).mp hdocument
  | _ => simp [Value.list?]

theorem returns_cellText {c : TableColumn} (hc : c.cellFormat = .plain) {v : Value}
    (hv : Json.isDocument v = true) (settings : Entries) : Outcome.Returns (c.cellText v settings) := by
  unfold TableColumn.cellText
  rw [hc]
  cases v with
  | null => exact Outcome.returns_ok _
  | _ => exact Value.returns_shown _ hv

theorem returns_tableBox {t : Template} (hcolumns : ∀ c ∈ table.columns, Path.IsReadable c.field)
    (hdata : Json.isDocument data = true) (hformats : table.FormatsCells t.settings data)
    (hrows : table.rowsIn data = .ok rows) {shown : List Value} (hshown : ∀ row ∈ shown, row ∈ rows)
    (padding : ℕ) (rowHeight : Float) :
    Outcome.Returns (Layout.tableBox t table shown padding rowHeight) := by
  have hcells : Outcome.Returns (shown.mapM (Layout.cellsOf t table)) := by
    refine Outcome.returns_mapM_iff.mpr fun row hrow => Outcome.returns_mapM_iff.mpr fun c hc => ?_
    have hmem := hshown row hrow
    refine (Value.returns_find (hcolumns c hc) row).bind fun v hv => ?_
    by_cases hplain : c.cellFormat = .plain
    · exact returns_cellText hplain
        (Value.isDocument_of_find (isDocument_of_mem_rowsIn hdata hrows row hmem) hv) _
    · exact hformats rows hrows row hmem c hc hplain v hv
  exact hcells.bind fun _ _ => Outcome.returns_pure _

/-- The rows that fit on pages whose blockers are given. -/
def capacityBelow (base top rowHeight : Float) (isOnPage : Element → Outcome Bool) (blockers : List Element) :
    Outcome ℕ := do
  capacity (available base top (← ceiling? blockers top isOnPage)) rowHeight

theorem smaller_eq (a b : Float) : smaller a b = a ∨ smaller a b = b := by
  unfold smaller
  split
  · exact .inr rfl
  · exact .inl rfl

theorem mem_of_least? {ys : List Float} {y : Float} (h : least? ys = some y) : y ∈ ys := by
  cases ys with
  | nil => cases h
  | cons z zs =>
    obtain rfl := Option.some.inj h
    clear h
    induction zs generalizing z with
    | nil => exact List.mem_singleton_self z
    | cons x xs ih =>
      rw [List.foldl_cons]
      rcases smaller_eq z x with hz | hx
      · rw [hz]
        exact List.cons_subset_cons z (List.subset_cons_self x xs) (ih z)
      · rw [hx]
        exact List.mem_cons_of_mem z (ih x)

/-- The ceiling that some blockers make is made by one of them, or there is none. -/
theorem ceiling?_eq_ok {blockers : List Element} {top : Float} {isOnPage : Element → Outcome Bool}
    {ceiling : Option Float} (h : ceiling? blockers top isOnPage = .ok ceiling) :
    ∃ few ∈ [] :: blockers.map ([·]), ceiling? few top isOnPage = .ok ceiling := by
  obtain ⟨below, hbelow, h⟩ := Outcome.bind_eq_ok.mp h
  rw [← Except.ok.inj h]
  cases hleast : least? (below.map (·.y)) with
  | none => exact ⟨[], List.mem_cons_self, rfl⟩
  | some y =>
    obtain ⟨b, hb, rfl⟩ := List.mem_map.mp (mem_of_least? hleast)
    obtain ⟨hmem, hchosen⟩ := (Outcome.mem_filterM_iff hbelow).mp hb
    refine ⟨[b], List.mem_cons_of_mem _ (List.mem_map.mpr ⟨b, hmem, rfl⟩), ?_⟩
    unfold ceiling?
    rw [Outcome.filterM_eq_filter (g := fun _ => true) (by simpa using hchosen)]
    rfl

theorem returns_capacityBelow {base top rowHeight : Float} {isOnPage : Element → Outcome Bool}
    {blockers : List Element} (hblockers : ∀ b ∈ blockers, Outcome.Returns (isOnPage b))
    (h : ∀ few ∈ [] :: blockers.map ([·]),
      Outcome.Returns (capacityBelow base top rowHeight isOnPage few)) :
    Outcome.Returns (capacityBelow base top rowHeight isOnPage blockers) := by
  have hceiling : Outcome.Returns (ceiling? blockers top isOnPage) := by
    refine Outcome.Returns.bind (Outcome.returns_filterM_iff.mpr fun b hb => ?_) fun _ _ => Outcome.returns_pure _
    split
    · exact hblockers b hb
    · exact Outcome.returns_pure _
  refine hceiling.bind fun ceiling hsome => ?_
  obtain ⟨few, hfew, hsame⟩ := ceiling?_eq_ok hsome
  obtain ⟨n, hn⟩ := h few hfew
  obtain ⟨ceiling', hceiling', hn⟩ := Outcome.bind_eq_ok.mp hn
  obtain rfl := Except.ok.inj (hsame.symm.trans hceiling')
  exact ⟨n, hn⟩

/-- The height that the page leaves below a place. -/
def restBelow (height top : Float) : Float := larger 0 (height - top)

/-- The height of the first page of a table, blockers aside. -/
def firstBase (e : Element) (height : Float) : Float := if e.h > 0 then e.h else restBelow height e.y

/-- The place of a table on later pages. -/
def otherTop (t : Table) (e : Element) : Float := t.continuationY.getD e.y

/-- The height of later pages of a table, blockers aside. -/
def otherBase (t : Table) (e : Element) (height : Float) : Float :=
  match t.continuationH with
  | some h => if h > 0 then h else restBelow height (t.otherTop e)
  | none => restBelow height (t.otherTop e)

end Table

namespace TablePages

variable {e : Element} {table : Table} {data : Value} {height : Float} {others : List Element}

/-- A table is dealt out just when it has rows, a row height and a capacity of its pages. -/
theorem returns_ofTable_iff : Outcome.Returns (ofTable e table data height others) ↔
    Outcome.Returns (table.rowsIn data) ∧ ∃ rowHeight, table.rowHeight = .ok rowHeight ∧
      Outcome.Returns (Table.capacityBelow (Table.firstBase e height) e.y rowHeight Element.isOnFirstPage
        (others.filter fun b => b.id != e.id)) ∧
      Outcome.Returns (Table.capacityBelow (table.otherBase e height) (table.otherTop e) rowHeight
        Element.isOnLaterPages (others.filter fun b => b.id != e.id)) := by
  constructor
  · rintro ⟨pages, h⟩
    simp only [ofTable, Outcome.bind_eq_ok] at h
    obtain ⟨rows, hrows, rowHeight, hheight, firstCeiling, hfirst, otherCeiling, hother, first, hfirstFits, other,
      hotherFits, -⟩ := h
    refine ⟨⟨rows, hrows⟩, rowHeight, hheight, ⟨first, ?_⟩, ⟨other, ?_⟩⟩
    · exact Outcome.bind_eq_ok.mpr ⟨firstCeiling, hfirst, hfirstFits⟩
    · exact Outcome.bind_eq_ok.mpr ⟨otherCeiling, hother, hotherFits⟩
  · rintro ⟨⟨rows, hrows⟩, rowHeight, hheight, ⟨first, hfirst⟩, ⟨other, hother⟩⟩
    obtain ⟨firstCeiling, hfirst, hfirstFits⟩ := Outcome.bind_eq_ok.mp hfirst
    obtain ⟨otherCeiling, hother, hotherFits⟩ := Outcome.bind_eq_ok.mp hother
    simp only [Table.firstBase, Table.otherTop, Table.restBelow] at hfirstFits hother
    simp only [ofTable, hrows, hheight, hfirst, hother, hfirstFits, Outcome.ok_bind]
    exact Outcome.Returns.bind ⟨other, hotherFits⟩ fun _ _ => Outcome.returns_pure _

/-- A table that can be dealt out without rows, alone and with each of the others, can be dealt out with any
rows and all of them. -/
theorem returns_ofTable (hroom : ∀ few ∈ [] :: others.map ([·]),
      Outcome.Returns (ofTable e table .null height few))
    (hothers : ∀ b ∈ others, b.repeats.isContainer = false) (hrows : Outcome.Returns (table.rowsIn data)) :
    Outcome.Returns (ofTable e table data height others) := by
  have hfew (few : List Element) (h : few ∈ [] :: (others.filter fun b => b.id != e.id).map ([·])) :
      few ∈ [] :: others.map ([·]) ∧ few.filter (fun b => b.id != e.id) = few := by
    rcases List.mem_cons.mp h with rfl | h
    · exact ⟨List.mem_cons_self, rfl⟩
    · obtain ⟨b, hb, rfl⟩ := List.mem_map.mp h
      obtain ⟨hmem, hid⟩ := List.mem_filter.mp hb
      exact ⟨List.mem_cons_of_mem _ (List.mem_map.mpr ⟨b, hmem, rfl⟩), by simp [hid]⟩
  obtain ⟨-, rowHeight, hheight, -, -⟩ := returns_ofTable_iff.mp (hroom [] List.mem_cons_self)
  have hfits (few : List Element) (h : few ∈ [] :: (others.filter fun b => b.id != e.id).map ([·])) :
      Outcome.Returns (Table.capacityBelow (Table.firstBase e height) e.y rowHeight Element.isOnFirstPage few) ∧
        Outcome.Returns (Table.capacityBelow (table.otherBase e height) (table.otherTop e) rowHeight
          Element.isOnLaterPages few) := by
    obtain ⟨hmem, hsame⟩ := hfew few h
    obtain ⟨-, rowHeight', hheight', hfirst, hlater⟩ := returns_ofTable_iff.mp (hroom few hmem)
    obtain rfl := Except.ok.inj (hheight.symm.trans hheight')
    rw [hsame] at hfirst hlater
    exact ⟨hfirst, hlater⟩
  refine returns_ofTable_iff.mpr ⟨hrows, rowHeight, hheight, ?first, ?later⟩
  case first =>
    refine Table.returns_capacityBelow (fun b hb => ?_) fun few h => (hfits few h).1
    exact Element.returns_isOnFirstPage (hothers b (List.mem_filter.mp hb).1)
  case later =>
    refine Table.returns_capacityBelow (fun b hb => ?_) fun few h => (hfits few h).2
    exact Element.returns_isOnLaterPages (hothers b (List.mem_filter.mp hb).1)

end TablePages

/-! ## Flowing texts -/

namespace FlowPages

variable {e : Element} {text : Value} {columns : ℕ} {gap : Option Float} {data : Value} {t : Template}
  {width height : Float} {flow : FlowPages}

/-- The number of columns and the gap between them are those of the element. -/
theorem figures_of_ofFlow (h : ofFlow e text columns gap data t width height = .ok flow) :
    flow.columns = (if columns = 0 then defaultColumns else columns) ∧
      flow.gap = ((gap.map Value.float).getD .null).orElse defaultGap := by
  simp only [ofFlow, Outcome.bind_eq_ok, Outcome.pure_eq_ok, Except.ok.injEq] at h
  obtain ⟨_, -, _, -, _, -, _, -, _, -, _, -, _, -, _, -, _, -, _, -, rfl⟩ := h
  exact ⟨rfl, rfl⟩

theorem returns_gap (gap : Option Float) :
    Outcome.Returns (Value.toNumber (((gap.map Value.float).getD .null).orElse defaultGap)) := by
  have hdefault : Outcome.Returns (Value.toNumber defaultGap) := by decide +kernel
  cases gap with
  | none => exact hdefault
  | some x =>
    rw [Option.map_some, Option.getD_some, Value.orElse]
    split
    · exact Outcome.returns_ok x
    · exact hdefault

/-- A flowing text that can be dealt out when it is a single letter can be dealt out with any text. -/
theorem returns_ofFlow (hroom : Outcome.Returns (ofFlow e (.text "x") columns gap .null t width height))
    (htext : Outcome.Returns (Binding.substituteValue text data Binding.noPage)) :
    Outcome.Returns (ofFlow e text columns gap data t width height) := by
  obtain ⟨flow, h⟩ := hroom
  simp only [ofFlow, Outcome.bind_eq_ok, Outcome.pure_eq_ok, Except.ok.injEq] at h
  obtain ⟨style, hstyle, lineHeight, hline, columnWidth, hwidth, size, hsize, maxChars, hmax, letter, hletter,
    letterLines, hletterLines, lineSize, hlineSize, fit, hfit, room, hroom, -⟩ := h
  obtain rfl : "x" = letter := by
    have hx : (Binding.substituteValue (.text "x") .null Binding.noPage) = .ok "x" := by rfl
    exact Except.ok.inj (hx.symm.trans hletter)
  obtain ⟨limit, hlimit, -⟩ := Outcome.bind_eq_ok.mp hletterLines
  obtain ⟨s, hs⟩ := htext
  have hlines : Outcome.Returns (Wrap.linesIn maxChars s) := by
    unfold Wrap.linesIn
    split
    · exact Outcome.returns_ok _
    · rw [hlimit]
      exact Outcome.returns_pure _
  obtain ⟨lines, hlines⟩ := hlines
  simp only [ofFlow, hstyle, hline, hwidth, hsize, hmax, hs, hlines, hlineSize, hfit, hroom, Outcome.ok_bind,
    Outcome.returns_pure]

theorem HasLines.length_le {lines : List String} (h : flow.HasLines text data lines) {page : List String}
    (hpage : page ∈ flow.pages) : page.length ≤ flow.columns := by
  rw [h.pages, pagesOf] at hpage
  split at hpage
  · rw [List.mem_singleton.mp hpage]
    exact h.columns_pos
  · obtain ⟨piece, -, rfl⟩ := List.mem_map.mp hpage
    simp [columnsOf]

end FlowPages

/-! ## Boxes -/

namespace Layout

open Outcome

variable {t : Template} {data : Value} {e : Element} {region : Region} {count page : ℕ}
  {elements others : List Element} {paging : Paging} {table : Table}

/-- The sizes of an element of the document suffice without any data: a table on one page can be filled up,
one that goes on can be dealt out alone and with each of the elements, and a flowing text can be dealt out
when it is a single letter. -/
@[mk_iff]
structure HasRoom (t : Template) (elements : List Element) (e : Element) : Prop where
  padding : ∀ table, e.content = .table table → (e.inBody && table.isAuto) = false →
    ∃ rowHeight, table.rowHeight = .ok rowHeight ∧ Returns (paddingOf e table rowHeight 0)
  table : ∀ table, e.content = .table table → e.inBody = true → table.isAuto = true →
    ∀ few ∈ [] :: elements.map ([·]),
      Returns (TablePages.ofTable e table .null (t.page.rect .body).h few)
  flow : ∀ text columns gap, e.content = .flowText text columns gap → e.inBody = true →
    Returns (FlowPages.ofFlow e (.text "x") columns gap .null t (t.page.rect .body).w
      (t.page.rect .body).h) ∧
    ∀ c : ℕ, c < max 1 columns → Returns (Value.int c).toNumber

instance (t : Template) (elements : List Element) (e : Element) : Decidable (HasRoom t elements e) :=
  decidable_of_iff _ (hasRoom_iff t elements e).symm

theorem returns_pagingOf (hroom : HasRoom t elements e) (he : e.IsReadable)
    (hdata : Json.isDocument data = true) (hbody : e.inBody = true) (hsub : others ⊆ elements)
    (hchecked : ∀ b ∈ elements, b.repeats.isContainer = false) :
    Returns (pagingOf t data others e) := by
  unfold pagingOf
  cases hcontent : e.content with
  | table table =>
    dsimp only
    split
    · rename_i hauto
      have hfew (few : List Element) (h : few ∈ [] :: others.map ([·])) :
          Returns (TablePages.ofTable e table .null (t.page.rect .body).h few) :=
        hroom.table table hcontent hbody hauto few
          (List.cons_subset_cons [] (List.map_subset _ hsub) h)
      have hrows := Table.returns_rowsIn (he.table table hcontent).1 data
      exact (TablePages.returns_ofTable hfew (fun b hb => hchecked b (hsub hb)) hrows).bind
        fun _ _ => returns_pure _
    · exact returns_ok _
  | flowText text columns gap =>
    have htext : Returns (Binding.substituteValue text data Binding.noPage) :=
      Binding.returns_substituteValue (he.field (by simp [hcontent, Content.bindingFields])) hdata _
    exact (FlowPages.returns_ofFlow (hroom.flow text columns gap hcontent hbody).1 htext).bind
      fun _ _ => returns_pure _
  | _ => exact returns_ok _

theorem pagingOf_eq_table {pages : TablePages} (h : pagingOf t data others e = .ok (.table table pages)) :
    e.content = .table table ∧
      TablePages.ofTable e table data (t.page.rect .body).h others = .ok pages := by
  unfold pagingOf at h
  cases hcontent : e.content with
  | table table' =>
    simp only [hcontent] at h
    split at h
    · obtain ⟨pages', hpages, h⟩ := Outcome.bind_eq_ok.mp h
      obtain ⟨rfl, rfl⟩ := Paging.table.inj (Except.ok.inj h)
      exact ⟨rfl, hpages⟩
    · cases h
  | flowText text columns gap =>
    simp only [hcontent] at h
    obtain ⟨flow, -, h⟩ := Outcome.bind_eq_ok.mp h
    cases h
  | _ => simp [hcontent] at h

theorem pagingOf_eq_flow {flow : FlowPages} (h : pagingOf t data others e = .ok (.flow flow)) :
    ∃ text columns gap, e.content = .flowText text columns gap ∧
      FlowPages.ofFlow e text columns gap data t (t.page.rect .body).w (t.page.rect .body).h = .ok flow := by
  unfold pagingOf at h
  cases hcontent : e.content with
  | table table' =>
    simp only [hcontent] at h
    split at h
    · obtain ⟨pages', -, h⟩ := Outcome.bind_eq_ok.mp h
      cases h
    · cases h
  | flowText text columns gap =>
    simp only [hcontent] at h
    obtain ⟨flow', hflow, h⟩ := Outcome.bind_eq_ok.mp h
    obtain rfl := Paging.flow.inj (Except.ok.inj h)
    exact ⟨text, columns, gap, rfl, hflow⟩
  | _ => simp [hcontent] at h

theorem isAuto_of_scheduled (h : pagingOf t data others e = .ok .scheduled)
    (hcontent : e.content = .table table) : table.isAuto = false := by
  simp only [pagingOf, hcontent] at h
  split at h
  · obtain ⟨pages, -, h⟩ := Outcome.bind_eq_ok.mp h
    cases h
  · rename_i hauto
    simpa using hauto

theorem returns_baseBox (he : e.IsReadable) (t : Template) (region : Region) (content : BoxContent) :
    Returns (baseBox t region e content) :=
  (t.returns_resolveStyle he _).bind fun _ _ => returns_pure _

theorem returns_contentOf (hroom : HasRoom t elements e) (he : e.IsReadable)
    (hdata : Json.isDocument data = true)
    (hformats : ∀ table, e.content = .table table → table.FormatsCells t.settings data)
    (hscheduled : ∀ table, e.content = .table table → (e.inBody && table.isAuto) = false)
    (page : PageContext) : Returns (contentOf t data page e) := by
  have hfield {v : Value} (hv : v ∈ e.content.bindingFields) :
      Returns (Binding.substituteValue v data page) :=
    Binding.returns_substituteValue (he.field hv) hdata page
  unfold contentOf
  cases hcontent : e.content with
  | text text rich =>
    exact (hfield (by simp [hcontent, Content.bindingFields])).bind fun _ _ => returns_pure _
  | flowText text columns gap =>
    exact (hfield (by simp [hcontent, Content.bindingFields])).bind fun _ _ => returns_pure _
  | image src fit =>
    exact (hfield (by simp [hcontent, Content.bindingFields])).bind fun _ _ => returns_pure _
  | code value =>
    exact (hfield (by simp [hcontent, Content.bindingFields])).bind fun _ _ => returns_pure _
  | table table =>
    obtain ⟨hpath, hcolumns⟩ := he.table table hcontent
    obtain ⟨rowHeight, hheight, hpadding⟩ := hroom.padding table hcontent (hscheduled table hcontent)
    refine (Table.returns_rowsIn hpath data).bind fun rows hrows => ?_
    rw [hheight, Outcome.ok_bind]
    have hany : Returns (paddingOf e table rowHeight rows.length) := by
      unfold paddingOf at hpadding ⊢
      split at hpadding
      · rename_i hpads
        rw [if_pos hpads]
        exact hpadding.of_bind.bind fun _ _ => returns_pure _
      · rename_i hpads
        rw [if_neg hpads]
        exact returns_ok _
    refine hany.bind fun padding _ => ?_
    exact (Table.returns_tableBox hcolumns hdata (hformats table hcontent) hrows (fun row hrow => hrow)
      padding rowHeight).bind fun _ _ => returns_pure _
  | _ => exact returns_ok _

theorem returns_tablePageBox (he : e.IsReadable) (hdata : Json.isDocument data = true)
    (hcontent : e.content = .table table) (hformats : table.FormatsCells t.settings data) {height : Float}
    {pages : TablePages} (hpages : TablePages.ofTable e table data height others = .ok pages)
    (region : Region) (page : ℕ) : Returns (tablePageBox t region e table pages page) := by
  unfold tablePageBox
  cases hslice : pages.pages[page]? with
  | none => exact returns_ok _
  | some slice =>
    obtain ⟨rows, hrows, hflat⟩ := TablePages.rows_of_ofTable hpages
    have hsome : ∀ row ∈ slice.rows, row ∈ rows := fun row hrow => by
      rw [← hflat]
      exact List.mem_flatten.mpr
        ⟨slice.rows, List.mem_map.mpr ⟨slice, List.mem_of_getElem? hslice, rfl⟩, hrow⟩
    refine (Table.returns_tableBox (he.table table hcontent).2 hdata hformats hrows hsome _ _).bind
      fun content _ => ?_
    exact (returns_baseBox he t region _).bind fun _ _ => returns_pure _

theorem returns_flowPageBoxes {text : Value} {columns : ℕ} {gap : Option Float} {width height : Float}
    {flow : FlowPages} (he : e.IsReadable)
    (hcolumns : ∀ c : ℕ, c < max 1 columns → Returns (Value.int c).toNumber)
    (hflow : FlowPages.ofFlow e text columns gap data t width height = .ok flow) (region : Region)
    (page count : ℕ) : Returns (flowPageBoxes t region e flow page count) := by
  obtain ⟨hnumber, hgap⟩ := FlowPages.figures_of_ofFlow hflow
  obtain ⟨lines, hlines⟩ := FlowPages.hasLines_of_ofFlow hflow
  unfold flowPageBoxes
  split
  · exact returns_ok _
  · rename_i i hi
    rw [Reading.each_eq_mapM]
    refine returns_mapM_iff.mpr fun ⟨s, c⟩ hmem => ?_
    -- A column of a page is one of the columns of the element.
    have hc : c < max 1 columns := by
      have hlt := (List.mem_zipIdx hmem).2.1
      rw [List.getD_eq_getElem?_getD] at hlt
      cases hpage : flow.pages[i]? with
      | none => simp [hpage] at hlt
      | some column =>
        have hle := hlines.length_le (List.mem_of_getElem? hpage)
        rw [hnumber] at hle
        simp only [hpage, Option.getD_some, FlowPages.defaultColumns] at hlt hle
        split at hle <;> omega
    refine (returns_baseBox he t region _).bind fun box _ => ?_
    rw [hgap]
    refine (FlowPages.returns_gap gap).bind fun gap' _ => ?_
    exact (hcolumns c hc).bind fun _ _ => returns_pure _

/-- How an element that is shown is spread over the pages. -/
def Spread (t : Template) (data : Value) (others : List Element) (e : Element) (paging : Paging) : Prop :=
  if e.inBody then pagingOf t data others e = .ok paging else paging = .scheduled

theorem returns_boxesOf (hroom : HasRoom t elements e) (he : e.IsReadable)
    (hdata : Json.isDocument data = true)
    (hformats : ∀ table, e.content = .table table → table.FormatsCells t.settings data)
    (hspread : Spread t data others e paging) (count page : ℕ) (region : Region) :
    Returns (boxesOf t data count page region e paging) := by
  unfold Spread at hspread
  cases paging with
  | scheduled =>
    have hscheduled (table : Table) (hcontent : e.content = .table table) :
        (e.inBody && table.isAuto) = false := by
      cases hbody : e.inBody with
      | false => rfl
      | true =>
        rw [if_pos hbody] at hspread
        exact isAuto_of_scheduled hspread hcontent
    unfold boxesOf
    dsimp only
    split
    · refine (returns_contentOf hroom he hdata hformats hscheduled _).bind fun content _ => ?_
      exact (returns_baseBox he t region content).bind fun _ _ => returns_pure _
    · exact returns_ok _
  | table table pages =>
    split at hspread
    · obtain ⟨hcontent, hpages⟩ := pagingOf_eq_table hspread
      exact returns_tablePageBox he hdata hcontent (hformats table hcontent) hpages region page
    · cases hspread
  | flow flow =>
    split at hspread
    · rename_i hbody
      obtain ⟨text, columns, gap, hcontent, hflow⟩ := pagingOf_eq_flow hspread
      exact returns_flowPageBoxes he (hroom.flow text columns gap hcontent hbody).2 hflow region page count
    · cases hspread

end Layout

end Pagewright
