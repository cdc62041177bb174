import Pagewright.Proofs.Layout.Filling
import Pagewright.Proofs.Layout.Returns
import Pagewright.Proofs.Number.Order

/-!
# Caps on the height of tables

An element below a table caps the height of the table on the pages on which it counts as standing. These are
told from its rule before the number of pages is known, while the pages that it is on are told from its rule
and the number of pages. An element that is on a page counts there, but for two rules
(`Element.countsOn_iff`): one that is not known puts an element on the first page without counting there, and
so does the rule for the last page if there is no other page.

What counts is a cap (`TablePages.capped_of_isOnPage`): the height of the table on that page ends at the
element or above, and the table has no more rows there than fit into this height.
-/

namespace Pagewright

/-! ## Counting on a page -/

namespace RepeatRule

variable {rule : RepeatRule} {page count : ℕ}

/-- Of the rules for the first page, those count that are known and not for the last page. -/
theorem mem_first_iff (h : rule.covers 0 count = true) :
    rule ∈ [first, all] ↔ ¬ (rule = unknown ∨ rule = last ∧ count = 1) := by
  cases rule with
  | all | first => simp
  | afterFirst | middle => cases h
  | last =>
    have hcount : (0 : ℤ) = count - 1 := of_decide_eq_true h
    have hone : count = 1 := by omega
    simp [hone]
  | unknown => simp

/-- All rules for a page after the first one count there. -/
theorem mem_later_iff (hfirst : page ≠ 0) (hpage : page < count) (h : rule.covers page count = true) :
    rule ∈ [all, afterFirst, middle, last] ↔ ¬ (rule = unknown ∨ rule = last ∧ count = 1) := by
  cases rule with
  | all | afterFirst | middle => simp
  | last =>
    have hone : count ≠ 1 := by omega
    simp [hone]
  | first | unknown =>
    have hzero : (page : ℤ) = 0 := of_decide_eq_true h
    omega

end RepeatRule

namespace Element

variable {e : Element} {page count : ℕ} {rules : List RepeatRule}

/-- Whether an element counts as standing on a page. -/
def countsOn (e : Element) (page : ℕ) : Outcome Bool :=
  if page = 0 then e.isOnFirstPage else e.isOnLaterPages

/-- On the first page an element escapes being counted under a rule that is not known, and under the rule for
the last page if that is the first one. -/
def EscapesCaps (e : Element) (count : ℕ) : Prop :=
  e.page = none ∧ (e.rule = .unknown ∨ e.rule = .last ∧ count = 1)

theorem rule_of_isContainer (h : e.effectiveRepeat.isContainer = true) : e.rule = .unknown := by
  unfold rule
  cases hrule : e.effectiveRepeat with
  | list | object => rfl
  | _ => simp [hrule, Value.isContainer] at h

theorem ruleAmong_eq_ok_true_iff (hknown : .unknown ∉ rules) : e.ruleAmong rules = .ok true ↔ e.rule ∈ rules := by
  unfold ruleAmong
  split
  · rename_i hcontainer
    rw [rule_of_isContainer hcontainer]
    refine ⟨fun h => ?_, fun h => absurd h hknown⟩
    cases h
  · rw [Except.ok.injEq, List.contains_iff_mem]

theorem countsOn_iff (hpage : page < count) (hon : e.isOnPage page count = true) :
    e.countsOn page = .ok true ↔ ¬ e.EscapesCaps count := by
  unfold isOnPage at hon
  unfold countsOn isOnFirstPage isOnLaterPages EscapesCaps
  cases hpin : e.page with
  | some pin =>
    rw [hpin] at hon
    have hpage : page + 1 = pin := of_decide_eq_true hon
    subst hpage
    by_cases hfirst : page = 0
    · simp [hfirst]
    · have hlater : 1 < page + 1 := by omega
      simp [hfirst, hlater]
  | none =>
    rw [hpin] at hon
    by_cases hfirst : page = 0
    · subst hfirst
      show e.ruleAmong [.first, .all] = .ok true ↔ _
      rw [ruleAmong_eq_ok_true_iff (by decide), RepeatRule.mem_first_iff hon]
      simp
    · rw [if_neg hfirst]
      show e.ruleAmong [.all, .afterFirst, .middle, .last] = .ok true ↔ _
      rw [ruleAmong_eq_ok_true_iff (by decide), RepeatRule.mem_later_iff hfirst hpage hon]
      simp

end Element

/-! ## The least place -/

namespace Table

variable {top y z : Float} {ys : List Float}

theorem smaller_le (hy : top < y) (hz : top < z) : smaller y z ≤ y ∧ smaller y z ≤ z := by
  have hrefl {x : Float} (hx : top < x) : x ≤ x := Binary64.le_of_not_lt hx hx (Binary64.not_lt_self x)
  unfold smaller
  split
  · rename_i hlt
    exact ⟨Binary64.le_of_not_lt hz hy fun hgt => Binary64.not_lt_self z (Binary64.lt_of_lt hlt hgt), hrefl hz⟩
  · rename_i hge
    exact ⟨hrefl hy, Binary64.le_of_not_lt hy hz hge⟩

theorem foldl_smaller_le (hz : top < z) (hys : ∀ y ∈ ys, top < y) : ∀ y ∈ z :: ys, ys.foldl smaller z ≤ y := by
  induction ys generalizing z with
  | nil =>
    intro y hy
    rw [List.mem_singleton.mp hy]
    exact Binary64.le_of_not_lt hz hz (Binary64.not_lt_self z)
  | cons x ys ih =>
    rw [List.forall_mem_cons] at hys
    have hsmaller : top < smaller z x := by
      rcases smaller_eq z x with h | h <;> rw [h]
      · exact hz
      · exact hys.1
    have hle := List.forall_mem_cons.mp (ih hsmaller hys.2)
    obtain ⟨hlez, hlex⟩ := smaller_le hz hys.1
    rw [List.foldl_cons, List.forall_mem_cons, List.forall_mem_cons]
    exact ⟨Binary64.le_trans hle.1 hlez, Binary64.le_trans hle.1 hlex, hle.2⟩

theorem exists_least (hys : ∀ y ∈ ys, top < y) (hy : y ∈ ys) : ∃ least, least? ys = some least ∧ least ≤ y := by
  rcases ys with _ | ⟨z, ys⟩
  · cases hy
  · rw [List.forall_mem_cons] at hys
    exact ⟨_, rfl, foldl_smaller_le hys.1 hys.2 y hy⟩

theorem exists_ceiling {blockers : List Element} {isOnPage : Element → Outcome Bool} {ceiling : Option Float}
    (h : ceiling? blockers top isOnPage = .ok ceiling) {b : Element} (hb : b ∈ blockers) (hbelow : top < b.y)
    (hcounts : isOnPage b = .ok true) : ∃ cap, ceiling = some cap ∧ cap ≤ b.y := by
  obtain ⟨below, hfilter, h⟩ := Outcome.bind_eq_ok.mp h
  have hmem (b : Element) : b ∈ below ↔ b ∈ blockers ∧ top < b.y ∧ isOnPage b = .ok true := by
    rw [Outcome.mem_filterM_iff hfilter]
    refine and_congr_right fun _ => ?_
    split
    · rename_i hbelow
      simp [show top < b.y from hbelow]
    · rename_i habove
      simp [show ¬ top < b.y from habove]
  have hplaces : ∀ y ∈ below.map (·.y), top < y := by
    intro y hy
    obtain ⟨b, hb, rfl⟩ := List.mem_map.mp hy
    exact ((hmem b).mp hb).2.1
  have hplace : b.y ∈ below.map (·.y) := List.mem_map.mpr ⟨b, (hmem b).mpr ⟨hb, hbelow, hcounts⟩, rfl⟩
  obtain ⟨cap, hcap, hle⟩ := exists_least hplaces hplace
  exact ⟨cap, (Except.ok.inj h).symm.trans hcap, hle⟩

/-- The place of a table on a page. -/
def topOn (t : Table) (e : Element) (page : ℕ) : Float := if page = 0 then e.y else t.otherTop e

/-- The height of a table on a page, blockers aside. -/
def baseOn (t : Table) (e : Element) (height : Float) (page : ℕ) : Float :=
  if page = 0 then firstBase e height else t.otherBase e height

end Table

/-! ## Capped pages -/

namespace TablePages

variable {e b : Element} {table : Table} {data : Value} {height : Float} {others : List Element}
  {pages : TablePages} {page count : ℕ}

/-- The height that a table has on a page. -/
def availableOn (p : TablePages) (page : ℕ) : Float := if page = 0 then p.firstAvailable else p.otherAvailable

/-- The height on a page comes from what counts there, and the rows that have room from the height. -/
theorem availableOn_of_ofTable (h : ofTable e table data height others = .ok pages) (page : ℕ) :
    ∃ ceiling,
      Table.ceiling? (others.filter fun b => b.id != e.id) (table.topOn e page) (·.countsOn page) = .ok ceiling ∧
      pages.availableOn page = Table.available (table.baseOn e height page) (table.topOn e page) ceiling ∧
      Table.capacity (pages.availableOn page) pages.rowHeight = .ok (pages.roomOn page) := by
  simp only [ofTable, Outcome.bind_eq_ok, Outcome.pure_eq_ok, Except.ok.injEq] at h
  obtain ⟨rows, -, rowHeight, -, firstCeiling, hfirst, otherCeiling, hother, first, hfirstFits, other, hotherFits,
    rfl⟩ := h
  by_cases hpage : page = 0
  · subst hpage
    exact ⟨firstCeiling, hfirst, rfl, hfirstFits⟩
  · simp only [Table.topOn, Table.baseOn, Element.countsOn, availableOn, roomOn, if_neg hpage]
    exact ⟨otherCeiling, hother, rfl, hotherFits⟩

/-- No page has more rows than it has room for, empty ones included. -/
theorem length_le_roomOn (h : ofTable e table data height others = .ok pages) {slice : TableSlice}
    (hslice : pages.pages[page]? = some slice) : slice.rows.length + slice.padding ≤ pages.roomOn page := by
  obtain ⟨rows, -, hpages, -, hother⟩ := pages_of_ofTable h
  obtain ⟨init, last, hslices, hinit, hlast, -, -⟩ := Table.slices_eq_concat hother rows pages.firstCapacity
  rw [hpages, table.pagesOf_eq_concat hslices, List.getElem?_append] at hslice
  rw [List.length_map] at hslice
  split at hslice
  · rw [List.getElem?_map, Option.map_eq_some_iff] at hslice
    obtain ⟨piece, hpiece, rfl⟩ := hslice
    exact (hinit page piece hpiece).le
  · obtain ⟨hlt, rfl⟩ := List.getElem?_eq_some_iff.mp hslice
    obtain rfl : page = init.length := by
      rw [List.length_singleton] at hlt
      omega
    have hroom : last.length ≤ pages.roomOn init.length := hlast
    simp only [Nat.sub_self, List.getElem_cons_zero]
    split
    · exact (Nat.add_sub_cancel' hroom).le
    · exact hroom

/-- An element that is on a page below a table counts there, unless it escapes. If it counts, it caps the
height of the table on that page, so the table has no more rows there than fit above a place that is not
below the element. -/
theorem capped_of_isOnPage (hpage : page < count) (hon : b.isOnPage page count = true) :
    (b.countsOn page = .ok true ↔ ¬ b.EscapesCaps count) ∧
      (¬ b.EscapesCaps count → ∀ e table data height others pages,
        ofTable e table data height others = .ok pages → b ∈ others → b.id ≠ e.id →
        table.topOn e page < b.y →
        ∃ cap ≤ b.y,
          pages.availableOn page =
            Table.available (table.baseOn e height page) (table.topOn e page) (some cap) ∧
          Table.capacity (pages.availableOn page) pages.rowHeight = .ok (pages.roomOn page) ∧
          ∀ slice, pages.pages[page]? = some slice →
            slice.rows.length + slice.padding ≤ pages.roomOn page) := by
  have hcounts := Element.countsOn_iff hpage hon
  refine ⟨hcounts, ?_⟩
  intro hescapes e table data height others pages h hb hid hbelow
  obtain ⟨ceiling, hceiling, havailable, hcapacity⟩ := availableOn_of_ofTable h page
  have hblocker : b ∈ others.filter fun b => b.id != e.id := List.mem_filter.mpr ⟨hb, by simpa using hid⟩
  obtain ⟨cap, rfl, hle⟩ := Table.exists_ceiling hceiling hblocker hbelow (hcounts.mpr hescapes)
  exact ⟨cap, hle, havailable, hcapacity, fun slice hslice => length_le_roomOn h hslice⟩

/-- A line on all pages, at 80. -/
def footLine : Element :=
  ⟨"foot", .null, 0, 80, 40, 0, none, .null, .null, .text "all", none, none, .line⟩

/-- The line leaves room for one row on the first page. -/
theorem capped_of_isOnPage_footLine :
    ∃ pages, ofTable ledgerElement ledgerTable sevenItems 90 [footLine] = .ok pages ∧
      footLine.countsOn 0 = .ok true ∧ pages.roomOn 0 = 1 ∧
      ∃ cap ≤ footLine.y, pages.availableOn 0 = Table.available 30 60 (some cap) := by
  obtain ⟨pages, hpages, hroom⟩ :
      ∃ pages, ofTable ledgerElement ledgerTable sevenItems 90 [footLine] = .ok pages ∧ pages.roomOn 0 = 1 := by
    decide +kernel
  have hon : footLine.isOnPage 0 1 = true := by decide
  obtain ⟨hcounts, hcapped⟩ := capped_of_isOnPage (by decide) hon
  have hescapes : ¬ footLine.EscapesCaps 1 := by
    rintro ⟨-, h | ⟨h, -⟩⟩ <;> exact absurd h (by decide)
  obtain ⟨cap, hle, havailable, -, -⟩ := hcapped hescapes ledgerElement ledgerTable sevenItems 90 [footLine]
    pages hpages (List.mem_singleton_self _) (by decide) (by decide +kernel)
  have hbase : ledgerTable.baseOn ledgerElement 90 0 = 30 := by decide +kernel
  rw [hbase] at havailable
  exact ⟨pages, hpages, hcounts.mpr hescapes, hroom, cap, hle, havailable⟩

/-- A line on the last page, at 80. -/
def closingLine : Element :=
  ⟨"closing", .null, 0, 80, 40, 0, none, .null, .null, .text "last", none, none, .line⟩

/-- An element on a page need not count there: the last page may be the first. -/
theorem not_countsOn_closingLine :
    ¬ ∀ (e : Element) (page count : ℕ), page < count → e.isOnPage page count = true →
      e.countsOn page = .ok true := by
  intro h
  have hcounts : (Except.ok false : Outcome Bool) = .ok true :=
    h closingLine 0 1 (by decide) (by decide)
  cases hcounts

end TablePages

end Pagewright
