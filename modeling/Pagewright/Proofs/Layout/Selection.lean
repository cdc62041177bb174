import Mathlib.Data.List.Sort
import Pagewright.Proofs.Layout.Tables

/-!
# Some pages of a document

A document can be assembled for some of its pages only. What is asked for may name pages in any order, more
than once, or where there are none. The pages that exist are taken once each and in ascending order
(`Layout.wanted_some`).

Each page is assembled from the plan alone and not from the pages before it, so it is the page that the whole
document has in this place (`Layout.assemble_selected_pages`).
-/

namespace Pagewright.Layout

variable {t : Template} {data : Value} {evaluate : Bool} {d : DocumentLayout} {p q : ℕ} {ps : List ℕ}

/-! ## The pages asked for -/

theorem mem_insertPage : q ∈ insertPage p ps ↔ q = p ∨ q ∈ ps := by
  induction ps with
  | nil => simp [insertPage]
  | cons first rest ih =>
    rw [insertPage]
    split
    · simp
    split
    · rename_i heq
      simp [heq]
    · simp only [List.mem_cons, ih]
      tauto

theorem pairwise_insertPage (h : ps.Pairwise (· < ·)) : (insertPage p ps).Pairwise (· < ·) := by
  induction ps with
  | nil => simp [insertPage]
  | cons first rest ih =>
    obtain ⟨hfirst, hrest⟩ := List.pairwise_cons.mp h
    rw [insertPage]
    split
    · rename_i hlt
      exact List.pairwise_cons.mpr
        ⟨List.forall_mem_cons.mpr ⟨hlt, fun q hq => hlt.trans (hfirst q hq)⟩, h⟩
    split
    · exact h
    · refine List.pairwise_cons.mpr ⟨fun q hq => ?_, ih hrest⟩
      rcases mem_insertPage.mp hq with rfl | hq
      · omega
      · exact hfirst q hq

theorem mem_foldr_insertPage : p ∈ ps.foldr insertPage [] ↔ p ∈ ps := by
  induction ps with
  | nil => rfl
  | cons first rest ih => rw [List.foldr_cons, mem_insertPage, ih, List.mem_cons]

theorem pairwise_foldr_insertPage (ps : List ℕ) : (ps.foldr insertPage []).Pairwise (· < ·) := by
  induction ps with
  | nil => exact List.Pairwise.nil
  | cons first rest ih => exact pairwise_insertPage ih

theorem wanted_none (count : ℕ) : wanted count none = List.range count := rfl

/-- The pages asked for that exist are taken once each and in ascending order. -/
theorem wanted_some (count : ℕ) (asked : List ℤ) :
    wanted count (some asked) = (List.range count).filter fun page : ℕ => (page : ℤ) ∈ asked := by
  refine List.Pairwise.eq_of_mem_iff (pairwise_foldr_insertPage _) (List.pairwise_lt_range.filter _) fun page => ?_
  rw [wanted, mem_foldr_insertPage, List.mem_filter, List.mem_range, List.mem_map]
  simp only [List.mem_filter, Bool.and_eq_true, decide_eq_true_eq]
  constructor
  · rintro ⟨z, ⟨hz, hnonneg, hlt⟩, rfl⟩
    exact ⟨by omega, by rwa [Int.toNat_of_nonneg hnonneg]⟩
  · rintro ⟨hlt, hasked⟩
    exact ⟨page, ⟨hasked, by omega, by omega⟩, Int.toNat_natCast page⟩

/-! ## The document -/

/-- When a document is laid out, asking for some of its pages gives these pages as they are in the whole, each
once and in ascending order, and the number of pages stays that of the whole. -/
theorem assemble_selected_pages (h : (assemble t data evaluate none).outcome = .ok d) (asked : List ℤ) :
    (assemble t data evaluate (some asked)).outcome =
      .ok { d with pages := (d.pages.zipIdx.filter fun p => (p.2 : ℤ) ∈ asked).map Prod.fst } := by
  obtain ⟨plan, pages, hplan, hpages, rfl⟩ := assemble_eq_ok h
  rw [wanted_none] at hpages
  have hlength : pages.length = plan.pageCount := by simpa using Outcome.length_of_mapM hpages
  have hzip : pages.zipIdx = pages.zip (List.range plan.pageCount) := by
    rw [List.zipIdx_eq_zip_range', hlength, List.range_eq_range']
  rw [outcome_assemble, hplan, Outcome.ok_bind, wanted_some, Outcome.mapM_filter hpages, hzip]
  rfl

/-- Of two pages the second is asked for twice, between pages that do not exist. -/
theorem assemble_selected_pages_second : ∃ d first second,
    (assemble itemTemplate threeItems true none).outcome = .ok d ∧ d.pages = [first, second] ∧
    (assemble itemTemplate threeItems true (some [1, 7, -1, 1])).outcome = .ok { d with pages := [second] } := by
  have hexpand : itemTemplate.expandLogged = ⟨[], .ok itemTemplate.elements⟩ := by cbv
  have hpages : ∃ d, (assemble itemTemplate threeItems true none).outcome = .ok d ∧ d.pages.length = 2 := by
    unfold assemble
    rw [hexpand]
    decide +kernel
  obtain ⟨d, hd, hlength⟩ := hpages
  obtain ⟨first, second, hpages⟩ := List.length_eq_two.mp hlength
  refine ⟨d, first, second, hd, hpages, ?_⟩
  rw [assemble_selected_pages hd, hpages]
  rfl

end Pagewright.Layout
