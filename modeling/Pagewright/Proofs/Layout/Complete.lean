import Pagewright.Proofs.Layout.Hidden
import Pagewright.Proofs.Layout.Returns

/-!
# Documents that are laid out to the end

When every element of a document is fit to be laid out, the plan comes about (`Layout.returns_plan`), each
element is spread as the plan says (`Layout.spread_of_dealt`), and all pages are assembled
(`Layout.returns_assemble`). Conversely a document that was assembled has met the condition of each element
that it places on a page, so these conditions are spelled (`Layout.isSpelled_of_assemble`).
-/

namespace Pagewright.Layout

open Outcome

variable {t : Template} {data : Value} {elements : List Element} {e : Element} {paging : Paging}
  {flags : List Bool} {dealt : List Paging}

/-- An element that can be laid out among some elements with some data. -/
structure IsFit (t : Template) (data : Value) (elements : List Element) (e : Element) : Prop where
  checked : e.IsChecked
  readable : e.IsReadable
  room : HasRoom t elements e
  formats : ∀ table, e.content = .table table → table.FormatsCells t.settings data
  spelled : Condition.IsSpelled e.visibleIf

theorem outcome_isShown (data : Value) (e : Element) :
    (isShown true data e).outcome = Condition.shows e.visibleIf data := rfl

theorem returns_isInBody (he : Condition.IsSpelled e.visibleIf) (data : Value) :
    Returns (isInBody true data e).outcome := by
  unfold isInBody
  split
  · rw [outcome_isShown]
    exact Condition.returns_shows_iff.mpr he
  · exact returns_ok _

theorem inBody_of_isInBody (h : (isInBody true data e).outcome = .ok true) : e.inBody = true := by
  unfold isInBody at h
  split at h
  · rename_i hbody
    exact (Bool.and_eq_true_iff.mp hbody).1
  · cases h

theorem selected_subset (elements : List Element) (flags : List Bool) : selected elements flags ⊆ elements := by
  intro e he
  obtain ⟨⟨e', flag⟩, hmem, rfl⟩ := List.mem_map.mp he
  exact (List.of_mem_zip (List.mem_filter.mp hmem).1).1

/-! ## The plan -/

theorem returns_pagings (hfit : ∀ e ∈ elements, IsFit t data elements e) (hdata : Json.isDocument data = true)
    (hflags : elements.mapM (fun e => (isInBody true data e).outcome) = .ok flags) :
    Returns (pagings t data (selected elements flags) (elements.zip flags)) := by
  refine returns_mapM_iff.mpr fun ⟨e, flag⟩ hmem => ?_
  dsimp only
  split
  · rename_i hflag
    have he := (List.of_mem_zip hmem).1
    have hmarked := (List.forall₂_iff_zip.mp (mapM_eq_ok.mp hflags)).2 hmem
    exact returns_pagingOf (hfit e he).room (hfit e he).readable hdata
      (inBody_of_isInBody (hflag ▸ hmarked)) (selected_subset elements flags)
      fun b hb => (hfit b hb).checked.repeats
  · exact returns_ok _

theorem returns_plan (hfit : ∀ e ∈ elements, IsFit t data elements e) (hdata : Json.isDocument data = true) :
    ∃ flags dealt, elements.mapM (fun e => (isInBody true data e).outcome) = .ok flags ∧
      pagings t data (selected elements flags) (elements.zip flags) = .ok dealt ∧
      (plan t data true elements).outcome = .ok ⟨elements.zip dealt, countPages t (elements.zip dealt)⟩ := by
  obtain ⟨flags, hflags⟩ := returns_mapM_iff.mpr fun e he => returns_isInBody (hfit e he).spelled data
  obtain ⟨dealt, hdealt⟩ := returns_pagings hfit hdata hflags
  exact ⟨flags, dealt, hflags, hdealt, outcome_plan hflags hdealt⟩

theorem spread_of_dealt (hflags : elements.mapM (fun e => (isInBody true data e).outcome) = .ok flags)
    (hdealt : pagings t data (selected elements flags) (elements.zip flags) = .ok dealt)
    (hmem : (e, paging) ∈ elements.zip dealt) (hinclusion : e.isInclusion = false)
    (hshown : (isShown true data e).outcome = .ok true) :
    Spread t data (selected elements flags) e paging := by
  obtain ⟨i, hi⟩ := List.getElem?_of_mem hmem
  obtain ⟨he, hpaging⟩ := List.getElem?_zip_eq_some.mp hi
  obtain ⟨flag, hflag, hmark⟩ := getElem?_of_mapM hflags he
  have hmarked : (elements.zip flags)[i]? = some (e, flag) := List.getElem?_zip_eq_some.mpr ⟨he, hflag⟩
  obtain ⟨paging', hpaging', hdeal⟩ := getElem?_of_mapM hdealt hmarked
  obtain rfl := Option.some.inj (hpaging.symm.trans hpaging')
  have hbody : flag = e.inBody := by
    cases hin : e.inBody with
    | true => simpa [isInBody, hin, hinclusion, hshown, eq_comm] using hmark
    | false => simpa [isInBody, hin, eq_comm] using hmark
  subst hbody
  unfold Spread
  dsimp only at hdeal
  split at hdeal
  · rename_i hin
    rw [if_pos hin]
    exact hdeal
  · rename_i hin
    rw [if_neg hin]
    exact (Except.ok.inj hdeal).symm

/-! ## The pages -/

theorem returns_placeElement (hfit : IsFit t data elements e) (hdata : Json.isDocument data = true)
    {others : List Element}
    (hspread : e.isInclusion = false → (isShown true data e).outcome = .ok true →
      Spread t data others e paging) (count page : ℕ) :
    Returns (placeElement t data true count page e paging).outcome := by
  rw [outcome_placeElement]
  split
  · exact returns_ok _
  · rename_i region hregion
    split
    · exact returns_ok _
    · rename_i hinclusion
      have hinclusion : e.isInclusion = false := by simpa using hinclusion
      have hcondition : Returns (Condition.shows e.visibleIf data) :=
        Condition.returns_shows_iff.mpr hfit.spelled
      obtain ⟨shown, hshown⟩ := hcondition
      rw [outcome_isShown, hshown, ok_bind]
      cases shown with
      | false => exact returns_ok _
      | true =>
        exact returns_boxesOf hfit.room hfit.readable hdata hfit.formats (hspread hinclusion hshown)
          count page region

/-- A document whose elements are fit is laid out. -/
theorem returns_assemble (hexpand : t.expand = .ok elements) (hfit : ∀ e ∈ elements, IsFit t data elements e)
    (hdata : Json.isDocument data = true) : Returns (assemble t data true none).outcome := by
  obtain ⟨flags, dealt, hflags, hdealt, hplan⟩ := returns_plan hfit hdata
  have hpages (pages : List ℕ) (p : Plan) (hp : p.elements = elements.zip dealt) :
      Returns (pages.mapM fun page => (assemblePage t data true p page).outcome) := by
    refine returns_mapM_iff.mpr fun page _ => ?_
    rw [outcome_assemblePage]
    have hboxes : Returns (boxesOn t data true p page) := by
      unfold boxesOn
      rw [hp]
      refine returns_mapM_iff.mpr fun ⟨e, paging⟩ hmem => ?_
      exact returns_placeElement (hfit e (List.of_mem_zip hmem).1) hdata
        (spread_of_dealt hflags hdealt hmem) _ page
    obtain ⟨boxes, hboxes⟩ := hboxes
    exact ⟨_, map_eq_ok.mpr ⟨boxes, hboxes, rfl⟩⟩
  rw [outcome_assemble, planOf, hexpand, ok_bind, hplan, ok_bind]
  exact (hpages _ _ rfl).bind fun _ _ => returns_ok _

/-! ## Conditions that were met -/

/-- In a document that was laid out, each element with a place has a condition that is a text or not
given. -/
theorem isSpelled_of_assemble {d : DocumentLayout} (h : (assemble t data true none).outcome = .ok d)
    (hexpand : t.expand = .ok elements) (he : e ∈ elements) (hregion : (regionOf? e).isSome = true)
    (hinclusion : e.isInclusion = false) : Condition.IsSpelled e.visibleIf := by
  obtain ⟨a⟩ := assembly_of_assemble h
  obtain rfl := Except.ok.inj (hexpand.symm.trans a.expand_eq)
  obtain ⟨flags, body, dealt, hflags, -, hdealt, hplan⟩ := plan_eq_ok a.plan_eq
  obtain ⟨i, hi⟩ := List.getElem?_of_mem he
  obtain ⟨flag, hflag, -⟩ := getElem?_of_mapM hflags hi
  have hmarked : (a.elements.zip flags)[i]? = some (e, flag) := List.getElem?_zip_eq_some.mpr ⟨hi, hflag⟩
  obtain ⟨paging, hpaging, -⟩ := getElem?_of_mapM hdealt hmarked
  have hplanned : a.plan.elements[i]? = some (e, paging) := by
    rw [hplan]
    exact List.getElem?_zip_eq_some.mpr ⟨hi, hpaging⟩
  have hfirst : 0 < a.plan.pageCount := by
    rw [hplan]
    exact countPages_pos t _
  obtain ⟨boxes, -, hplace⟩ := getElem?_of_mapM (a.boxes_eq 0 hfirst) hplanned
  obtain ⟨region, hregion⟩ := Option.isSome_iff_exists.mp hregion
  simp only [placeElement, hregion, hinclusion] at hplace
  rw [if_neg Bool.false_ne_true, Logged.outcome_bind, outcome_isShown] at hplace
  exact Condition.returns_shows_iff.mp (Returns.of_bind ⟨boxes, hplace⟩)

end Pagewright.Layout
