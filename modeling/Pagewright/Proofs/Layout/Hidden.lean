import Pagewright.Proofs.Condition.Conjunction
import Pagewright.Proofs.Layout.Assembly

/-!
# Hidden inclusions

Copies of the elements of a partial are shown only if their inclusion is: what the condition of the
inclusion hides, the condition of a copy hides as well, even where the element's own condition cannot be
evaluated and would show it (`Template.isHidden_of_cloneChild`).

Hidden elements give nothing to a document. They are not in the visible body (`isInBody_of_isHidden`), so
they are not spread over pages and the others are planned as if they were not there (`plan_of_isHidden`),
and they have no boxes (`placeElement_of_isHidden`). The document of a template with a hidden inclusion is
laid out from the plan of the other elements (`assemble_hidden_inclusion`).
-/

namespace Pagewright

/-- An element that its condition hides. -/
def Element.IsHidden (data : Value) (e : Element) : Prop := Condition.shows e.visibleIf data = .ok false

variable {t : Template} {data : Value}

namespace Template

variable {e child clone : Element}

theorem isHidden_of_cloneChild (h : cloneChild e child = .ok clone) (hhidden : e.IsHidden data) :
    clone.IsHidden data := by
  obtain ⟨condition, hcondition, hclone⟩ := Outcome.bind_eq_ok.mp h
  obtain rfl := Except.ok.inj hclone
  have hshows := Condition.shows_of_conjoin hcondition hhidden
  have hgiven : (Value.text condition).isGiven = true := by
    by_contra hempty
    obtain rfl : condition = "" := by simpa [Value.isGiven] using hempty
    exact absurd hshows (by simp [Condition.shows, Text.isBlankText])
  simp only [Element.IsHidden, Value.orElse, hgiven, if_true]
  exact hshows

theorem exists_cloneChild {condition : Option String} (hhidden : e.IsHidden data)
    (hcondition : child.visibleIf = Condition.given condition) : ∃ clone, cloneChild e child = .ok clone := by
  obtain ⟨firsts, hfirsts⟩ := Condition.exists_alternativesOf_of_shows hhidden
  obtain ⟨text, htext⟩ := Condition.exists_conjoin hfirsts condition
  rw [cloneChild, hcondition, htext]
  exact ⟨_, rfl⟩

/-- A hidden inclusion is replaced by hidden copies, whatever conditions the elements of the partial
have. -/
theorem exists_expandElement {ref : Value} {children : List Element} (hhidden : e.IsHidden data)
    (hinclusion : e.content.inclusion? = some ref) (hpartial : t.partial? ref = .ok (some children))
    (hconditions : ∀ child ∈ children, ∃ condition, child.visibleIf = Condition.given condition) :
    ∃ clones, t.expandElement e = .ok clones ∧ children.mapM (cloneChild e) = .ok clones := by
  have hclones : ∀ child ∈ children, ∃ clone, cloneChild e child = .ok clone := by
    intro child hchild
    obtain ⟨condition, hcondition⟩ := hconditions child hchild
    exact exists_cloneChild hhidden hcondition
  choose! clone hclone using hclones
  have hall := Outcome.mapM_eq_map hclone
  refine ⟨children.map clone, ?_, hall⟩
  rw [expandElement, hinclusion]
  simp only [hpartial, Outcome.ok_bind]
  exact hall

/-- The copies of an inclusion stand in its place. -/
theorem exists_of_expand {first last elements : List Element} (helements : t.elements = first ++ e :: last)
    {clones : List Element} (hclones : t.expandElement e = .ok clones) (h : t.expand = .ok elements) :
    ∃ before after, List.flatten <$> first.mapM t.expandElement = .ok before ∧
      List.flatten <$> last.mapM t.expandElement = .ok after ∧ elements = before ++ clones ++ after := by
  obtain ⟨cycle, -, h⟩ := Outcome.bind_eq_ok.mp h
  cases cycle with
  | some names => simp at h
  | none =>
    obtain ⟨parts, hparts, h⟩ := Outcome.bind_eq_ok.mp h
    obtain rfl := Except.ok.inj h
    rw [helements, ← List.singleton_append, Outcome.mapM_append_eq_ok] at hparts
    obtain ⟨before, rest, hbefore, hrest, rfl⟩ := hparts
    obtain ⟨own, after, hown, hafter, rfl⟩ := Outcome.mapM_append_eq_ok.mp hrest
    obtain rfl : own = [clones] := by simpa [hclones] using hown.symm
    exact ⟨before.flatten, after.flatten, by rw [hbefore]; rfl, by rw [hafter]; rfl, by simp⟩

end Template

namespace Layout

variable {before hidden after : List Element}

theorem isShown_of_isHidden {e : Element} (h : e.IsHidden data) :
    (isShown true data e).outcome = .ok false := h

theorem isInBody_of_isHidden {e : Element} (h : e.IsHidden data) :
    (isInBody true data e).outcome = .ok false := by
  unfold isInBody
  split
  · exact isShown_of_isHidden h
  · rfl

/-- A hidden element has no box on any page, however it is spread. -/
theorem placeElement_of_isHidden {e : Element} (h : e.IsHidden data) (count page : ℕ) (paging : Paging) :
    (placeElement t data true count page e paging).outcome = .ok [] := by
  rw [outcome_placeElement, isShown_of_isHidden h]
  cases regionOf? e with
  | none => rfl
  | some region => exact ite_self _

/-! ## The plan -/

/-- The elements that are marked. -/
def selected (elements : List Element) (flags : List Bool) : List Element :=
  ((elements.zip flags).filter (·.2)).map (·.1)

theorem visibleBody_eq {evaluate : Bool} {elements : List Element} {flags : List Bool}
    (h : elements.mapM (fun e => (isInBody evaluate data e).outcome) = .ok flags) :
    visibleBody evaluate data elements = .ok (selected elements flags) := by
  rw [visibleBody, h]
  rfl

theorem selected_append {elements : List Element} {flags : List Bool}
    (h : elements.length = flags.length) (elements' : List Element) (flags' : List Bool) :
    selected (elements ++ elements') (flags ++ flags') =
      selected elements flags ++ selected elements' flags' := by
  rw [selected, List.zip_append h, List.filter_append, List.map_append]
  rfl

theorem selected_map_false (elements : List Element) :
    selected elements (elements.map fun _ => false) = [] := by
  induction elements with
  | nil => rfl
  | cons e elements ih => simpa [selected] using ih

theorem exists_flags_of_isHidden (hhidden : ∀ e ∈ hidden, e.IsHidden data) {flags : List Bool}
    (h : (before ++ hidden ++ after).mapM (fun e => (isInBody true data e).outcome) = .ok flags) :
    ∃ flagsBefore flagsAfter, before.mapM (fun e => (isInBody true data e).outcome) = .ok flagsBefore ∧
      after.mapM (fun e => (isInBody true data e).outcome) = .ok flagsAfter ∧
      flags = flagsBefore ++ hidden.map (fun _ => false) ++ flagsAfter := by
  obtain ⟨rest, flagsAfter, hrest, hafter, rfl⟩ := Outcome.mapM_append_eq_ok.mp h
  obtain ⟨flagsBefore, own, hbefore, hown, rfl⟩ := Outcome.mapM_append_eq_ok.mp hrest
  have hfalse := Outcome.mapM_eq_map fun e he => isInBody_of_isHidden (hhidden e he)
  obtain rfl := Except.ok.inj (hown.symm.trans hfalse)
  exact ⟨flagsBefore, flagsAfter, hbefore, hafter, rfl⟩

theorem pagings_map_false (body elements : List Element) :
    pagings t data body (elements.zip (elements.map fun _ => false)) =
      .ok (elements.map fun _ => .scheduled) := by
  induction elements with
  | nil => rfl
  | cons e elements ih =>
    rw [pagings] at ih ⊢
    rw [List.map_cons, List.zip_cons_cons, List.mapM_cons, ih]
    rfl

/-- Hidden elements are scheduled, and the others are dealt out without them. -/
theorem exists_dealt_of_isHidden {body : List Element} {flagsBefore flagsAfter : List Bool}
    {dealt : List Paging} (hlength : before.length = flagsBefore.length)
    (h : pagings t data body ((before ++ hidden ++ after).zip
      (flagsBefore ++ hidden.map (fun _ => false) ++ flagsAfter)) = .ok dealt) :
    ∃ dealtBefore dealtAfter, pagings t data body (before.zip flagsBefore) = .ok dealtBefore ∧
      pagings t data body (after.zip flagsAfter) = .ok dealtAfter ∧
      dealt = dealtBefore ++ hidden.map (fun _ => Paging.scheduled) ++ dealtAfter := by
  have hhidden : (before ++ hidden).length = (flagsBefore ++ hidden.map fun _ => false).length := by
    simp [hlength]
  rw [List.zip_append hhidden, List.zip_append hlength, pagings, Outcome.mapM_append_eq_ok] at h
  obtain ⟨rest, dealtAfter, hrest, hafter, rfl⟩ := h
  obtain ⟨dealtBefore, own, hbefore, hown, rfl⟩ := Outcome.mapM_append_eq_ok.mp hrest
  obtain rfl := Except.ok.inj (hown.symm.trans (pagings_map_false _ hidden))
  exact ⟨dealtBefore, dealtAfter, hbefore, hafter, rfl⟩

/-- A plan comes about from the marks of the elements and the spreads of those that are marked. -/
theorem outcome_plan_eq (t : Template) (data : Value) (evaluate : Bool) (elements : List Element) :
    (plan t data evaluate elements).outcome = (do
      let flags ← elements.mapM fun e => (isInBody evaluate data e).outcome
      let dealt ← pagings t data (selected elements flags) (elements.zip flags)
      return ⟨elements.zip dealt, countPages t (elements.zip dealt)⟩) := by
  unfold plan
  simp only [Logged.outcome_bind, Logged.outcome_mapM, Logged.outcome_lift, Logged.outcome_pure]
  rfl

theorem outcome_plan {evaluate : Bool} {elements : List Element} {flags : List Bool}
    {dealt : List Paging} (hflags : elements.mapM (fun e => (isInBody evaluate data e).outcome) = .ok flags)
    (hdealt : pagings t data (selected elements flags) (elements.zip flags) = .ok dealt) :
    (plan t data evaluate elements).outcome =
      .ok ⟨elements.zip dealt, countPages t (elements.zip dealt)⟩ := by
  rw [outcome_plan_eq, hflags, Outcome.ok_bind, hdealt]
  rfl

/-- Hidden elements are planned without a spread, and the others as if these were not there. -/
theorem plan_of_isHidden (hhidden : ∀ e ∈ hidden, e.IsHidden data) {p : Plan}
    (h : (plan t data true (before ++ hidden ++ after)).outcome = .ok p) :
    ∃ planned planned' : List (Element × Paging),
      planned.map Prod.fst = before ∧ planned'.map Prod.fst = after ∧
      p.elements = planned ++ hidden.map (fun e => (e, Paging.scheduled)) ++ planned' ∧
      (plan t data true (before ++ after)).outcome =
        .ok ⟨planned ++ planned', countPages t (planned ++ planned')⟩ := by
  obtain ⟨flags, body, dealt, hflags, hbody, hdealt, rfl⟩ := plan_eq_ok h
  obtain rfl := Except.ok.inj ((visibleBody_eq hflags).symm.trans hbody)
  obtain ⟨flagsBefore, flagsAfter, hbefore, hafter, rfl⟩ := exists_flags_of_isHidden hhidden hflags
  have hlength : before.length = flagsBefore.length := (Outcome.length_of_mapM hbefore).symm
  have hlength' : after.length = flagsAfter.length := (Outcome.length_of_mapM hafter).symm
  -- The visible body is that of the other elements.
  have hselected : selected (before ++ hidden ++ after)
      (flagsBefore ++ hidden.map (fun _ => false) ++ flagsAfter) =
      selected (before ++ after) (flagsBefore ++ flagsAfter) := by
    rw [selected_append (by simp [hlength]), selected_append hlength, selected_append hlength,
      selected_map_false, List.append_nil]
  rw [hselected] at hdealt
  obtain ⟨dealtBefore, dealtAfter, hdealtBefore, hdealtAfter, rfl⟩ :=
    exists_dealt_of_isHidden hlength hdealt
  have hdealtLength : before.length = dealtBefore.length := by
    rw [Outcome.length_of_mapM hdealtBefore, List.length_zip, ← hlength, Nat.min_self]
  have hdealtLength' : after.length = dealtAfter.length := by
    rw [Outcome.length_of_mapM hdealtAfter, List.length_zip, ← hlength', Nat.min_self]
  refine ⟨before.zip dealtBefore, after.zip dealtAfter, List.map_fst_zip hdealtLength.le,
    List.map_fst_zip hdealtLength'.le, ?_, ?_⟩
  · have hownLength : (before ++ hidden).length =
        (dealtBefore ++ hidden.map fun _ => Paging.scheduled).length := by
      simp [hdealtLength]
    rw [List.map_prod_left_eq_zip, ← List.zip_append hdealtLength, ← List.zip_append hownLength]
  · rw [← List.zip_append hdealtLength]
    refine outcome_plan (Outcome.mapM_append_eq_ok.mpr ⟨_, _, hbefore, hafter, rfl⟩) ?_
    rw [List.zip_append hlength, pagings]
    exact Outcome.mapM_append_eq_ok.mpr ⟨_, _, hdealtBefore, hdealtAfter, rfl⟩

/-! ## The pages -/

theorem boxesOn_append {evaluate : Bool} (planned planned' : List (Element × Paging)) (count page : ℕ) :
    boxesOn t data evaluate ⟨planned ++ planned', count⟩ page = (do
      let boxes ← boxesOn t data evaluate ⟨planned, count⟩ page
      let boxes' ← boxesOn t data evaluate ⟨planned', count⟩ page
      return boxes ++ boxes') := by
  unfold boxesOn
  rw [List.mapM_append]

theorem boxesOn_of_isHidden (hhidden : ∀ e ∈ hidden, e.IsHidden data) (count page : ℕ) :
    boxesOn t data true ⟨hidden.map (fun e => (e, Paging.scheduled)), count⟩ page =
      .ok (hidden.map fun _ => []) := by
  unfold boxesOn
  rw [List.mapM_map]
  exact Outcome.mapM_eq_map fun e he => placeElement_of_isHidden (hhidden e he) count page .scheduled

/-- A page is assembled as if hidden elements were not there. -/
theorem outcome_assemblePage_of_isHidden (hhidden : ∀ e ∈ hidden, e.IsHidden data)
    (planned planned' : List (Element × Paging)) (count page : ℕ) :
    (assemblePage t data true ⟨planned ++ hidden.map (fun e => (e, Paging.scheduled)) ++ planned', count⟩
      page).outcome = (assemblePage t data true ⟨planned ++ planned', count⟩ page).outcome := by
  have hflatten : (hidden.map fun _ => ([] : List Box)).flatten = [] := by simp
  rw [outcome_assemblePage, outcome_assemblePage, boxesOn_append, boxesOn_append,
    boxesOn_of_isHidden hhidden, boxesOn_append]
  cases boxesOn t data true ⟨planned, count⟩ page with
  | error failure => rfl
  | ok boxes =>
    cases boxesOn t data true ⟨planned', count⟩ page with
    | error failure => rfl
    | ok boxes' =>
      refine congrArg (fun boxes => Except.ok (pageWith page boxes)) ?_
      rw [List.flatten_append, List.flatten_append, hflatten, List.append_nil, List.flatten_append]

/-- What a hidden inclusion brings in is hidden, whatever conditions the elements of the partial have. It
has no boxes on any page, it is not spread over pages, and the document is laid out from the plan that the
other elements have without it, so no table ends above it. -/
theorem assemble_hidden_inclusion {first last children : List Element} {e : Element} {ref : Value}
    (helements : t.elements = first ++ e :: last) (hinclusion : e.content.inclusion? = some ref)
    (hpartial : t.partial? ref = .ok (some children))
    (hconditions : ∀ child ∈ children, ∃ condition, child.visibleIf = Condition.given condition)
    (hhidden : Condition.shows e.visibleIf data = .ok false) :
    ∃ clones, t.expandElement e = .ok clones ∧
      List.Forall₂ (fun child clone => Template.cloneChild e child = .ok clone ∧
        Condition.shows clone.visibleIf data = .ok false) children clones ∧
      (∀ clone ∈ clones, ∀ count page paging,
        (placeElement t data true count page clone paging).outcome = .ok []) ∧
      ∀ pages d, (assemble t data true pages).outcome = .ok d →
        ∃ before after : List (Element × Paging),
          List.flatten <$> first.mapM t.expandElement = .ok (before.map Prod.fst) ∧
          List.flatten <$> last.mapM t.expandElement = .ok (after.map Prod.fst) ∧
          t.expand = .ok (before.map Prod.fst ++ clones ++ after.map Prod.fst) ∧
          (plan t data true (before.map Prod.fst ++ clones ++ after.map Prod.fst)).outcome =
            .ok ⟨before ++ clones.map (fun clone => (clone, .scheduled)) ++ after, d.pageCount⟩ ∧
          (plan t data true (before.map Prod.fst ++ after.map Prod.fst)).outcome =
            .ok ⟨before ++ after, countPages t (before ++ after)⟩ ∧
          ((wanted d.pageCount pages).mapM
            (assemblePage t data true ⟨before ++ after, d.pageCount⟩)).outcome = .ok d.pages := by
  obtain ⟨clones, hclones, hcopies⟩ :=
    Template.exists_expandElement hhidden hinclusion hpartial hconditions
  have hall : ∀ clone ∈ clones, clone.IsHidden data := by
    intro clone hclone
    obtain ⟨child, -, hcopy⟩ := Outcome.exists_of_mem_of_mapM hcopies hclone
    exact Template.isHidden_of_cloneChild hcopy hhidden
  refine ⟨clones, hclones, ?_, fun clone hclone count page paging =>
    placeElement_of_isHidden (hall clone hclone) count page paging, fun pages d h => ?_⟩
  · exact (Outcome.mapM_eq_ok.mp hcopies).imp fun child clone hcopy =>
      ⟨hcopy, Template.isHidden_of_cloneChild hcopy hhidden⟩
  unfold assemble at h
  simp only [Logged.outcome_bind, Logged.outcome_mapM, Template.outcome_expandLogged,
    Outcome.bind_eq_ok, Logged.outcome_say, Logged.outcome_pure, Except.ok.injEq] at h
  obtain ⟨elements, hexpand, p, hplan, assembled, hassembled, -, -, rfl⟩ := h
  obtain ⟨before, after, hbefore, hafter, rfl⟩ := Template.exists_of_expand helements hclones hexpand
  obtain ⟨planned, planned', rfl, rfl, hp, hothers⟩ := plan_of_isHidden hall hplan
  obtain ⟨elements, count⟩ := p
  obtain rfl := hp
  refine ⟨planned, planned', hbefore, hafter, hexpand, hplan, hothers, ?_⟩
  rw [Logged.outcome_mapM, ← hassembled]
  exact congrArg (List.mapM · _) (funext fun page =>
    (outcome_assemblePage_of_isHidden hall planned planned' count page).symm)

/-- A mark whose condition cannot be evaluated. -/
def mark : Element := ⟨"mark", .null, 0, 20, 40, 10, none, .null, .text "(", .null, none, none, .box⟩

/-- An inclusion for orders that are paid. -/
def stamp : Element :=
  ⟨"stamp", .null, 0, 0, 0, 0, none, .null, .text "paid", .null, none, none, .inclusion (.text "stamp")⟩

/-- A template with a stamp below a line. -/
def stampTemplate : Template where
  page := ⟨100, 100, ⟨0, 0, 0, 0⟩, 0, 0⟩
  id := "order"
  name := ""
  version := .null
  unit := .null
  fonts := []
  styles := []
  contract := []
  elements := [⟨"line", .null, 0, 0, 40, 1, none, .null, .null, .null, none, none, .line⟩, stamp]
  partials := [("stamp", [mark])]
  settings := []
  pageCount := none

/-- Alone the mark would be shown; the stamp of an order that is not paid hides it. -/
theorem assemble_hidden_inclusion_stamp :
    Condition.shows mark.visibleIf (.object []) = .ok true ∧
    Condition.shows stamp.visibleIf (.object []) = .ok false ∧
    ∃ clones d, stampTemplate.expandElement stamp = .ok clones ∧ clones.length = 1 ∧
      (∀ clone ∈ clones, (placeElement stampTemplate (.object []) true 1 0 clone .scheduled).outcome =
        .ok []) ∧
      (assemble stampTemplate (.object []) true none).outcome = .ok d ∧
      ∃ before after : List (Element × Paging),
        ((wanted d.pageCount none).mapM (assemblePage stampTemplate (.object []) true
          ⟨before ++ after, d.pageCount⟩)).outcome = .ok d.pages := by
  have hshown : Condition.shows mark.visibleIf (.object []) = .ok true :=
    (Condition.shows_text "(" _).trans (congrArg Except.ok (by decide +kernel))
  have hhidden : Condition.shows stamp.visibleIf (.object []) = .ok false :=
    (Condition.shows_text "paid" _).trans (congrArg Except.ok (by decide +kernel))
  have hcycle : stampTemplate.findCycle = .ok none := by
    simp [Template.findCycle, Template.visitAll, Template.visit, Template.references, stampTemplate, mark,
      Content.inclusion?]
  have hok : (assemble stampTemplate (.object []) true none).outcome.isOk = true := by
    unfold assemble Template.expandLogged
    rw [hcycle]
    decide +kernel
  obtain ⟨d, hd⟩ := Outcome.exists_of_isOk hok
  have helements : stampTemplate.elements = stampTemplate.elements.take 1 ++ stamp :: [] := rfl
  have hpartial : stampTemplate.partial? (.text "stamp") = .ok (some [mark]) := rfl
  have hconditions : ∀ child ∈ [mark], ∃ condition, child.visibleIf = Condition.given condition := by
    rw [List.forall_mem_singleton]
    exact ⟨some "(", rfl⟩
  obtain ⟨clones, hclones, hcopies, hboxes, hdocument⟩ :=
    assemble_hidden_inclusion helements rfl hpartial hconditions hhidden
  obtain ⟨before, after, -, -, -, -, -, hpages⟩ := hdocument none d hd
  exact ⟨hshown, hhidden, clones, d, hclones, hcopies.length_eq.symm,
    fun clone hclone => hboxes clone hclone 1 0 .scheduled, hd, before, after, hpages⟩

end Layout

end Pagewright
