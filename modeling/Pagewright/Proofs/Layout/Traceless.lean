import Pagewright.Proofs.Layout.Hidden
import Pagewright.Proofs.Layout.Tables
import Pagewright.Proofs.Template.Circles

/-!
# Hidden elements leave no trace

A hidden element can be taken out of a template. Every list on the way to the document has then one item less
(`Inserted`): the elements, the marks for the body, the spreads and the boxes of each page. What the item stands
for is nothing, so what is made of the others stays as it is.

1. The element is not of the visible body, so the same elements are dealt out among the same others, and the
   plans differ in the element alone (`Layout.Plan.adds_of_isHidden`).
2. It has no boxes, so each page has the same boxes in the same order (`Layout.outcome_assemblePage_of_adds`).
3. Only its pin counts, for the number of pages. If that does not go beyond the others, the documents are the
   same (`Layout.assemble_without_hidden`).
-/

namespace Pagewright

/-! ## Lists with an item more -/

/-- A list is another one with an item put in at a place. -/
inductive Inserted (x : α) : ℕ → List α → List α → Prop where
  | here (rest : List α) : Inserted x 0 (x :: rest) rest
  | there (y : α) {n : ℕ} {xs rest : List α} (h : Inserted x n xs rest) :
      Inserted x (n + 1) (y :: xs) (y :: rest)

namespace Inserted

variable {x : α} {n : ℕ} {xs rest : List α}

theorem append (before : List α) (x : α) (after : List α) :
    Inserted x before.length (before ++ x :: after) (before ++ after) := by
  induction before with
  | nil => exact .here after
  | cons y before ih => exact .there y ih

theorem mem_iff (h : Inserted x n xs rest) {y : α} : y ∈ xs ↔ y = x ∨ y ∈ rest := by
  induction h with
  | here rest => exact List.mem_cons
  | there z h ih =>
    rw [List.mem_cons, ih, List.mem_cons]
    tauto

theorem zip (h : Inserted x n xs rest) {y : β} {ys others : List β} (h' : Inserted y n ys others) :
    Inserted (x, y) n (xs.zip ys) (rest.zip others) := by
  induction h generalizing ys others with
  | here rest =>
    cases h' with
    | here others => exact .here _
  | there z h ih =>
    cases h' with
    | there z' h' => exact .there _ (ih h')

theorem filter_eq (h : Inserted x n xs rest) {keep : α → Bool} (hx : keep x = false) :
    xs.filter keep = rest.filter keep := by
  induction h with
  | here rest => rw [List.filter_cons, hx, if_neg Bool.false_ne_true]
  | there y h ih => rw [List.filter_cons, List.filter_cons, ih]

theorem flatten_eq {xss rests : List (List α)} (h : Inserted [] n xss rests) : xss.flatten = rests.flatten := by
  induction h with
  | here rest => rfl
  | there ys h ih => rw [List.flatten_cons, List.flatten_cons, ih]

theorem flatten {xss rests : List (List α)} (h : Inserted [x] n xss rests) :
    ∃ m, Inserted x m xss.flatten rests.flatten := by
  induction h with
  | here rest => exact ⟨0, .here _⟩
  | there ys h ih =>
    obtain ⟨m, hm⟩ := ih
    rw [List.flatten_cons, List.flatten_cons]
    clear h
    induction ys with
    | nil => exact ⟨m, hm⟩
    | cons y ys ih =>
      obtain ⟨k, hk⟩ := ih
      exact ⟨k + 1, .there y hk⟩

theorem mapM (h : Inserted x n xs rest) {f : α → Outcome β} {b : β} (hx : f x = .ok b) :
    Outcome.Rel (Inserted b n) (xs.mapM f) (rest.mapM f) := by
  induction h with
  | here rest =>
    rw [List.mapM_cons, hx, Outcome.ok_bind]
    cases rest.mapM f with
    | error failure => exact .error failure
    | ok bs => exact .ok (.here bs)
  | there y h ih =>
    rw [List.mapM_cons, List.mapM_cons]
    exact (Outcome.Rel.refl (f y)).bind fun c c' hc => ih.bind fun bs bs' hbs => hc ▸ .ok (.there c hbs)

end Inserted

variable {t : Template} {data : Value} {evaluate : Bool} {e : Element}

namespace Template

/-- A template with other elements. -/
def withElements (t : Template) (elements : List Element) : Template := { t with elements := elements }

/-- A template with an element less has the same elements but this one. -/
theorem expand_without {first last : List Element} (helements : t.elements = first ++ e :: last)
    (hinclusion : e.content.inclusion? = none) :
    Outcome.Rel (fun es es' => ∃ n, Inserted e n es es') t.expand (t.withElements (first ++ last)).expand := by
  have hcycle : (t.withElements (first ++ last)).findCycle = t.findCycle := findCycle_congr ⟨rfl, fun _ => rfl⟩
  have hown : t.expandElement e = .ok [e] := by rw [expandElement, hinclusion]
  unfold expand
  rw [hcycle]
  refine (Outcome.Rel.refl t.findCycle).bind fun cycle cycle' hsame => ?_
  subst hsame
  cases cycle with
  | some names => exact .error _
  | none =>
    have hparts := (Inserted.append first e last).mapM hown
    rw [← helements] at hparts
    exact hparts.bind fun parts parts' h => .ok h.flatten

end Template

namespace Layout

/-! ## The plan -/

/-- A plan is another one with an element that has no spread; the pages are enough for its pin. -/
structure Plan.Adds (e : Element) (p p' : Plan) : Prop where
  elements : ∃ n, Inserted (e, .scheduled) n p.elements p'.elements
  pageCount : p.pageCount = max p'.pageCount (e.page.getD 0)

theorem countPages_of_inserted {n : ℕ} {planned others : List (Element × Paging)}
    (h : Inserted (e, .scheduled) n planned others) :
    countPages t planned = max (countPages t others) (e.page.getD 0) := by
  have hnone (m : ℕ) : pagesNeeded e .scheduled ≤ m := Nat.zero_le m
  refine eq_of_forall_ge_iff fun m => ?_
  simp only [Nat.max_le, countPages_le_iff, h.mem_iff, forall_eq_or_imp, hnone, true_and]
  tauto

theorem pagings_of_inserted {n : ℕ} {marked others : List (Element × Bool)}
    (h : Inserted (e, false) n marked others) (body : List Element) :
    Outcome.Rel (Inserted .scheduled n) (pagings t data body marked) (pagings t data body others) :=
  h.mapM rfl

/-- A hidden element changes nothing about the plan of the others. -/
theorem Plan.adds_of_isHidden (hhidden : e.IsHidden data) {n : ℕ} {elements others : List Element}
    (h : Inserted e n elements others) :
    Outcome.Rel (Plan.Adds e) (plan t data true elements).outcome (plan t data true others).outcome := by
  rw [outcome_plan_eq, outcome_plan_eq]
  refine (h.mapM (isInBody_of_isHidden hhidden)).bind fun flags flags' hflags => ?_
  have hmarked := h.zip hflags
  have hbody : selected elements flags = selected others flags' :=
    congrArg (List.map Prod.fst) (hmarked.filter_eq rfl)
  rw [hbody]
  refine (pagings_of_inserted hmarked _).bind fun dealt dealt' hdealt => .ok ?_
  exact ⟨⟨n, h.zip hdealt⟩, countPages_of_inserted (h.zip hdealt)⟩

/-! ## The document -/

theorem outcome_assemblePage_of_adds (hhidden : e.IsHidden data) {p p' : Plan} (h : p.Adds e p')
    (hcount : p.pageCount = p'.pageCount) (page : ℕ) :
    (assemblePage t data true p page).outcome = (assemblePage t data true p' page).outcome := by
  obtain ⟨n, hinserted⟩ := h.elements
  have hboxes : Outcome.Rel (Inserted [] n) (boxesOn t data true p page) (boxesOn t data true p' page) := by
    unfold boxesOn
    rw [hcount]
    exact hinserted.mapM (placeElement_of_isHidden hhidden _ _ _)
  rw [outcome_assemblePage, outcome_assemblePage]
  exact hboxes.map_eq fun boxes boxes' hparts => congrArg (pageWith page) hparts.flatten_eq

/-- The number of pages that a document is planned to have. -/
def plannedPages (t : Template) (data : Value) (evaluate : Bool) : Outcome ℕ :=
  Plan.pageCount <$> planOf t data evaluate

theorem plannedPages_of_assemble {pages : Option (List Int)} {d : DocumentLayout}
    (h : (assemble t data evaluate pages).outcome = .ok d) : plannedPages t data evaluate = .ok d.pageCount := by
  obtain ⟨p, assembled, hplan, -, rfl⟩ := assemble_eq_ok h
  rw [plannedPages, hplan]
  rfl

/-- A template is planned with a hidden element as without it. -/
theorem planOf_without {first last : List Element} (helements : t.elements = first ++ e :: last)
    (hinclusion : e.content.inclusion? = none) (hhidden : e.IsHidden data) :
    Outcome.Rel (Plan.Adds e) (planOf t data true) (planOf (t.withElements (first ++ last)) data true) := by
  unfold planOf
  refine (Template.expand_without helements hinclusion).bind fun es es' hes => ?_
  obtain ⟨n, hinserted⟩ := hes
  exact Plan.adds_of_isHidden hhidden hinserted

/-- A hidden element that is no inclusion can be taken out of a template. The document is planned as long as
without it, or as its pin says if that is further on. If the pin stays within the pages there are without it,
the documents are the same, page for page and box for box; and if one cannot be laid out, nor can the other. -/
theorem assemble_without_hidden {first last : List Element} (helements : t.elements = first ++ e :: last)
    (hinclusion : e.content.inclusion? = none) (hhidden : Condition.shows e.visibleIf data = .ok false) :
    plannedPages t data true =
      (max · (e.page.getD 0)) <$> plannedPages (t.withElements (first ++ last)) data true ∧
    ((∀ pin ∈ e.page, ∀ count, plannedPages (t.withElements (first ++ last)) data true = .ok count → pin ≤ count) →
      ∀ pages, (assemble t data true pages).outcome =
        (assemble (t.withElements (first ++ last)) data true pages).outcome) := by
  have hplanned := planOf_without helements hinclusion hhidden
  constructor
  · rw [plannedPages, plannedPages, ← comp_map]
    exact hplanned.map_eq fun p p' hadds => hadds.pageCount
  · intro hpin pages
    rw [outcome_assemble, outcome_assemble]
    refine Outcome.Rel.eq (hplanned.with_eq.bind fun p p' hp => ?_)
    obtain ⟨hadds, -, hp'⟩ := hp
    have hcount : p.pageCount = p'.pageCount := by
      have hlong : plannedPages (t.withElements (first ++ last)) data true = .ok p'.pageCount := by
        rw [plannedPages, hp']
        rfl
      rw [hadds.pageCount, Nat.max_eq_left]
      cases hpage : e.page with
      | none => exact Nat.zero_le _
      | some pin => exact hpin pin hpage _ hlong
    simp only [outcome_assemblePage_of_adds hhidden hadds hcount, hcount]
    exact Outcome.Rel.refl _

/-- A note for paid orders, below the first row of items and pinned to the first page. -/
def note : Element := ⟨"note", .null, 0, 15, 40, 10, none, .null, .text "paid", .null, some 1, none, .box⟩

/-- A template with a note on its table of items. -/
def notedTemplate : Template := { itemTemplate with elements := itemTemplate.elements ++ [note] }

/-- The rows of cell texts on each page of a document. -/
def rowsByPage (d : DocumentLayout) : List (List (List String)) :=
  d.pages.map fun page => page.body.flatMap Box.cells

/-- The note cuts the table short when it is shown. Orders that are not paid are laid out as if there were no
note. -/
theorem assemble_without_hidden_note :
    Condition.shows note.visibleIf threeItems = .ok false ∧
    ∃ d shown, (assemble notedTemplate threeItems true none).outcome = .ok d ∧
      (assemble (notedTemplate.withElements (itemTemplate.elements ++ [])) threeItems true none).outcome = .ok d ∧
      rowsByPage d = [[["a"], ["b"]], [["c"]]] ∧
      (assemble notedTemplate threeItems false none).outcome = .ok shown ∧
      rowsByPage shown = [[["a"]], [["b"], ["c"]]] := by
  have hhidden : Condition.shows note.visibleIf threeItems = .ok false :=
    (Condition.shows_text "paid" _).trans (congrArg Except.ok (by decide +kernel))
  have hexpand : (notedTemplate.withElements (itemTemplate.elements ++ [])).expandLogged =
      ⟨[], .ok itemTemplate.elements⟩ := by cbv
  have hexpand' : notedTemplate.expandLogged = ⟨[], .ok notedTemplate.elements⟩ := by cbv
  have hwithout : ∃ d,
      (assemble (notedTemplate.withElements (itemTemplate.elements ++ [])) threeItems true none).outcome = .ok d ∧
      d.pageCount = 2 ∧ rowsByPage d = [[["a"], ["b"]], [["c"]]] := by
    unfold assemble
    rw [hexpand]
    decide +kernel
  have hshown : ∃ d, (assemble notedTemplate threeItems false none).outcome = .ok d ∧
      rowsByPage d = [[["a"]], [["b"], ["c"]]] := by
    unfold assemble
    rw [hexpand']
    decide +kernel
  obtain ⟨d, hd, hcount, hrows⟩ := hwithout
  obtain ⟨shown, hshown, hshownRows⟩ := hshown
  have hpin : ∀ pin ∈ note.page, ∀ count,
      plannedPages (notedTemplate.withElements (itemTemplate.elements ++ [])) threeItems true = .ok count →
        pin ≤ count := by
    intro pin hpin count hplanned
    obtain rfl : 1 = pin := Option.some.inj hpin
    obtain rfl := Except.ok.inj (hplanned.symm.trans (plannedPages_of_assemble hd))
    omega
  have helements : notedTemplate.elements = itemTemplate.elements ++ note :: [] := rfl
  have hsame := (assemble_without_hidden helements rfl hhidden).2 hpin none
  exact ⟨hhidden, d, shown, hsame.trans hd, hd, hrows, hshown, hshownRows⟩

end Layout

end Pagewright
