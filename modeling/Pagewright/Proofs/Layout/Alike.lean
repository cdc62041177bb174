import Pagewright.Proofs.Layout.Hidden

/-!
# Documents that are laid out alike

What an element gives to a document is settled by the element itself, but for three things that come from
outside: whether it is shown, what its placeholders are filled with, and the rows of its table. Elements that
differ in their conditions at most and agree in these three are alike (`Layout.Alike`), though the data or the
handling of conditions may be others.

When the elements of two templates are alike one by one, they are dealt out alike over the pages
(`Layout.outcome_plan_of_alike`), have the same boxes on each page (`Layout.outcome_assemblePage_of_alike`), and
the documents are the same (`Layout.assemble_of_alike`).
-/

namespace Pagewright

variable {t : Template} {data data' : Value} {evaluate evaluate' : Bool} {e e' : Element}
  {elements elements' others others' : List Element}

/-- Elements that differ in their conditions at most. -/
def Element.SameButCondition (e e' : Element) : Prop := ∃ condition, e' = { e with visibleIf := condition }

namespace Layout

/-- Two elements that differ in their conditions at most, each with its data, are shown or not shown together
and read the same. -/
structure Alike (data data' : Value) (evaluate evaluate' : Bool) (e e' : Element) : Prop where
  same : e.SameButCondition e'
  shown : (isShown evaluate data e).outcome = (isShown evaluate' data' e').outcome
  texts : ∀ v ∈ e.content.bindingFields, ∀ page,
    Binding.substituteValue v data page = Binding.substituteValue v data' page
  rows : ∀ table, e.content = .table table → table.rowsIn data = table.rowsIn data'

/-! ## Spreads -/

theorem ceiling?_of_same (h : List.Forall₂ Element.SameButCondition others others') (top : Float)
    (isOnPage : Element → Outcome Bool) (hpage : ∀ e e', e.SameButCondition e' → isOnPage e = isOnPage e') :
    Table.ceiling? others top isOnPage = Table.ceiling? others' top isOnPage := by
  have hbelow := Outcome.Rel.filterM h (f := fun e => if e.y > top then isOnPage e else pure false)
    (g := fun e => if e.y > top then isOnPage e else pure false) fun e e' hsame => by
      rw [hpage e e' hsame]
      obtain ⟨condition, rfl⟩ := hsame
      rfl
  refine (hbelow.bind fun below below' hall => ?_).eq
  have hys : below.map (·.y) = below'.map (·.y) := by
    refine List.forall₂_eq_eq_eq ▸ List.rel_map ?_ hall
    rintro e e' ⟨condition, rfl⟩
    rfl
  rw [hys]
  exact .ok rfl

/-- Other elements cap a table whatever their conditions. -/
theorem ofTable_of_same (hsame : e.SameButCondition e') {table : Table}
    (hrows : table.rowsIn data = table.rowsIn data') (height : Float)
    (h : List.Forall₂ Element.SameButCondition others others') :
    TablePages.ofTable e table data height others = TablePages.ofTable e' table data' height others' := by
  obtain ⟨condition, rfl⟩ := hsame
  have hothers : List.Forall₂ Element.SameButCondition (others.filter fun b => b.id != e.id)
      (others'.filter fun b => b.id != e.id) := by
    refine List.rel_filter ?_ h
    rintro b b' ⟨condition, rfl⟩
    rfl
  have hfirst := ceiling?_of_same hothers e.y Element.isOnFirstPage
    fun b b' ⟨condition, hb⟩ => hb ▸ rfl
  have hlater := ceiling?_of_same hothers (table.continuationY.getD e.y) Element.isOnLaterPages
    fun b b' ⟨condition, hb⟩ => hb ▸ rfl
  unfold TablePages.ofTable
  simp only [hrows, hfirst, hlater]

theorem ofFlow_congr {text : Value} (columns : ℕ) (gap : Option Float) (width height : Float)
    (h : Binding.substituteValue text data Binding.noPage = Binding.substituteValue text data' Binding.noPage) :
    FlowPages.ofFlow e text columns gap data t width height =
      FlowPages.ofFlow e text columns gap data' t width height := by
  unfold FlowPages.ofFlow
  rw [h]

theorem pagingOf_of_alike (h : Alike data data' evaluate evaluate' e e')
    (hothers : List.Forall₂ Element.SameButCondition others others') :
    pagingOf t data others e = pagingOf t data' others' e' := by
  obtain ⟨same, shown, texts, rows⟩ := h
  have hcontent : e'.content = e.content := by
    obtain ⟨condition, rfl⟩ := same
    rfl
  unfold pagingOf
  rw [hcontent]
  cases hkind : e.content with
  | table table =>
    dsimp only
    rw [ofTable_of_same same (rows table hkind) _ hothers]
  | flowText text columns gap =>
    dsimp only
    rw [ofFlow_congr columns gap _ _ (texts text (by simp [hkind, Content.bindingFields]) _)]
    obtain ⟨condition, rfl⟩ := same
    rfl
  | _ => rfl

/-! ## Boxes -/

theorem contentOf_of_alike (h : Alike data data' evaluate evaluate' e e') (page : PageContext) :
    contentOf t data page e = contentOf t data' page e' := by
  obtain ⟨⟨condition, rfl⟩, shown, texts, rows⟩ := h
  unfold contentOf
  dsimp only
  cases hkind : e.content with
  | text text rich => simp only [texts text (by simp [hkind, Content.bindingFields])]
  | flowText text columns gap => simp only [texts text (by simp [hkind, Content.bindingFields])]
  | image src fit => simp only [texts src (by simp [hkind, Content.bindingFields])]
  | code value => simp only [texts value (by simp [hkind, Content.bindingFields])]
  | table table =>
    simp only [rows table hkind]
    rfl
  | _ => rfl

theorem boxesOf_of_alike (h : Alike data data' evaluate evaluate' e e') (count page : ℕ) (region : Region)
    (paging : Paging) :
    boxesOf t data count page region e paging = boxesOf t data' count page region e' paging := by
  have hcontent := contentOf_of_alike (t := t) h ⟨page + 1, count⟩
  obtain ⟨condition, rfl⟩ := h.same
  cases paging with
  | scheduled =>
    unfold boxesOf
    dsimp only
    rw [hcontent]
    rfl
  | table table pages => rfl
  | flow flow => rfl

theorem outcome_placeElement_of_alike (h : Alike data data' evaluate evaluate' e e') (count page : ℕ)
    (paging : Paging) :
    (placeElement t data evaluate count page e paging).outcome =
      (placeElement t data' evaluate' count page e' paging).outcome := by
  rw [outcome_placeElement, outcome_placeElement, h.shown]
  simp only [boxesOf_of_alike h]
  obtain ⟨condition, rfl⟩ := h.same
  rfl

/-! ## Plans and pages -/

theorem isInBody_of_alike (h : Alike data data' evaluate evaluate' e e') :
    (isInBody evaluate data e).outcome = (isInBody evaluate' data' e').outcome := by
  have hbody : (e'.inBody && !e'.isInclusion) = (e.inBody && !e.isInclusion) := by
    obtain ⟨condition, rfl⟩ := h.same
    rfl
  unfold isInBody
  rw [hbody]
  split
  · exact h.shown
  · rfl

/-- Two plans are alike when their elements are, and are spread in the same way. -/
structure Plan.Alike (data data' : Value) (evaluate evaluate' : Bool) (p p' : Plan) : Prop where
  elements : List.Forall₂ (fun q q' => Layout.Alike data data' evaluate evaluate' q.1 q'.1 ∧ q.2 = q'.2)
    p.elements p'.elements
  pageCount : p.pageCount = p'.pageCount

theorem forall₂_zip {R : α → β → Prop} {xs : List α} {ys : List β} (h : List.Forall₂ R xs ys) (zs : List γ) :
    List.Forall₂ (fun p q => R p.1 q.1 ∧ p.2 = q.2) (xs.zip zs) (ys.zip zs) := by
  induction h generalizing zs with
  | nil => exact .nil
  | cons hxy hrest ih =>
    cases zs with
    | nil => exact .nil
    | cons z zs => exact .cons ⟨hxy, rfl⟩ (ih zs)

theorem selected_of_alike (h : List.Forall₂ (Alike data data' evaluate evaluate') elements elements')
    (flags : List Bool) :
    List.Forall₂ Element.SameButCondition (selected elements flags) (selected elements' flags) := by
  have hkept : List.Forall₂ _ ((elements.zip flags).filter (·.2)) ((elements'.zip flags).filter (·.2)) :=
    List.rel_filter (fun p q hpq => Bool.eq_iff_iff.mp hpq.2) (forall₂_zip h flags)
  exact List.rel_map (fun p q hpq => hpq.1.same) hkept

theorem countPages_of_alike {planned planned' : List (Element × Paging)}
    (h : List.Forall₂ (fun q q' => Alike data data' evaluate evaluate' q.1 q'.1 ∧ q.2 = q'.2) planned planned') :
    countPages t planned = countPages t planned' := by
  have hneeds : planned.map (fun q => pagesNeeded q.1 q.2) = planned'.map fun q => pagesNeeded q.1 q.2 := by
    refine List.forall₂_eq_eq_eq ▸ List.rel_map ?_ h
    rintro ⟨e, paging⟩ ⟨e', paging'⟩ ⟨⟨⟨condition, rfl⟩, -, -, -⟩, rfl⟩
    rfl
  have hpins : planned.filterMap (fun q => q.1.page) = planned'.filterMap fun q => q.1.page := by
    refine List.forall₂_eq_eq_eq ▸ List.rel_filterMap (fun q q' hq => ?_) h
    obtain ⟨⟨⟨condition, hsame⟩, -, -, -⟩, -⟩ := hq
    rw [hsame]
    cases q.1.page with
    | none => exact .none
    | some pin => exact .some rfl
  unfold countPages
  rw [hneeds, hpins]

theorem outcome_plan_of_alike (h : List.Forall₂ (Alike data data' evaluate evaluate') elements elements') :
    Outcome.Rel (Plan.Alike data data' evaluate evaluate') (plan t data evaluate elements).outcome
      (plan t data' evaluate' elements').outcome := by
  rw [outcome_plan_eq, outcome_plan_eq, Outcome.Rel.mapM_eq h fun e e' halike => isInBody_of_alike halike]
  refine (Outcome.Rel.refl _).bind fun flags flags' hflags => ?_
  subst hflags
  have hpagings : pagings t data (selected elements flags) (elements.zip flags) =
      pagings t data' (selected elements' flags) (elements'.zip flags) := by
    refine Outcome.Rel.mapM_eq (forall₂_zip h flags) ?_
    rintro ⟨e, flag⟩ ⟨e', flag'⟩ ⟨halike, rfl⟩
    exact if_congr Iff.rfl (pagingOf_of_alike halike (selected_of_alike h flags)) rfl
  rw [hpagings]
  refine (Outcome.Rel.refl _).bind fun dealt dealt' hdealt => ?_
  subst hdealt
  exact .ok ⟨forall₂_zip h dealt, countPages_of_alike (forall₂_zip h dealt)⟩

theorem outcome_assemblePage_of_alike {p p' : Plan} (h : p.Alike data data' evaluate evaluate' p') (page : ℕ) :
    (assemblePage t data evaluate p page).outcome = (assemblePage t data' evaluate' p' page).outcome := by
  have hboxes : boxesOn t data evaluate p page = boxesOn t data' evaluate' p' page := by
    unfold boxesOn
    rw [h.pageCount]
    refine Outcome.Rel.mapM_eq h.elements ?_
    rintro ⟨e, paging⟩ ⟨e', paging'⟩ ⟨halike, rfl⟩
    exact outcome_placeElement_of_alike halike _ page paging
  rw [outcome_assemblePage, outcome_assemblePage, hboxes]

/-- Templates with the same page, styles and settings make the same document of elements that are alike. -/
theorem assemble_of_alike {partials : List (String × List Element)}
    (h : Outcome.Rel (List.Forall₂ (Alike data data' evaluate evaluate')) t.expand
      { t with elements := elements, partials := partials }.expand) (pages : Option (List Int)) :
    (assemble t data evaluate pages).outcome =
      (assemble { t with elements := elements, partials := partials } data' evaluate' pages).outcome := by
  rw [outcome_assemble, outcome_assemble]
  have hplans : Outcome.Rel (Plan.Alike data data' evaluate evaluate') (planOf t data evaluate)
      (planOf { t with elements := elements, partials := partials } data' evaluate') :=
    h.bind fun es es' hall => outcome_plan_of_alike hall
  refine (hplans.bind fun p p' halike => ?_).eq
  simp only [outcome_assemblePage_of_alike halike, halike.pageCount]
  exact Outcome.Rel.refl _

end Layout

end Pagewright
