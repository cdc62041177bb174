import Pagewright.Layout.Assembly
import Pagewright.Proofs.Outcome

/-!
# What each element gives to a document

A document comes with an `Assembly` (`assembly_of_assemble`): the elements, the plan, and for every page
the boxes that each element has there. The pages are these boxes and nothing else, so a statement about
an element of the document is one about its boxes page by page (`Assembly.boxesAt`).

An element of the visible body was dealt out over the pages before (`Assembly.exists_paging`), and the
document is long enough for it.
-/

namespace Pagewright

namespace Template

theorem outcome_expandLogged (t : Template) : t.expandLogged.outcome = t.expand := by
  have hpart (e : Element) : (do
      (unknownPartial? t e).forM (Logged.say .debug)
      liftM (t.expandElement e) : Logged (List Element)).outcome = t.expandElement e := by
    cases unknownPartial? t e <;> simp [Option.forM]
  unfold expandLogged expand
  simp only [Logged.outcome_bind, Logged.outcome_lift]
  congr 1
  funext cycle
  cases cycle with
  | some names => rfl
  | none =>
    simp only [Logged.outcome_bind, Logged.outcome_mapM, Logged.outcome_pure] at hpart ⊢
    simp only [hpart]
    rfl

end Template

namespace Layout

/-- The elements that take part in dealing out the body. -/
def visibleBody (evaluate : Bool) (data : Value) (elements : List Element) : Outcome (List Element) := do
  return ((elements.zip (← elements.mapM fun e => (isInBody evaluate data e).outcome)).filter (·.2)).map
    (·.1)

/-- The boxes that each element of a plan has on a page. -/
def boxesOn (t : Template) (data : Value) (evaluate : Bool) (plan : Plan) (page : ℕ) :
    Outcome (List (List Box)) :=
  plan.elements.mapM fun (e, paging) =>
    (placeElement t data evaluate plan.pageCount page e paging).outcome

/-- The page with the given boxes. -/
def pageWith (page : ℕ) (boxes : List Box) : PageLayout :=
  ⟨page + 1, inRegion .header boxes, inRegion .body boxes, inRegion .footer boxes⟩

/-- How a document was assembled. -/
structure Assembly (t : Template) (data : Value) (evaluate : Bool) (d : DocumentLayout) where
  elements : List Element
  /-- The visible elements of the body. -/
  body : List Element
  plan : Plan
  /-- The boxes of each element, page by page. -/
  boxes : ℕ → List (List Box)
  expand_eq : t.expand = .ok elements
  body_eq : visibleBody evaluate data elements = .ok body
  plan_eq : (Layout.plan t data evaluate elements).outcome = .ok plan
  boxes_eq : ∀ page < plan.pageCount, boxesOn t data evaluate plan page = .ok (boxes page)
  pageCount_eq : d.pageCount = plan.pageCount
  pages_eq : d.pages = (List.range plan.pageCount).map fun page => pageWith page (boxes page).flatten

variable {t : Template} {data : Value} {evaluate : Bool} {d : DocumentLayout}

theorem outcome_assemblePage (plan : Plan) (page : ℕ) :
    (assemblePage t data evaluate plan page).outcome =
      (fun boxes => pageWith page boxes.flatten) <$> boxesOn t data evaluate plan page := by
  unfold assemblePage boxesOn
  simp only [Logged.outcome_bind, Logged.outcome_mapM]
  rfl

/-- The plan of a document. -/
def planOf (t : Template) (data : Value) (evaluate : Bool) : Outcome Plan := do
  (Layout.plan t data evaluate (← t.expand)).outcome

/-- A document comes about from its plan and the pages asked for. -/
theorem outcome_assemble (pages : Option (List Int)) :
    (assemble t data evaluate pages).outcome = (do
      let plan ← planOf t data evaluate
      let assembled ← (wanted plan.pageCount pages).mapM fun page =>
        (assemblePage t data evaluate plan page).outcome
      return ⟨t.page, t.fonts, plan.pageCount, assembled⟩) := by
  unfold assemble planOf
  simp only [Logged.outcome_bind, Logged.outcome_mapM, Template.outcome_expandLogged, Logged.outcome_say,
    Logged.outcome_pure, Outcome.ok_bind, bind_assoc]
  rfl

theorem assemble_eq_ok {pages : Option (List Int)} (h : (assemble t data evaluate pages).outcome = .ok d) :
    ∃ plan assembled, planOf t data evaluate = .ok plan ∧
      ((wanted plan.pageCount pages).mapM fun page => (assemblePage t data evaluate plan page).outcome) =
        .ok assembled ∧
      d = ⟨t.page, t.fonts, plan.pageCount, assembled⟩ := by
  rw [outcome_assemble] at h
  obtain ⟨plan, hplan, h⟩ := Outcome.bind_eq_ok.mp h
  obtain ⟨assembled, hassembled, h⟩ := Outcome.bind_eq_ok.mp h
  exact ⟨plan, assembled, hplan, hassembled, (Except.ok.inj h).symm⟩

theorem foldl_max_le_iff {init m : ℕ} {ns : List ℕ} : ns.foldl max init ≤ m ↔ init ≤ m ∧ ∀ n ∈ ns, n ≤ m := by
  induction ns generalizing init with
  | nil => simp
  | cons n ns ih => rw [List.foldl_cons, ih, Nat.max_le, List.forall_mem_cons, and_assoc]

/-- A number of pages suffices if it does for the template and each of its elements. -/
theorem countPages_le_iff {planned : List (Element × Paging)} {m : ℕ} :
    countPages t planned ≤ m ↔ max 1 (t.pageCount.getD 1) ≤ m ∧
      ∀ p ∈ planned, pagesNeeded p.1 p.2 ≤ m ∧ p.1.page.getD 0 ≤ m := by
  have hpin (e : Element) : e.page.getD 0 ≤ m ↔ ∀ pin ∈ e.page, pin ≤ m := by
    cases e.page <;> simp
  simp only [countPages, foldl_max_le_iff, List.forall_mem_append, List.forall_mem_map, List.mem_filterMap, hpin]
  constructor
  · rintro ⟨hown, hneeds, hpins⟩
    exact ⟨hown, fun p hp => ⟨hneeds p hp, fun pin h => hpins pin ⟨p, hp, h⟩⟩⟩
  · rintro ⟨hown, hall⟩
    refine ⟨hown, fun p hp => (hall p hp).1, ?_⟩
    rintro pin ⟨p, hp, h⟩
    exact (hall p hp).2 pin h

theorem pagesNeeded_le_countPages {elements : List (Element × Paging)} {e : Element} {paging : Paging}
    (h : (e, paging) ∈ elements) : pagesNeeded e paging ≤ countPages t elements :=
  ((countPages_le_iff.mp (Nat.le_refl _)).2 _ h).1

theorem countPages_pos (t : Template) (planned : List (Element × Paging)) : 0 < countPages t planned := by
  have hown : max 1 (t.pageCount.getD 1) ≤ countPages t planned := (countPages_le_iff.mp (Nat.le_refl _)).1
  omega

/-- How the elements of a plan were dealt out. -/
def pagings (t : Template) (data : Value) (body : List Element) (marked : List (Element × Bool)) :
    Outcome (List Paging) :=
  marked.mapM fun (e, inBody) => if inBody then pagingOf t data body e else pure .scheduled

theorem plan_eq_ok {elements : List Element} {plan : Plan}
    (h : (Layout.plan t data evaluate elements).outcome = .ok plan) :
    ∃ flags body dealt, elements.mapM (fun e => (isInBody evaluate data e).outcome) = .ok flags ∧
      visibleBody evaluate data elements = .ok body ∧
      pagings t data body (elements.zip flags) = .ok dealt ∧
      plan = ⟨elements.zip dealt, countPages t (elements.zip dealt)⟩ := by
  unfold Layout.plan at h
  simp only [Logged.outcome_bind, Logged.outcome_mapM, Logged.outcome_lift, Outcome.bind_eq_ok,
    Logged.outcome_pure, Except.ok.injEq] at h
  obtain ⟨flags, hflags, dealt, hdealt, rfl⟩ := h
  exact ⟨flags, _, dealt, hflags, by simp [visibleBody, hflags], hdealt, rfl⟩

/-- A document that was assembled to the end has an assembly. -/
theorem assembly_of_assemble (h : (assemble t data evaluate none).outcome = .ok d) :
    Nonempty (Assembly t data evaluate d) := by
  obtain ⟨plan, pages, hplanned, hpages, rfl⟩ := assemble_eq_ok h
  obtain ⟨elements, hexpand, hplan⟩ := Outcome.bind_eq_ok.mp hplanned
  obtain ⟨flags, body, dealt, -, hbody, -⟩ := plan_eq_ok hplan
  have hpage : ∀ page < plan.pageCount, ∃ boxes, boxesOn t data evaluate plan page = .ok boxes ∧
      pages[page]? = some (pageWith page boxes.flatten) := by
    intro page hlt
    have hwanted : (wanted plan.pageCount none)[page]? = some page := by simp [wanted, hlt]
    obtain ⟨p, hp, hok⟩ := Outcome.getElem?_of_mapM hpages hwanted
    rw [outcome_assemblePage, Outcome.map_eq_ok] at hok
    obtain ⟨boxes, hboxes, rfl⟩ := hok
    exact ⟨boxes, hboxes, hp⟩
  choose! boxes hboxes hpages' using hpage
  refine ⟨⟨elements, body, plan, boxes, hexpand, hbody, hplan, hboxes, rfl, ?_⟩⟩
  have hlength : pages.length = plan.pageCount := by
    simpa [wanted] using Outcome.length_of_mapM hpages
  refine List.ext_getElem? fun page => ?_
  by_cases hlt : page < plan.pageCount
  · rw [hpages' page hlt]
    simp [hlt]
  · rw [List.getElem?_eq_none (by simp only; omega), List.getElem?_eq_none (by simp; omega)]

/-- The boxes of an element on a page, when it has a region, is no inclusion and is shown. -/
theorem outcome_placeElement (e : Element) (paging : Paging) (count page : ℕ) :
    (placeElement t data evaluate count page e paging).outcome =
      match regionOf? e with
      | none => .ok []
      | some region =>
        if e.isInclusion then .ok []
        else (isShown evaluate data e).outcome >>= fun shown =>
          if shown then boxesOf t data count page region e paging else .ok [] := by
  unfold placeElement
  cases regionOf? e with
  | none => rfl
  | some region =>
    dsimp only
    split
    · rfl
    · rw [Logged.outcome_bind]
      refine bind_congr fun shown => ?_
      cases shown <;> rfl

theorem placeElement_of_shown {e : Element} {paging : Paging} {count page : ℕ} (hbody : e.inBody = true)
    (hinclusion : e.isInclusion = false) (hshown : (isShown evaluate data e).outcome = .ok true) :
    (placeElement t data evaluate count page e paging).outcome =
      boxesOf t data count page .body e paging := by
  have hregion : regionOf? e = some .body := by
    unfold Element.inBody Value.isText at hbody
    unfold regionOf?
    split at hbody
    · rename_i s hs
      obtain rfl : s = "body" := by simpa using hbody
      rw [hs]
      rfl
    · simp at hbody
  rw [outcome_placeElement, hregion]
  simp [hinclusion, hshown]

namespace Assembly

/-- The boxes of the element at place `i` on a page. -/
def boxesAt (a : Assembly t data evaluate d) (page i : ℕ) : List Box := (a.boxes page).getD i []

theorem elements_eq (a : Assembly t data evaluate d) {elements : List Element} {messages : List Message}
    (h : t.expandLogged = ⟨messages, .ok elements⟩) : a.elements = elements := by
  have hexpand := Template.outcome_expandLogged t
  rw [h, a.expand_eq] at hexpand
  exact (Except.ok.inj hexpand).symm

/-- An element of the visible body was dealt out with the others, the document is long enough for it, and
its boxes are those of its spread. -/
theorem exists_paging (a : Assembly t data evaluate d) {i : ℕ} {e : Element}
    (he : a.elements[i]? = some e) (hbody : e.inBody = true) (hinclusion : e.isInclusion = false)
    (hshown : (isShown evaluate data e).outcome = .ok true) :
    ∃ paging, pagingOf t data a.body e = .ok paging ∧ pagesNeeded e paging ≤ d.pageCount ∧
      ∀ page < d.pageCount,
        boxesOf t data d.pageCount page .body e paging = .ok (a.boxesAt page i) := by
  obtain ⟨flags, body, dealt, hflags, hvisible, hdealt, hplan⟩ := plan_eq_ok a.plan_eq
  obtain rfl : a.body = body := by simpa [a.body_eq] using hvisible
  obtain ⟨flag, hflag, hmark⟩ := Outcome.getElem?_of_mapM hflags he
  obtain rfl : true = flag := by simpa [isInBody, hbody, hinclusion, hshown] using hmark
  have hmarked : (a.elements.zip flags)[i]? = some (e, true) := by
    simp [List.getElem?_zip_eq_some, he, hflag]
  obtain ⟨paging, hpaging, hok⟩ := Outcome.getElem?_of_mapM hdealt hmarked
  have hplanned : a.plan.elements[i]? = some (e, paging) := by
    simp [hplan, List.getElem?_zip_eq_some, he, hpaging]
  refine ⟨paging, hok, ?_, fun page hlt => ?_⟩
  · rw [a.pageCount_eq, hplan]
    exact pagesNeeded_le_countPages (List.mem_of_getElem? (by simpa [hplan] using hplanned))
  · rw [a.pageCount_eq] at hlt ⊢
    obtain ⟨boxes, hboxes, hplace⟩ := Outcome.getElem?_of_mapM (a.boxes_eq page hlt) hplanned
    simp only [placeElement_of_shown hbody hinclusion hshown] at hplace
    simpa [boxesAt, hboxes] using hplace

end Assembly

end Layout

end Pagewright
