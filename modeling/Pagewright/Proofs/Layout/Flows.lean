import Pagewright.Proofs.Layout.Assembly
import Pagewright.Proofs.Layout.Lines

/-!
# Flowing text over several pages

The rule of a flowing text says twice how it lies in the document: `RepeatRule.pagesNeeded` before the
number of pages is known, `RepeatRule.flowPage?` once it is. The two agree
(`RepeatRule.flowPage?_eq_some_iff`): its pages stand on a run of pages of the document, one on each.
There are two exceptions. A text for the first page only shows its beginning there, and a single page
for all pages is on each of them.
-/

namespace Pagewright

namespace RepeatRule

/-- Whether a single page of flowing text is repeated on all pages. -/
def repeatsSingle : RepeatRule → Bool
  | all | unknown => true
  | _ => false

/-- The page of the document that shows the first page of a flowing text. -/
def start (rule : RepeatRule) (count flowPages : ℕ) : ℕ :=
  match rule with
  | afterFirst | middle => 1
  | last => count - flowPages
  | first | all | unknown => 0

variable {rule : RepeatRule} {count flowPages : ℕ}

/-- In a document that is long enough, the pages of a flowing text stand on a run of its pages. -/
theorem flowPage?_eq_some_iff (hfirst : rule ≠ first) (hsingle : ¬(flowPages = 1 ∧ rule.repeatsSingle))
    (hcount : (rule.pagesNeeded flowPages).toNat ≤ count) {page j : ℕ} (hpage : page < count) :
    rule.flowPage? page count flowPages = some j ↔
      j < flowPages ∧ page = rule.start count flowPages + j := by
  unfold flowPage? flowOffset? start
  unfold pagesNeeded at hcount
  unfold repeatsSingle at hsingle
  cases rule <;> grind

/-- The run of pages lies in the document. -/
theorem start_add_le (hfirst : rule ≠ first) (hcount : (rule.pagesNeeded flowPages).toNat ≤ count) :
    rule.start count flowPages + flowPages ≤ count := by
  unfold start
  unfold pagesNeeded at hcount
  cases rule <;> grind

theorem flowPage?_single (hsingle : rule.repeatsSingle = true) (page : ℕ) :
    rule.flowPage? page count 1 = some 0 := by
  cases rule <;> simp_all [repeatsSingle, flowPage?, flowOffset?]

theorem flowPage?_first (count : ℕ) (hflow : 0 < flowPages) (page : ℕ) :
    first.flowPage? page count flowPages = if page = 0 then some 0 else none := by
  unfold flowPage? flowOffset?
  grind

end RepeatRule

namespace Reading

theorem each_eq_mapM (read : ℕ → α → Outcome β) (i : ℕ) (xs : List α) :
    each read i xs = (xs.zipIdx i).mapM fun (x, n) => read n x := by
  induction xs generalizing i with
  | nil => rfl
  | cons x xs ih =>
    simp only [each, List.zipIdx_cons, List.mapM_cons, ih]

end Reading

namespace FlowPages

variable {e : Element} {text : Value} {columns : ℕ} {gap : Option Float} {data : Value} {t : Template}
  {width height : Float}

/-- The lines that the pages of a flowing text were made of. -/
structure HasLines (flow : FlowPages) (text data : Value) (lines : List String) : Prop where
  wrapped : ∃ size maxChars s, flow.fontSize.toNumber = .ok size ∧
    quotient flow.columnWidth (size * charWidthFactor) = .ok maxChars ∧
    Binding.substituteValue text data Binding.noPage = .ok s ∧ Wrap.linesIn maxChars s = .ok lines
  pages : flow.pages = pagesOf flow.columns flow.linesPerColumn lines
  columns_pos : 0 < flow.columns
  room_pos : 0 < flow.linesPerColumn

theorem hasLines_of_ofFlow {flow : FlowPages}
    (h : ofFlow e text columns gap data t width height = .ok flow) :
    ∃ lines, flow.HasLines text data lines := by
  simp only [ofFlow, Outcome.bind_eq_ok, Outcome.pure_eq_ok, Except.ok.injEq] at h
  obtain ⟨style, -, lineHeight, -, columnWidth, -, size, hsize, maxChars, hmax, s, hs, lines, hlines, _,
    -, _, -, room, hroom, rfl⟩ := h
  refine ⟨lines, ⟨size, maxChars, s, hsize, hmax, hs, hlines⟩, rfl, ?_, Wrap.limitOf_pos hroom⟩
  simp only [defaultColumns]
  split <;> omega

namespace HasLines

variable {flow : FlowPages} {lines : List String} (h : flow.HasLines text data lines)
include h

theorem newline_not_mem : ∀ l ∈ lines, '\n' ∉ l.toList := by
  obtain ⟨_, _, _, -, -, -, hlines⟩ := h.wrapped
  exact Wrap.newline_not_mem_linesIn hlines

theorem visibleLines_pages :
    visibleLines (flow.pages.flatten.flatMap textLines) = visibleLines lines := by
  rw [h.pages]
  exact lines_pagesOf h.columns_pos h.room_pos h.newline_not_mem

theorem pages_ne_nil : flow.pages ≠ [] := by
  rw [h.pages, pagesOf]
  split
  · simp
  · rename_i hne
    cases lines with
    | nil => simp at hne
    | cons l ls => simp [chunks_cons]

/-- Every page has a column, and no column has more lines than it has room for. -/
theorem columns_of_mem {page : List String} (hpage : page ∈ flow.pages) :
    page ≠ [] ∧ ∀ column ∈ page, (textLines column).length ≤ flow.linesPerColumn := by
  rw [h.pages] at hpage
  refine ⟨?_, length_textLines_le h.room_pos h.newline_not_mem page hpage⟩
  have hcolumns := h.columns_pos
  unfold pagesOf at hpage
  split at hpage
  · simp_all
  · obtain ⟨piece, -, rfl⟩ := List.mem_map.mp hpage
    simp only [columnsOf, ne_eq, List.map_eq_nil_iff, List.range_eq_nil]
    omega

end HasLines

end FlowPages

namespace Layout

variable {t : Template} {data : Value} {evaluate : Bool} {d : DocumentLayout}
variable {e : Element} {flow : FlowPages}

/-- Some boxes are the columns of the flowing text `e` with the given texts. -/
structure ShowsColumns (e : Element) (columns : List String) (boxes : List Box) : Prop where
  texts : boxes.map Box.text? = columns.map some
  ids : boxes.map Box.id = (List.range columns.length).map fun c => e.id ++ "__c" ++ toString c
  region : ∀ b ∈ boxes, b.region = .body

theorem columnBox_eq_ok {region : Region} {column : ℕ} {text : String} {b : Box}
    (h : columnBox t region e flow column text = .ok b) :
    b.text? = some text ∧ b.id = e.id ++ "__c" ++ toString column ∧ b.region = region := by
  simp only [columnBox, baseBox, Outcome.bind_eq_ok, Outcome.pure_eq_ok, Except.ok.injEq] at h
  obtain ⟨_, ⟨_, -, rfl⟩, _, -, _, -, rfl⟩ := h
  exact ⟨rfl, rfl, rfl⟩

/-- Where a page of a flowing text stands, its columns are shown. -/
theorem flowPageBoxes_of_some {page count j : ℕ} {boxes : List Box}
    (hj : e.rule.flowPage? page count flow.pages.length = some j)
    (h : flowPageBoxes t .body e flow page count = .ok boxes) :
    ShowsColumns e (flow.pages.getD j []) boxes := by
  simp only [flowPageBoxes, hj, Reading.each_eq_mapM] at h
  refine ⟨?_, ?_, fun b hb => ?_⟩
  · rw [Outcome.map_of_mapM h (k := some ∘ Prod.fst) fun p b hb => (columnBox_eq_ok hb).1,
      ← List.map_map, List.zipIdx_map_fst]
  · rw [Outcome.map_of_mapM h (k := (fun c => e.id ++ "__c" ++ toString c) ∘ Prod.snd)
      fun p b hb => (columnBox_eq_ok hb).2.1, ← List.map_map, List.zipIdx_map_snd, List.range_eq_range']
  · obtain ⟨p, -, hp⟩ := Outcome.exists_of_mem_of_mapM h hb
    exact (columnBox_eq_ok hp).2.2

theorem flowPageBoxes_of_none {page count : ℕ} {boxes : List Box}
    (hnone : e.rule.flowPage? page count flow.pages.length = none)
    (h : flowPageBoxes t .body e flow page count = .ok boxes) : boxes = [] := by
  simp only [flowPageBoxes, hnone, Except.ok.injEq] at h
  exact h.symm

/-- How the pages of a flowing text lie in a document: on a run of its pages, one on each; for the rule
`first`, only the beginning on the first page; a single page that is repeated, everywhere. -/
structure FlowPlaced (e : Element) (flow : FlowPages) (count : ℕ) (boxesOn : ℕ → List Box) : Prop where
  run : e.rule ≠ .first → ¬(flow.pages.length = 1 ∧ e.rule.repeatsSingle = true) →
    ∃ start, start + flow.pages.length ≤ count ∧
      (∀ j < flow.pages.length, ShowsColumns e (flow.pages.getD j []) (boxesOn (start + j))) ∧
      ∀ page < count, ¬(start ≤ page ∧ page < start + flow.pages.length) → boxesOn page = []
  single : flow.pages.length = 1 → e.rule.repeatsSingle = true →
    ∀ page < count, ShowsColumns e (flow.pages.getD 0 []) (boxesOn page)
  first : e.rule = .first → 0 < count ∧ ShowsColumns e (flow.pages.getD 0 []) (boxesOn 0) ∧
    ∀ page < count, 0 < page → boxesOn page = []

/-- The count of pages that a flowing text asks for and the pages that it is put on agree. -/
theorem flowPlaced_of_boxes {count : ℕ} {boxesOn : ℕ → List Box} (hpages : flow.pages ≠ [])
    (hcount : (e.rule.pagesNeeded flow.pages.length).toNat ≤ count)
    (hboxes : ∀ page < count, flowPageBoxes t .body e flow page count = .ok (boxesOn page)) :
    FlowPlaced e flow count boxesOn := by
  have hlength : 0 < flow.pages.length := List.length_pos_iff.mpr hpages
  refine ⟨fun hfirst hsingle => ?_, fun hone hsingle page hpage => ?_, fun hfirst => ?_⟩
  · have hrun := RepeatRule.start_add_le hfirst hcount
    refine ⟨e.rule.start count flow.pages.length, hrun, fun j hj => ?_, fun page hpage hout => ?_⟩
    · have hpage : e.rule.start count flow.pages.length + j < count := by omega
      exact flowPageBoxes_of_some
        ((RepeatRule.flowPage?_eq_some_iff hfirst hsingle hcount hpage).mpr ⟨hj, rfl⟩) (hboxes _ hpage)
    · refine flowPageBoxes_of_none (Option.eq_none_iff_forall_ne_some.mpr fun j hj => hout ?_)
        (hboxes page hpage)
      obtain ⟨hlt, rfl⟩ := (RepeatRule.flowPage?_eq_some_iff hfirst hsingle hcount hpage).mp hj
      omega
  · refine flowPageBoxes_of_some ?_ (hboxes page hpage)
    rw [hone]
    exact RepeatRule.flowPage?_single hsingle page
  · have hzero : 0 < count := by
      rw [hfirst] at hcount
      exact hcount
    have hpage (page : ℕ) := RepeatRule.flowPage?_first count hlength page
    rw [← hfirst] at hpage
    have hbegin : e.rule.flowPage? (0 : ℕ) count flow.pages.length = some 0 := by
      simp only [hpage, if_true]
    refine ⟨hzero, flowPageBoxes_of_some hbegin (hboxes 0 hzero), fun page hlt hpos => ?_⟩
    refine flowPageBoxes_of_none ?_ (hboxes page hlt)
    rw [hpage, if_neg (by omega)]

/-- Every page of a flowing text of the visible body is shown on one page of the document, in order, the
first page only for the rule `first`, and a single page that is repeated on all of them. The columns of
its pages have the lines of the text, each as many as it has room for. -/
theorem flow_pages_shown (h : (assemble t data evaluate none).outcome = .ok d) :
    ∃ a : Assembly t data evaluate d,
      ∀ (i : ℕ) (e : Element) (text : Value) (columns : ℕ) (gap : Option Float),
        a.elements[i]? = some e → e.content = .flowText text columns gap → e.inBody = true →
        (isShown evaluate data e).outcome = .ok true →
        ∃ (flow : FlowPages) (lines : List String),
          FlowPages.ofFlow e text columns gap data t (t.page.rect .body).w (t.page.rect .body).h =
            .ok flow ∧
          flow.HasLines text data lines ∧
          FlowPlaced e flow d.pageCount (fun page => a.boxesAt page i) ∧
          (∀ page ∈ flow.pages, page ≠ [] ∧
            ∀ column ∈ page, (FlowPages.textLines column).length ≤ flow.linesPerColumn) ∧
          FlowPages.visibleLines (flow.pages.flatten.flatMap FlowPages.textLines) =
            FlowPages.visibleLines lines := by
  obtain ⟨a⟩ := assembly_of_assemble h
  refine ⟨a, fun i e text columns gap he hcontent hbody hshown => ?_⟩
  obtain ⟨paging, hpaging, hcount, hboxes⟩ :=
    a.exists_paging he hbody (by simp [Element.isInclusion, Content.inclusion?, hcontent]) hshown
  simp only [pagingOf, hcontent, Outcome.bind_eq_ok, Outcome.pure_eq_ok, Except.ok.injEq] at hpaging
  obtain ⟨flow, hflow, rfl⟩ := hpaging
  obtain ⟨lines, hlines⟩ := FlowPages.hasLines_of_ofFlow hflow
  exact ⟨flow, lines, hflow, hlines, flowPlaced_of_boxes hlines.pages_ne_nil hcount hboxes,
    fun page hpage => hlines.columns_of_mem hpage, hlines.visibleLines_pages⟩

/-- A text with one line a page, at the end of the document. -/
def termsElement : Element :=
  ⟨"terms", .null, 0, 0, 20, 13, none, .null, .null, .text "last", none, none,
    .flowText (.text "aa bb cc") 1 none⟩

/-- A template with nothing but a text at the end. -/
def termsTemplate : Template where
  page := ⟨100, 100, ⟨0, 0, 0, 0⟩, 0, 0⟩
  id := "terms"
  name := ""
  version := .null
  unit := .null
  fonts := []
  styles := []
  contract := []
  elements := [termsElement]
  partials := []
  settings := []
  pageCount := none

/-- Three lines are shown on the last three pages. -/
theorem flow_pages_shown_terms :
    ∃ d, (assemble termsTemplate .null true none).outcome = .ok d ∧
      ∃ (a : Assembly termsTemplate .null true d) (flow : FlowPages) (lines : List String),
        flow.HasLines (.text "aa bb cc") .null lines ∧ flow.pages = [["aa"], ["bb"], ["cc"]] ∧
        FlowPlaced termsElement flow d.pageCount (fun page => a.boxesAt page 0) ∧
        FlowPages.visibleLines lines = ["aa", "bb", "cc"] := by
  have hexpand : termsTemplate.expandLogged = ⟨[], .ok termsTemplate.elements⟩ := by cbv
  have hok : (assemble termsTemplate .null true none).outcome.isOk = true := by
    unfold assemble
    rw [hexpand]
    decide +kernel
  obtain ⟨d, hd⟩ := Outcome.exists_of_isOk hok
  obtain ⟨a, ha⟩ := flow_pages_shown hd
  have helements : a.elements = termsTemplate.elements := a.elements_eq hexpand
  obtain ⟨flow, lines, hflow, hlines, hplaced, -, hvisible⟩ :=
    ha 0 termsElement (.text "aa bb cc") 1 none (by rw [helements]; rfl) rfl rfl rfl
  have hpages : (FlowPages.ofFlow termsElement (.text "aa bb cc") 1 none .null termsTemplate
      (termsTemplate.page.rect .body).w (termsTemplate.page.rect .body).h).toOption.map (·.pages) =
      some [["aa"], ["bb"], ["cc"]] := by
    decide +kernel
  rw [hflow] at hpages
  simp only [Except.toOption, Option.map_some, Option.some.injEq] at hpages
  rw [hpages] at hvisible
  exact ⟨d, hd, a, flow, lines, hlines, hpages, hplaced, hvisible.symm.trans (by decide)⟩

end Layout

end Pagewright
