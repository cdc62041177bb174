import Mathlib.Data.List.Infix
import Pagewright.Proofs.Markup.Frame

/-!
# Data stay in their gaps

Whatever characters the data of a document have, its markup is the frame that the rest of the document
gives with the escaped data in the gaps, so it has as many angle brackets and quotes as with other data,
and it opens one block for each page (`data_stay_in_gaps`).

The blocks are counted fragment by fragment: a fragment is quiet if it does not open the block of a page,
whatever comes behind it (`Quiet`), and every fragment is quiet but the one at the start of a page.
-/

namespace Pagewright.Markup

open Fragment

/-! ## Characters of a filled frame -/

/-- A character that no escaped text has occurs as often as in the frame alone. -/
theorem count_chars_fill {c : Char} (hc : ∀ s, c ∉ escape s) (frame : List Part) (texts : List String) :
    (chars (fill frame texts)).count c = (chars (fill frame [])).count c := by
  have hcons (f : Fragment) (fragments : List Fragment) :
      (chars (f :: fragments)).count c = f.chars.count c + (chars fragments).count c := by
    rw [← List.count_append]
    rfl
  induction frame generalizing texts with
  | nil => cases texts <;> rfl
  | cons part frame ih =>
    cases part with
    | given f =>
      rw [fill, fill, hcons, hcons, ih]
    | gap =>
      cases texts with
      | nil => rfl
      | cons text texts =>
        have hhole : (hole text).chars.count c = 0 := List.count_eq_zero.mpr (hc text.toList)
        rw [fill, fill, hcons, hhole, Nat.zero_add, ih]

/-! ## Occurrences of the start of a page -/

/-- How a page starts. -/
def pageStart : List Char := "<div class=\"page\"".toList

/-- How often a page starts in a text. -/
def pageStarts (s : List Char) : ℕ := s.tails.countP pageStart.isPrefixOf

/-- The end of a text is not the beginning of the start of a page, unless it is all of it. -/
def isSettled (s : List Char) : Bool :=
  s.tails.all fun rest => rest.isEmpty || !rest.isPrefixOf pageStart || rest == pageStart

theorem pageStarts_cons (c : Char) (s : List Char) :
    pageStarts (c :: s) = pageStarts s + if pageStart.isPrefixOf (c :: s) then 1 else 0 := by
  rw [pageStarts, List.tails, List.countP_cons]
  rfl

/-- A page that starts in a settled text does so whatever comes behind the text. -/
theorem isPrefixOf_append {s : List Char} (hne : s ≠ []) (h : isSettled s = true) (rest : List Char) :
    pageStart.isPrefixOf (s ++ rest) = pageStart.isPrefixOf s := by
  have hself : s.isPrefixOf pageStart = true → s = pageStart := by
    intro hstarts
    have hs := List.all_eq_true.mp h s ((List.mem_tails _ _).mpr s.suffix_refl)
    simpa [hne, hstarts] using hs
  rw [Bool.eq_iff_iff, List.isPrefixOf_iff_prefix, List.isPrefixOf_iff_prefix]
  constructor
  · intro hstarts
    rcases List.prefix_or_prefix_of_prefix hstarts (List.prefix_append s rest) with hshort | hlong
    · exact hshort
    · exact (hself (List.isPrefixOf_iff_prefix.mpr hlong)) ▸ List.prefix_refl _
  · exact fun hstarts => hstarts.trans (List.prefix_append s rest)

theorem isSettled_tail {c : Char} {s : List Char} (h : isSettled (c :: s) = true) : isSettled s = true := by
  rw [isSettled, List.tails, List.all_cons, Bool.and_eq_true] at h
  exact h.2

/-- Behind a settled text pages start as they do without it. -/
theorem pageStarts_append {s : List Char} (h : isSettled s = true) (rest : List Char) :
    pageStarts (s ++ rest) = pageStarts s + pageStarts rest := by
  induction s with
  | nil =>
    rw [List.nil_append]
    exact (Nat.zero_add _).symm
  | cons c s ih =>
    rw [List.cons_append, pageStarts_cons, pageStarts_cons, ih (isSettled_tail h), ← List.cons_append,
      isPrefixOf_append (List.cons_ne_nil c s) h]
    omega

/-- At no bracket of a text a page starts, nor what could become the start of one. -/
def opensNoPage : List Char → Bool
  | [] => true
  | c :: s => (c != '<' || !(c :: s).isPrefixOf pageStart && !pageStart.isPrefixOf (c :: s)) && opensNoPage s

theorem opensNoPage_of_not_mem {s : List Char} (h : '<' ∉ s) : opensNoPage s = true := by
  induction s with
  | nil => rfl
  | cons c s ih =>
    rw [List.mem_cons, not_or] at h
    simp [opensNoPage, Ne.symm h.1, ih h.2]

theorem settled_of_opensNoPage {s : List Char} (h : opensNoPage s = true) :
    isSettled s = true ∧ pageStarts s = 0 := by
  induction s with
  | nil => exact ⟨rfl, rfl⟩
  | cons c s ih =>
    rw [opensNoPage, Bool.and_eq_true] at h
    obtain ⟨hsettled, hzero⟩ := ih h.2
    have hapart : (c :: s).isPrefixOf pageStart = false ∧ pageStart.isPrefixOf (c :: s) = false := by
      by_cases hc : c = '<'
      · simpa [hc] using h.1
      · simp only [Bool.eq_false_iff, ne_eq, List.isPrefixOf_iff_prefix]
        exact ⟨fun hp => hc (List.cons_prefix_cons.mp hp).1, fun hp => hc (List.cons_prefix_cons.mp hp).1.symm⟩
    rw [isSettled] at hsettled
    rw [pageStarts_cons, hzero, hapart.2, isSettled, List.tails, List.all_cons, hsettled, hapart.1]
    exact ⟨rfl, rfl⟩

/-! ## Quiet fragments -/

/-- No page starts in a fragment, nor at its end. -/
structure Quiet (f : Fragment) : Prop where
  settled : isSettled f.chars = true
  opens_none : pageStarts f.chars = 0

theorem quiet_of_opensNoPage {f : Fragment} (h : opensNoPage f.chars = true) : Quiet f where
  settled := (settled_of_opensNoPage h).1
  opens_none := (settled_of_opensNoPage h).2

theorem quiet_of_not_mem {f : Fragment} (h : '<' ∉ f.chars) : Quiet f :=
  quiet_of_opensNoPage (opensNoPage_of_not_mem h)

/-- Fixed markup is taken as its characters, which are tested faster than those of a string. -/
theorem quiet_fixed {cs : List Char} (h : opensNoPage cs = true) : Quiet (fixed (String.ofList cs)) :=
  quiet_of_opensNoPage (by rwa [Fragment.chars, String.toList_ofList])

theorem quiet_fixed_append {a b : List Char} (h : opensNoPage (a ++ b) = true) :
    Quiet (fixed (String.ofList a ++ String.ofList b)) := by
  rw [← String.ofList_append]
  exact quiet_fixed h

theorem quiet_fixed_between {a b c : List Char} (h : opensNoPage (a ++ b ++ c) = true) :
    Quiet (fixed (String.ofList a ++ String.ofList b ++ String.ofList c)) := by
  rw [← String.ofList_append]
  exact quiet_fixed_append h

@[simp] theorem quiet_hole (text : String) : Quiet (hole text) := quiet_of_not_mem (escape_plain text.toList).1

@[simp] theorem quiet_value (v : Value) : Quiet (Fragment.value v) := quiet_hole v.display

/-- No page starts in some fragments, nor at the end of one. -/
def AllQuiet (fragments : List Fragment) : Prop := ∀ f ∈ fragments, Quiet f

theorem allQuiet_nil : AllQuiet [] := by simp [AllQuiet]

theorem allQuiet_cons {f : Fragment} {fragments : List Fragment} :
    AllQuiet (f :: fragments) ↔ Quiet f ∧ AllQuiet fragments := List.forall_mem_cons

theorem allQuiet_append {a b : List Fragment} : AllQuiet (a ++ b) ↔ AllQuiet a ∧ AllQuiet b :=
  List.forall_mem_append

theorem allQuiet_flatMap {α : Type} {l : List α} {f : α → List Fragment} (h : ∀ a ∈ l, AllQuiet (f a)) :
    AllQuiet (l.flatMap f) := List.forall_mem_flatMap.mpr h

theorem pageStarts_allQuiet {fragments : List Fragment} (h : AllQuiet fragments) (rest : List Char) :
    pageStarts (chars fragments ++ rest) = pageStarts rest := by
  induction fragments with
  | nil => rfl
  | cons f fragments ih =>
    obtain ⟨⟨hsettled, hzero⟩, htail⟩ := allQuiet_cons.mp h
    have hsplit : chars (f :: fragments) ++ rest = f.chars ++ (chars fragments ++ rest) :=
      List.append_assoc _ _ _
    rw [hsplit, pageStarts_append hsettled, hzero, Nat.zero_add, ih htail]

/-! ## Boxes are quiet -/

theorem allQuiet_openBox {class_ : String} (b : Box)
    (h : Quiet (fixed ("<div class=\"el " ++ class_ ++ "\" data-id=\""))) : AllQuiet (openBox class_ b) := by
  simp only [openBox, allQuiet_cons, quiet_hole, h, allQuiet_nil, true_and, and_true]
  exact quiet_fixed rfl

theorem allQuiet_cell {tag : String} (htag : tag = "th" ∨ tag = "td") (css : String)
    (align : Option Value) (rowHeight : Float) {content : List Fragment} (hcontent : AllQuiet content) :
    AllQuiet (cell tag css align rowHeight content) := by
  have hopen : Quiet (fixed ("<" ++ tag ++ " style=\"")) := by
    rcases htag with rfl | rfl <;> exact quiet_fixed_between rfl
  have hclose : Quiet (fixed ("</" ++ tag ++ ">")) := by
    rcases htag with rfl | rfl <;> exact quiet_fixed_between rfl
  simp only [cell, allQuiet_append, allQuiet_cons, allQuiet_nil, quiet_hole, hopen, hclose, hcontent,
    and_true, true_and]
  refine ⟨?_, quiet_fixed rfl, quiet_fixed rfl, quiet_fixed rfl⟩
  cases align with
  | none => exact allQuiet_nil
  | some v =>
    simp only [allQuiet_cons, quiet_value, allQuiet_nil, and_true]
    exact quiet_fixed rfl

theorem allQuiet_row {tag : String} (htag : tag = "th" ∨ tag = "td") (css : String) (rowHeight : Float)
    (columns : List TableColumn) (texts : List String) : AllQuiet (row tag css rowHeight columns texts) :=
  allQuiet_flatMap fun p _ =>
    allQuiet_cell htag css _ rowHeight (allQuiet_cons.mpr ⟨quiet_hole p.2, allQuiet_nil⟩)

theorem allQuiet_table (t : TableBox) (fonts : List Font) : AllQuiet (table t fonts) := by
  have hcolumns : AllQuiet (t.columns.flatMap fun c =>
      [fixed "<col style=\"width:", hole (Css.points c.w), fixed ";\" />"]) := by
    refine allQuiet_flatMap fun c _ => ?_
    simp only [allQuiet_cons, quiet_hole, allQuiet_nil, and_true, true_and]
    and_intros <;> exact quiet_fixed rfl
  have hrows : AllQuiet (t.cells.flatMap fun texts => [fixed "      <tr>"] ++
      row "td" (Css.ofStyle t.rowStyle fonts) t.rowHeight t.columns texts ++ [fixed "</tr>\n"]) := by
    refine allQuiet_flatMap fun texts _ => ?_
    simp only [allQuiet_append, allQuiet_cons, allQuiet_nil, allQuiet_row (.inr rfl), and_true]
    and_intros <;> exact quiet_fixed rfl
  have hpadding : AllQuiet (List.replicate t.padding ([fixed "      <tr class=\"pad\">"] ++
      t.columns.flatMap (fun _ => cell "td" (Css.ofStyle t.rowStyle fonts) none t.rowHeight []) ++
      [fixed "</tr>\n"])).flatten := by
    intro f hf
    obtain ⟨row, hrow, hmem⟩ := List.mem_flatten.mp hf
    obtain rfl := List.eq_of_mem_replicate hrow
    have hcells : AllQuiet (t.columns.flatMap fun _ =>
        cell "td" (Css.ofStyle t.rowStyle fonts) none t.rowHeight []) :=
      allQuiet_flatMap fun _ _ => allQuiet_cell (.inr rfl) _ none t.rowHeight allQuiet_nil
    have hall : AllQuiet ([fixed "      <tr class=\"pad\">"] ++ t.columns.flatMap (fun _ =>
        cell "td" (Css.ofStyle t.rowStyle fonts) none t.rowHeight []) ++ [fixed "</tr>\n"]) := by
      simp only [allQuiet_append, allQuiet_cons, allQuiet_nil, hcells, and_true]
      and_intros <;> exact quiet_fixed rfl
    exact hall f hmem
  simp only [table, allQuiet_append, allQuiet_cons, allQuiet_nil, hcolumns, hrows, hpadding,
    allQuiet_row (.inl rfl), and_true]
  and_intros <;> exact quiet_fixed rfl

/-- A box opens no page, unless it holds markup of its own. -/
theorem allQuiet_box (fonts : List Font) {b : Box} (h : b.isRich = false) : AllQuiet (box fonts b) := by
  unfold Box.isRich at h
  unfold box
  match hcontent : b.content with
  | .text s true => exact absurd (hcontent ▸ h) (by simp)
  | .text s false =>
    have hopen : AllQuiet (openBox (if b.kind == "flowText" then "flow-text" else "text") b) := by
      refine allQuiet_openBox b ?_
      split <;> exact quiet_fixed_between rfl
    simp only [allQuiet_append, allQuiet_cons, allQuiet_nil, quiet_hole, hopen, and_true, true_and]
    and_intros <;> exact quiet_fixed rfl
  | .image src fit =>
    simp only [allQuiet_cons, allQuiet_nil, quiet_hole, quiet_value, and_true, true_and]
    and_intros <;> exact quiet_fixed rfl
  | .table t =>
    simp only [allQuiet_append, allQuiet_cons, allQuiet_nil, allQuiet_table,
      allQuiet_openBox b (quiet_fixed_between rfl : Quiet (fixed ("<div class=\"el " ++ "table" ++ _))), and_true,
      true_and]
    and_intros <;> exact quiet_fixed rfl
  | .code v =>
    simp only [allQuiet_cons, allQuiet_nil, quiet_hole, and_true, true_and]
    and_intros <;> exact quiet_fixed rfl
  | .blank =>
    have hline : AllQuiet (openBox "line" b) := allQuiet_openBox b (quiet_fixed_between rfl)
    have hbox : AllQuiet (openBox "box" b) := allQuiet_openBox b (quiet_fixed_between rfl)
    dsimp only
    split
    · simp only [allQuiet_append, allQuiet_cons, allQuiet_nil, quiet_hole, quiet_value, hline, and_true,
        true_and]
      and_intros <;> exact quiet_fixed rfl
    · simp only [allQuiet_append, allQuiet_cons, allQuiet_nil, quiet_hole, hbox, and_true, true_and]
      and_intros <;> exact quiet_fixed rfl

/-! ## Pages start once each -/

/-- No box of a page holds markup of its own. -/
def PlainPage (p : PageLayout) : Prop := ∀ b ∈ p.boxes, b.isRich = false

theorem mem_boxes {p : PageLayout} {r : Region} {b : Box} (h : b ∈ p.region r) : b ∈ p.boxes := by
  simp only [PageLayout.boxes, List.mem_append]
  cases r with
  | header => exact .inl (.inl h)
  | body => exact .inl (.inr h)
  | footer => exact .inr h

theorem allQuiet_region (fonts : List Font) {p : PageLayout} (h : PlainPage p) (r : Region) :
    AllQuiet (region fonts p r) := by
  have hopen : Quiet (fixed ("      <div class=\"page-region page-" ++ r.name ++ "\">\n")) := by
    cases r <;> exact quiet_fixed_between rfl
  have hboxes : AllQuiet ((p.region r).flatMap fun b => [fixed "        "] ++ box fonts b ++ [newLine]) := by
    refine allQuiet_flatMap fun b hb => ?_
    simp only [allQuiet_append, allQuiet_cons, allQuiet_nil, allQuiet_box fonts (h b (mem_boxes hb)),
      and_true]
    and_intros <;> exact quiet_fixed rfl
  simp only [region, allQuiet_append, allQuiet_cons, allQuiet_nil, hopen, hboxes, and_true, true_and]
  exact quiet_fixed rfl

theorem pageStarts_page (fonts : List Font) {p : PageLayout} (h : PlainPage p) (rest : List Char) :
    pageStarts (chars (page fonts p) ++ rest) = pageStarts rest + 1 := by
  have hstart : isSettled (fixed "    <div class=\"page\" data-page=\"").chars = true ∧
      pageStarts (fixed "    <div class=\"page\" data-page=\"").chars = 1 := by
    decide
  have hinside : AllQuiet ([hole (toString p.number), fixed "\">\n"] ++
      Region.all.flatMap (region fonts p) ++ [fixed "    </div>\n"]) := by
    have hregions := allQuiet_flatMap (l := Region.all) fun r _ => allQuiet_region fonts h r
    simp only [allQuiet_append, allQuiet_cons, allQuiet_nil, quiet_hole, hregions, and_true, true_and]
    and_intros <;> exact quiet_fixed rfl
  have hsplit : chars (page fonts p) ++ rest = (fixed "    <div class=\"page\" data-page=\"").chars ++
      (chars ([hole (toString p.number), fixed "\">\n"] ++ Region.all.flatMap (region fonts p) ++
        [fixed "    </div>\n"]) ++ rest) := List.append_assoc _ _ _
  rw [hsplit, pageStarts_append hstart.1, hstart.2, pageStarts_allQuiet hinside, Nat.add_comm]

theorem pageStarts_pages (fonts : List Font) {pages : List PageLayout} (h : ∀ p ∈ pages, PlainPage p)
    (rest : List Char) :
    pageStarts (chars (pages.flatMap (page fonts)) ++ rest) = pageStarts rest + pages.length := by
  induction pages with
  | nil => rfl
  | cons p pages ih =>
    rw [List.flatMap_cons, chars_append, List.append_assoc,
      pageStarts_page fonts (h p List.mem_cons_self), ih fun q hq => h q (List.mem_cons_of_mem p hq),
      List.length_cons, Nat.add_assoc]

theorem allQuiet_styleSheet (spec : PageSpec) {fonts : List Font}
    (h : '<' ∉ (Css.fontRules fonts).toList) : AllQuiet (styleSheet spec fonts) := by
  have hrules : Quiet (rich (Css.fontRules fonts)) := quiet_of_not_mem h
  simp only [styleSheet, styleLine, len, allQuiet_append, allQuiet_cons, allQuiet_nil, quiet_hole, hrules,
    and_true, true_and]
  and_intros <;> first
    | exact quiet_fixed rfl
    | exact quiet_fixed_between rfl
    | exact quiet_fixed_append rfl

theorem pageStarts_ofLayout {d : DocumentLayout} (h : ∀ p ∈ d.pages, PlainPage p)
    (hfonts : '<' ∉ (Css.fontRules d.fonts).toList) :
    pageStarts (chars (ofLayout d)) = d.pages.length := by
  have hend : AllQuiet [fixed "  </body>\n</html>"] := by
    simp only [allQuiet_cons, allQuiet_nil, and_true]
    exact quiet_fixed rfl
  have hhead : AllQuiet (
      [fixed "<!doctype html>\n<html>\n  <head>\n    <meta charset=\"utf-8\" />\n    <style>\n"] ++
      styleSheet d.page d.fonts ++ [fixed "    </style>\n  </head>\n  <body>\n"]) := by
    simp only [allQuiet_append, allQuiet_cons, allQuiet_nil, allQuiet_styleSheet d.page hfonts, and_true]
    and_intros <;> exact quiet_fixed rfl
  have hlast : pageStarts (chars [fixed "  </body>\n</html>"]) = 0 := by
    have hquiet := pageStarts_allQuiet hend []
    rwa [List.append_nil] at hquiet
  rw [ofLayout, chars_append, chars_append, List.append_assoc, pageStarts_allQuiet hhead,
    pageStarts_pages d.fonts h, hlast, Nat.zero_add]

/-- The markup of a document is a frame with its data escaped in the gaps, and documents that only differ
in their data have the same frame. So they have as many angle brackets and quotes, and the markup of each
starts one page for every page of the layout, if no box holds markup of its own and the fonts open no
tag. -/
theorem data_stay_in_gaps (d : DocumentLayout) :
    ∃ frame, ∀ d' : DocumentLayout, d'.blanked = d.blanked →
      ofLayout d' = fill frame d'.dataTexts ∧ d'.dataTexts.length = gaps frame ∧
      (∀ c ∈ ['<', '>', '"'], d'.markup.toList.count c = d.markup.toList.count c) ∧
      ((∀ p ∈ d'.pages, PlainPage p) → '<' ∉ (Css.fontRules d'.fonts).toList →
        pageStarts d'.markup.toList = d'.pages.length) := by
  obtain ⟨frame, hframe⟩ := framable_ofLayout d
  have hchars (d' : DocumentLayout) : d'.markup.toList = chars (ofLayout d') := String.toList_ofList
  refine ⟨frame, fun d' hd' => ⟨(hframe d' hd').fragments_eq, (hframe d' hd').length_eq, fun c hc => ?_,
    fun hplain hfonts => ?_⟩⟩
  · have hescaped : ∀ s, c ∉ escape s := fun s => by
      obtain ⟨hopen, hclose, hquote, -⟩ := escape_plain s
      simp only [List.mem_cons, List.not_mem_nil, or_false] at hc
      rcases hc with rfl | rfl | rfl
      · exact hopen
      · exact hclose
      · exact hquote
    rw [hchars, hchars, (hframe d' hd').fragments_eq, (hframe d rfl).fragments_eq,
      count_chars_fill hescaped, count_chars_fill hescaped frame d.dataTexts]
  · rw [hchars]
    exact pageStarts_ofLayout hplain hfonts

/-- A page with a title, a picture and a table with one row. -/
def leaflet (title src code cell : String) : DocumentLayout where
  page := default
  fonts := []
  pageCount := 1
  pages :=
    let place (id kind : String) (content : BoxContent) : Box :=
      ⟨id, kind, .body, 0, 0, 10, 10, {}, none, content⟩
    [{ number := 1
       header := [place "title" "text" (.text title false)]
       body := [place "picture" "image" (.image src .null), place "link" "qr" (.code code),
         place "prices" "table" (.table ⟨[default], {}, {}, 20, [[cell]], 0⟩)] }]

/-- Data that try to close a tag, to open a page and to leave an attribute change no bracket and no quote,
and the page is still the only one. -/
theorem data_stay_in_gaps_leaflet :
    (leaflet "</div><div class=\"page\">" "x\" onerror=\"y" "\">" "<b>").dataTexts =
        ["</div><div class=\"page\">", "x\" onerror=\"y", "\">", "<b>"] ∧
      (∀ c ∈ ['<', '>', '"'],
        (leaflet "</div><div class=\"page\">" "x\" onerror=\"y" "\">" "<b>").markup.toList.count c =
          (leaflet "Prices" "logo.png" "42" "9.50").markup.toList.count c) ∧
      pageStarts (leaflet "</div><div class=\"page\">" "x\" onerror=\"y" "\">" "<b>").markup.toList = 1 := by
  obtain ⟨frame, hframe⟩ := data_stay_in_gaps (leaflet "Prices" "logo.png" "42" "9.50")
  obtain ⟨-, -, hcount, hpages⟩ :=
    hframe (leaflet "</div><div class=\"page\">" "x\" onerror=\"y" "\">" "<b>") rfl
  refine ⟨rfl, hcount, hpages (fun p hp b hb => ?_) (by decide)⟩
  obtain rfl := List.mem_singleton.mp hp
  simp only [PageLayout.boxes, List.append_nil, List.cons_append, List.nil_append, List.mem_cons,
    List.not_mem_nil, or_false] at hb
  rcases hb with rfl | rfl | rfl | rfl <;> rfl

end Pagewright.Markup
