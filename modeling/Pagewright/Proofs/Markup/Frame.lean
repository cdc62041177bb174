import Mathlib.Data.Nat.Notation
import Pagewright.Markup.Document

/-!
# Documents and their data

The data of a laid-out document are the texts, image sources, code values and cells that its boxes show
(`DocumentLayout.dataTexts`); everything else is left when these are blanked
(`DocumentLayout.blanked`). The markup of a document is a frame that only depends on what is left, with a
gap for each of the data, filled with the data in order (`framable_ofLayout`): an escaped text in each gap.

A family of lists of fragments is framable if one frame serves all of them (`Framable`); lists that are put
together from framable parts are framable.
-/

namespace Pagewright

/-! ## Data of a layout -/

/-- A content without its data. Markup that comes from a template is no data. -/
def BoxContent.blanked : BoxContent → BoxContent
  | .text _ false => .text "" false
  | .text markup true => .text markup true
  | .image _ fit => .image "" fit
  | .code _ => .code ""
  | .table t => .table { t with cells := t.cells.map fun row => row.map fun _ => "" }
  | .blank => .blank

/-- The data that a content shows. A row of a table has one cell in each column. -/
def BoxContent.dataTexts : BoxContent → List String
  | .text s false => [s]
  | .text _ true => []
  | .image src _ => [src]
  | .code value => [value]
  | .table t => t.cells.flatMap (List.take t.columns.length)
  | .blank => []

/-- A box without its data. -/
def Box.blanked (b : Box) : Box := { b with content := b.content.blanked }

/-- The data that a box shows. -/
def Box.dataTexts (b : Box) : List String := b.content.dataTexts

/-- A page without its data. -/
def PageLayout.blanked (p : PageLayout) : PageLayout :=
  { p with
    header := p.header.map Box.blanked
    body := p.body.map Box.blanked
    footer := p.footer.map Box.blanked }

/-- The data that a page shows. -/
def PageLayout.dataTexts (p : PageLayout) : List String := p.boxes.flatMap Box.dataTexts

/-- A document without its data. -/
def DocumentLayout.blanked (d : DocumentLayout) : DocumentLayout :=
  { d with pages := d.pages.map PageLayout.blanked }

/-- The data that a document shows, in order. -/
def DocumentLayout.dataTexts (d : DocumentLayout) : List String := d.pages.flatMap PageLayout.dataTexts

namespace Markup

open Fragment

/-! ## Frames -/

/-- A part of a frame. -/
inductive Part where
  /-- A fragment that is there whatever the data are. -/
  | given (f : Fragment)
  /-- A gap, in which a text is shown escaped. -/
  | gap

/-- A frame with texts in its gaps, in order. -/
def fill : List Part → List String → List Fragment
  | [], _ => []
  | .given f :: frame, texts => f :: fill frame texts
  | .gap :: frame, [] => fill frame []
  | .gap :: frame, text :: texts => hole text :: fill frame texts

/-- The number of gaps of a frame. -/
def gaps : List Part → ℕ
  | [] => 0
  | .given _ :: frame => gaps frame
  | .gap :: frame => gaps frame + 1

theorem gaps_append (frame frame' : List Part) : gaps (frame ++ frame') = gaps frame + gaps frame' := by
  induction frame with
  | nil => exact (Nat.zero_add _).symm
  | cons part frame ih =>
    cases part with
    | given f => exact ih
    | gap =>
      rw [List.cons_append, gaps, gaps, ih]
      omega

theorem gaps_given (fragments : List Fragment) : gaps (fragments.map .given) = 0 := by
  induction fragments with
  | nil => rfl
  | cons f fragments ih => exact ih

theorem fill_given (fragments : List Fragment) (texts : List String) :
    fill (fragments.map .given) texts = fragments := by
  induction fragments with
  | nil => rfl
  | cons f fragments ih => exact congrArg (f :: ·) ih

/-- Texts that are as many as the gaps of a frame stay in it, and others go on to the next. -/
theorem fill_append {frame frame' : List Part} {texts texts' : List String}
    (h : texts.length = gaps frame) :
    fill (frame ++ frame') (texts ++ texts') = fill frame texts ++ fill frame' texts' := by
  induction frame generalizing texts with
  | nil =>
    obtain rfl := List.eq_nil_of_length_eq_zero h
    rfl
  | cons part frame ih =>
    cases part with
    | given f => exact congrArg (f :: ·) (ih h)
    | gap =>
      cases texts with
      | nil => exact absurd h (Nat.succ_ne_zero _).symm
      | cons text texts => exact congrArg (hole text :: ·) (ih (Nat.succ.inj h))

/-- Fragments are a frame with texts in all of its gaps. -/
structure Framed (frame : List Part) (fragments : List Fragment) (texts : List String) : Prop where
  fragments_eq : fragments = fill frame texts
  length_eq : texts.length = gaps frame

theorem Framed.append {frame frame' : List Part} {a b : List Fragment} {texts texts' : List String}
    (ha : Framed frame a texts) (hb : Framed frame' b texts') :
    Framed (frame ++ frame') (a ++ b) (texts ++ texts') where
  fragments_eq := by rw [fill_append ha.length_eq, ← ha.fragments_eq, ← hb.fragments_eq]
  length_eq := by rw [List.length_append, gaps_append, ha.length_eq, hb.length_eq]

/-! ## Framable families -/

/-- One frame serves all fragments of a family. -/
def Framable {α : Type} (P : α → Prop) (f : α → List Fragment) (texts : α → List String) : Prop :=
  ∃ frame, ∀ a, P a → Framed frame (f a) (texts a)

section Families

variable {α β : Type} {P : α → Prop} {Q : β → Prop} {f g : α → List Fragment} {t u : α → List String}

theorem framable_const (P : α → Prop) (fragments : List Fragment) :
    Framable P (fun _ => fragments) fun _ => [] :=
  ⟨fragments.map .given, fun _ _ => ⟨(fill_given fragments []).symm, (gaps_given fragments).symm⟩⟩

theorem framable_hole (P : α → Prop) (text : α → String) :
    Framable P (fun a => [hole (text a)]) fun a => [text a] :=
  ⟨[.gap], fun _ _ => ⟨rfl, rfl⟩⟩

theorem Framable.append (hf : Framable P f t) (hg : Framable P g u) :
    Framable P (fun a => f a ++ g a) fun a => t a ++ u a := by
  obtain ⟨frame, hframe⟩ := hf
  obtain ⟨frame', hframe'⟩ := hg
  exact ⟨frame ++ frame', fun a ha => (hframe a ha).append (hframe' a ha)⟩

theorem Framable.between (hf : Framable P f t) (start rest : List Fragment) :
    Framable P (fun a => start ++ f a ++ rest) t := by
  obtain ⟨frame, hframe⟩ := ((framable_const P start).append hf).append (framable_const P rest)
  refine ⟨frame, fun a ha => ?_⟩
  have hframed : Framed frame (start ++ f a ++ rest) (t a ++ []) := hframe a ha
  rwa [List.append_nil] at hframed

theorem Framable.of_exists {f' : β → List Fragment} {t' : β → List String} (h : Framable Q f' t')
    (hex : ∀ a, P a → ∃ b, Q b ∧ f a = f' b ∧ t a = t' b) : Framable P f t := by
  obtain ⟨frame, hframe⟩ := h
  refine ⟨frame, fun a ha => ?_⟩
  obtain ⟨b, hb, hfragments, htexts⟩ := hex a ha
  rw [hfragments, htexts]
  exact hframe b hb

/-- Fragments of which only one varies, a hole with the data, are framable. -/
theorem framable_set {f : String → List Fragment} (n : ℕ) (hn : n < (f "").length)
    (h : ∀ s, f s = (f "").set n (hole s)) : Framable (fun _ => True) f fun s => [s] := by
  refine ((framable_hole (fun _ => True) id).between ((f "").take n) ((f "").drop (n + 1))).of_exists
    fun s _ => ⟨s, trivial, ?_, rfl⟩
  rw [h s, List.set_eq_take_append_cons_drop, if_pos hn, List.append_assoc]
  rfl

theorem framable_flatMap (rest : α → β) (l : List α)
    (h : ∀ a ∈ l, Framable (fun a' => rest a' = rest a) f t) :
    Framable (fun l' : List α => l'.map rest = l.map rest) (List.flatMap f) (List.flatMap t) := by
  induction l with
  | nil =>
    refine ⟨[], fun l' hl' => ?_⟩
    obtain rfl := List.map_eq_nil_iff.mp hl'
    exact ⟨rfl, rfl⟩
  | cons a l ih =>
    obtain ⟨frame, hframe⟩ := h a List.mem_cons_self
    obtain ⟨frame', hframe'⟩ := ih fun x hx => h x (List.mem_cons_of_mem a hx)
    refine ⟨frame ++ frame', fun l' hl' => ?_⟩
    obtain ⟨a', rest', rfl, ha', hrest'⟩ := List.map_eq_cons_iff.mp hl'
    exact (hframe a' ha').append (hframe' rest' hrest')

end Families

/-! ## Frames of documents -/

theorem framable_row (tag css : String) (rowHeight : Float) (columns : List TableColumn) (n : ℕ) :
    Framable (fun texts => texts.length = n) (row tag css rowHeight columns)
      (List.take columns.length) := by
  induction columns generalizing n with
  | nil => exact framable_const _ []
  | cons c columns ih =>
    cases n with
    | zero =>
      refine (framable_const (fun texts : List String => texts.length = 0) []).of_exists fun texts h => ?_
      obtain rfl := List.eq_nil_of_length_eq_zero h
      exact ⟨[], rfl, rfl, rfl⟩
    | succ n =>
      have hcell : Framable (fun _ : String × List String => True)
          (fun p => cell tag css (some c.align) rowHeight [hole p.1]) fun p => [p.1] :=
        (framable_hole _ Prod.fst).between _ _
      have hrest : Framable (fun p : String × List String => p.2.length = n)
          (fun p => row tag css rowHeight columns p.2) fun p => p.2.take columns.length :=
        (ih n).of_exists fun p hp => ⟨p.2, hp, rfl, rfl⟩
      have hcell' : Framable (fun p : String × List String => p.2.length = n)
          (fun p => cell tag css (some c.align) rowHeight [hole p.1]) fun p => [p.1] :=
        hcell.of_exists fun p _ => ⟨p, trivial, rfl, rfl⟩
      refine (hcell'.append hrest).of_exists fun texts h => ?_
      cases texts with
      | nil => exact absurd h (Nat.succ_ne_zero n).symm
      | cons text texts => exact ⟨(text, texts), Nat.succ.inj h, rfl, rfl⟩

theorem framable_table (t : TableBox) (fonts : List Font) :
    Framable (fun cells => cells.map List.length = t.cells.map List.length)
      (fun cells => table { t with cells := cells } fonts)
      (List.flatMap (List.take t.columns.length)) := by
  have hrows := framable_flatMap List.length t.cells fun texts _ =>
    (framable_row "td" (Css.ofStyle t.rowStyle fonts) t.rowHeight t.columns texts.length).between
      [fixed "      <tr>"] [fixed "</tr>\n"]
  obtain ⟨start, rest, hsplit⟩ : ∃ start rest, ∀ cells : List (List String),
      table { t with cells := cells } fonts = start ++ cells.flatMap (fun texts =>
        [fixed "      <tr>"] ++ row "td" (Css.ofStyle t.rowStyle fonts) t.rowHeight t.columns texts ++
          [fixed "</tr>\n"]) ++ rest := by
    refine ⟨?start, ?rest, fun cells => ?_⟩
    rotate_left 2
    · dsimp only [table]
      exact List.append_assoc _ _ _
  exact (hrows.between start rest).of_exists fun cells hcells => ⟨cells, hcells, hsplit cells, rfl⟩

/-- A table with other rows that is left with the same without its data. -/
theorem exists_of_blanked_table {t t' : TableBox}
    (h : (BoxContent.table t').blanked = (BoxContent.table t).blanked) :
    ∃ cells, t' = { t with cells := cells } ∧ cells.map List.length = t.cells.map List.length := by
  obtain ⟨columns, headerStyle, rowStyle, rowHeight, cells, padding⟩ := t
  obtain ⟨columns', headerStyle', rowStyle', rowHeight', cells', padding'⟩ := t'
  simp only [BoxContent.blanked, BoxContent.table.injEq, TableBox.mk.injEq] at h
  obtain ⟨rfl, rfl, rfl, rfl, hcells, rfl⟩ := h
  have hlengths := congrArg (List.map List.length) hcells
  simp only [List.map_map, Function.comp_def, List.length_map] at hlengths
  exact ⟨cells', rfl, hlengths⟩

theorem exists_of_blanked {b b' : Box} (h : b'.blanked = b.blanked) :
    ∃ content : BoxContent, b' = { b with content := content } ∧ content.blanked = b.content.blanked := by
  obtain ⟨id, kind, region, x, y, w, hh, style, zIndex, content⟩ := b
  obtain ⟨id', kind', region', x', y', w', hh', style', zIndex', content'⟩ := b'
  simp only [Box.blanked, Box.mk.injEq] at h
  obtain ⟨rfl, rfl, rfl, rfl, rfl, rfl, rfl, rfl, rfl, hcontent⟩ := h
  exact ⟨content', rfl, hcontent⟩

/-- The content of a box may be any that is left with the same without its data. -/
theorem framable_content (fonts : List Font) (b : Box) (content : BoxContent) :
    Framable (fun content' : BoxContent => content'.blanked = content.blanked)
      (fun content' => box fonts { b with content := content' }) BoxContent.dataTexts :=
  match content with
  | .text _ false =>
    have hset : Framable (fun _ => True) (fun s => box fonts { b with content := .text s false })
        fun s => [s] := framable_set 7 (by simp [box, openBox]) fun _ => rfl
    hset.of_exists fun content' hcontent => match content', hcontent with
      | .text s false, _ => ⟨s, trivial, rfl, rfl⟩
  | .text markup true =>
    have hconst := framable_const (fun _ : Unit => True) (box fonts { b with content := .text markup true })
    hconst.of_exists fun content' hcontent => match content', hcontent with
      | .text _ true, rfl => ⟨(), trivial, rfl, rfl⟩
  | .image _ fit =>
    have hset : Framable (fun _ => True) (fun s => box fonts { b with content := .image s fit })
        fun s => [s] := framable_set 3 (by simp [box]) fun _ => rfl
    hset.of_exists fun content' hcontent => match content', hcontent with
      | .image s _, rfl => ⟨s, trivial, rfl, rfl⟩
  | .code _ =>
    have hset : Framable (fun _ => True) (fun s => box fonts { b with content := .code s })
        fun s => [s] := framable_set 3 (by simp [box]) fun _ => rfl
    hset.of_exists fun content' hcontent => match content', hcontent with
      | .code s, _ => ⟨s, trivial, rfl, rfl⟩
  | .table t =>
    have htable := (framable_table t fonts).between (openBox "table" b ++ [fixed ";overflow:hidden;\">\n"])
      [fixed "</div>\n"]
    htable.of_exists fun content' hcontent => match content', hcontent with
      | .table t', h =>
        have ⟨cells, ht, hcells⟩ := exists_of_blanked_table h
        ⟨cells, hcells, by rw [ht]; rfl, by rw [ht]; rfl⟩
  | .blank =>
    have hconst := framable_const (fun _ : Unit => True) (box fonts { b with content := .blank })
    hconst.of_exists fun content' hcontent => match content', hcontent with
      | .blank, _ => ⟨(), trivial, rfl, rfl⟩

theorem framable_box (fonts : List Font) (b : Box) :
    Framable (fun b' => b'.blanked = b.blanked) (box fonts) Box.dataTexts := by
  refine (framable_content fonts b b.content).of_exists fun b' hb' => ?_
  obtain ⟨content, rfl, hcontent⟩ := exists_of_blanked hb'
  exact ⟨content, hcontent, rfl, rfl⟩

theorem number_of_blanked {p p' : PageLayout} (h : p'.blanked = p.blanked) : p'.number = p.number := by
  have hnumber := congrArg (fun p : PageLayout => p.number) h
  exact hnumber

theorem region_of_blanked {p p' : PageLayout} (h : p'.blanked = p.blanked) (r : Region) :
    (p'.region r).map Box.blanked = (p.region r).map Box.blanked := by
  cases r with
  | header => exact congrArg (fun p : PageLayout => p.header) h
  | body => exact congrArg (fun p : PageLayout => p.body) h
  | footer => exact congrArg (fun p : PageLayout => p.footer) h

theorem framable_region (fonts : List Font) (p : PageLayout) (r : Region) :
    Framable (fun p' => p'.blanked = p.blanked) (fun p' => region fonts p' r)
      fun p' => (p'.region r).flatMap Box.dataTexts := by
  have hboxes := framable_flatMap Box.blanked (p.region r) fun b _ =>
    (framable_box fonts b).between [fixed "        "] [newLine]
  exact (hboxes.between _ _).of_exists fun p' hp' => ⟨p'.region r, region_of_blanked hp' r, rfl, rfl⟩

theorem framable_page (fonts : List Font) (p : PageLayout) :
    Framable (fun p' => p'.blanked = p.blanked) (page fonts) PageLayout.dataTexts := by
  have hregions := (framable_region fonts p .header).append
    ((framable_region fonts p .body).append (framable_region fonts p .footer))
  refine (hregions.between [fixed "    <div class=\"page\" data-page=\"", hole (toString p.number),
    fixed "\">\n"] [fixed "    </div>\n"]).of_exists fun p' hp' => ⟨p', hp', ?_, ?_⟩
  · simp only [page, number_of_blanked hp', Region.all, List.flatMap_cons, List.flatMap_nil,
      List.append_nil]
  · simp only [PageLayout.dataTexts, PageLayout.boxes, List.flatMap_append, List.append_assoc]
    rfl

/-- The data of a document are in gaps. -/
theorem framable_ofLayout (d : DocumentLayout) :
    Framable (fun d' => d'.blanked = d.blanked) ofLayout DocumentLayout.dataTexts := by
  obtain ⟨spec, fonts, pageCount, pages⟩ := d
  have hpages := framable_flatMap PageLayout.blanked pages fun p _ => framable_page fonts p
  obtain ⟨start, rest, hsplit⟩ : ∃ start rest, ∀ pages : List PageLayout,
      ofLayout ⟨spec, fonts, pageCount, pages⟩ = start ++ pages.flatMap (page fonts) ++ rest := by
    refine ⟨?start, ?rest, fun pages => ?_⟩
    rotate_left 2
    · dsimp only [ofLayout]
      exact rfl
  refine (hpages.between start rest).of_exists fun d' hd' => ?_
  obtain ⟨spec', fonts', pageCount', pages'⟩ := d'
  rw [DocumentLayout.blanked, DocumentLayout.blanked, DocumentLayout.mk.injEq] at hd'
  obtain ⟨rfl, rfl, rfl, hpages'⟩ := hd'
  exact ⟨pages', hpages', hsplit pages', rfl⟩

theorem hole_mem_fill {frame : List Part} {texts : List String} (h : texts.length = gaps frame) {s : String}
    (hs : s ∈ texts) : hole s ∈ fill frame texts := by
  induction frame generalizing texts with
  | nil =>
    obtain rfl := List.eq_nil_of_length_eq_zero h
    cases hs
  | cons part frame ih =>
    cases part with
    | given f => exact List.mem_cons_of_mem _ (ih h hs)
    | gap =>
      cases texts with
      | nil => cases hs
      | cons text texts =>
        rcases List.mem_cons.mp hs with rfl | hs
        · exact List.mem_cons_self
        · exact List.mem_cons_of_mem _ (ih (Nat.succ.inj h) hs)

/-- The data of a document are in its markup. -/
theorem escape_infix_markup {d : DocumentLayout} {s : String} (hs : s ∈ d.dataTexts) :
    escape s.toList <:+: d.markup.toList := by
  obtain ⟨frame, hframe⟩ := framable_ofLayout d
  have hframed := hframe d rfl
  have hhole : hole s ∈ ofLayout d := hframed.fragments_eq ▸ hole_mem_fill hframed.length_eq hs
  obtain ⟨before, after, hsplit⟩ := List.append_of_mem hhole
  refine ⟨chars before, chars after, ?_⟩
  rw [DocumentLayout.markup, text, String.toList_ofList, hsplit, chars_append, List.append_assoc]
  rfl

end Markup

end Pagewright
