import Pagewright.Proofs.Layout.Alike
import Pagewright.Proofs.Template.Discovery

/-!
# What a document depends on

A template without tables and conditions (`Template.IsPlain`) reads data in its placeholders only, and discovery
lists the paths of these. Its document is the same for any two records that have the same values there
(`Template.assemble_of_discovered`), although the texts decide how many pages there are.

A placeholder is filled once. The text of the value is put in as it is, and placeholders that are written in it
are no placeholders of the template: they are not filled in turn (`Binding.substitute_eq_of_fill`). Only escapes of
line breaks and tabs are decoded afterwards, in the values as in the text around them.
-/

namespace Pagewright

/-! ## Placeholders -/

/-- A piece of a text with the texts of the values in place of the placeholders. -/
def Piece.filled (shown : String → String) : Piece → List Char
  | .char c => [c]
  | .binding path => (shown path).toList

namespace Binding

variable {text : String} {data data' : Value} {page : PageContext}

/-- The text of a value takes the place of its placeholder as it is. -/
theorem substitute_eq_of_fill {shown : String → String}
    (h : ∀ p ∈ pathsOf text, fill data page p = .ok (shown p)) :
    substitute text data page =
      .ok (String.ofList (decodeEscapes ((Piece.ofText text).flatMap (Piece.filled shown)))) := by
  have hpieces : (Piece.ofText text).mapM (fillPiece data page) =
      .ok ((Piece.ofText text).map (Piece.filled shown)) := by
    refine Outcome.mapM_eq_map fun piece hpiece => ?_
    cases piece with
    | char c => rfl
    | binding path =>
      have hpath : path ∈ pathsOf text := List.mem_filterMap.mpr ⟨_, hpiece, rfl⟩
      rw [fillPiece, h path hpath]
      rfl
  rw [substitute, hpieces, List.flatMap_def]
  rfl

theorem fill_congr {p : String} (h : Template.isPageFigure p = false → data.find p = data'.find p) :
    fill data page p = fill data' page p := by
  unfold fill
  split
  · rfl
  split
  · rfl
  · rename_i hnumber hcount
    rw [h (by simp [Template.isPageFigure, hnumber, hcount])]

theorem substitute_congr
    (h : ∀ p ∈ pathsOf text, Template.isPageFigure p = false → data.find p = data'.find p) :
    substitute text data page = substitute text data' page := by
  have hpieces : (Piece.ofText text).mapM (fillPiece data page) =
      (Piece.ofText text).mapM (fillPiece data' page) := by
    refine Outcome.Rel.mapM_eq (List.forall₂_same.mpr fun piece hpiece => ?_) fun _ _ hsame => hsame
    cases piece with
    | char c => rfl
    | binding path =>
      have hpath : path ∈ pathsOf text := List.mem_filterMap.mpr ⟨_, hpiece, rfl⟩
      rw [fillPiece, fillPiece, fill_congr (h path hpath)]
  rw [substitute, hpieces]
  rfl

end Binding

/-! ## Conditions that are not given -/

namespace Condition

variable {first second condition : Value}

theorem shows_of_not_given (h : condition.isGiven = false) (data : Value) : shows condition data = .ok true := by
  cases condition with
  | text s =>
    obtain rfl : s = "" := by simpa [Value.isGiven] using h
    rfl
  | _ => simp [shows, h]

theorem alternativesOf_of_not_given (h : condition.isGiven = false) : alternativesOf condition = .ok [] := by
  cases condition with
  | text s =>
    obtain rfl : s = "" := by simpa [Value.isGiven] using h
    rfl
  | _ => simp [alternativesOf, h]

theorem conjoin_of_not_given (hfirst : first.isGiven = false) (hsecond : second.isGiven = false) :
    conjoin first second = .ok "" := by
  rw [conjoin, alternativesOf_of_not_given hfirst, alternativesOf_of_not_given hsecond]
  rfl

end Condition

namespace Template

open Outcome Layout

variable {t : Template} {data data' : Value} {e : Element} {es : List Element} {ds : List String}

/-- A template without tables and conditions, whose references can be looked up. -/
@[mk_iff]
structure IsPlain (t : Template) : Prop where
  refs : ∀ e ∈ t.elements ++ t.partials.flatMap (·.2), ∀ ref ∈ e.content.inclusion?, ref.isContainer = false
  conditions : ∀ e ∈ t.elements ++ t.partials.flatMap (·.2), e.visibleIf.isGiven = false
  tables : ∀ e ∈ t.elements ++ t.partials.flatMap (·.2), e.content.kind ≠ "table"

instance (t : Template) : Decidable t.IsPlain := decidable_of_iff _ (isPlain_iff t).symm

theorem IsPlain.isSpelled (h : t.IsPlain) : t.IsSpelled where
  refs := h.refs
  conditions e he hgiven := by simp [h.conditions e he] at hgiven

/-! ## The elements of the document -/

/-- The elements of the document of a plain template have no conditions and are no tables either. -/
theorem IsPlain.of_mem_expand (h : t.IsPlain) (hes : t.expand = .ok es) (he : e ∈ es) :
    e.visibleIf.isGiven = false ∧ e.content.kind ≠ "table" := by
  rcases cases_of_mem_expand hes he with ⟨hmem, -⟩ | ⟨i, hi, name, children, -, hchildren, child, hchild, hclone⟩
  · have hall := List.mem_append_left (t.partials.flatMap (·.2)) hmem
    exact ⟨h.conditions e hall, h.tables e hall⟩
  · have hall := mem_elements_of_lookup hchildren hchild
    have hnone := Condition.conjoin_of_not_given (h.conditions i (List.mem_append_left _ hi)) (h.conditions child hall)
    rw [cloneChild, hnone] at hclone
    rw [← Except.ok.inj hclone]
    exact ⟨rfl, h.tables child hall⟩

theorem textPath_mem_discover (hes : t.expand = .ok es) (hds : t.discover = .ok ds) (he : e ∈ es) {p : String}
    (hp : p ∈ textPathsOf e) (hfigure : isPageFigure p = false) (hne : p ≠ "") : p ∈ ds := by
  obtain ⟨read, hread⟩ := exists_allElements hds
  obtain ⟨o, hcontent, hmem, -⟩ := exists_origin hes hread he
  rw [textPathsOf, hcontent] at hp
  have hreplaced : t.isReplaced o = false := by
    unfold isReplaced
    cases hinclusion : o.content.inclusion? with
    | none => rfl
    | some ref =>
      -- An inclusion has no placeholders.
      cases hkind : o.content <;> simp_all [Content.bindingFields, Content.inclusion?]
  exact (mem_discover_iff hread hds).mpr ⟨hfigure, hne, o, hmem hreplaced, .inl hp⟩

/-- Records that agree at the paths that are discovered fill the elements of the document alike. -/
theorem alike_of_discovered (h : t.IsPlain) (hes : t.expand = .ok es) (hds : t.discover = .ok ds)
    (hdata : ∀ p ∈ ds, data.find p = data'.find p) (evaluate : Bool) (he : e ∈ es) :
    Alike data data' evaluate evaluate e e where
  same := ⟨e.visibleIf, rfl⟩
  shown := by
    cases evaluate with
    | false => rfl
    | true =>
      have hnone := (h.of_mem_expand hes he).1
      exact (Condition.shows_of_not_given hnone data).trans (Condition.shows_of_not_given hnone data').symm
  texts v hv page := by
    cases v with
    | text s =>
      refine Binding.substitute_congr fun p hp hfigure => ?_
      by_cases hne : p = ""
      · subst hne
        rfl
      · exact hdata p (textPath_mem_discover hes hds he (List.mem_flatMap.mpr ⟨_, hv, hp⟩) hfigure hne)
    | _ => rfl
  rows table htable := absurd (htable ▸ rfl) (h.of_mem_expand hes he).2

/-- A template without tables and conditions is discovered, and its document depends on the values at the
discovered paths alone: records that agree there are laid out alike, or fail alike. In a text the values take the
places of their placeholders; what is written in them is not filled in turn. -/
theorem assemble_of_discovered (h : t.IsPlain) : ∃ ds, t.discover = .ok ds ∧
    (∀ data data' evaluate pages, (∀ p ∈ ds, data.find p = data'.find p) →
      (assemble t data evaluate pages).outcome = (assemble t data' evaluate pages).outcome) ∧
    ∀ text data page shown, (∀ p ∈ Binding.pathsOf text, Binding.fill data page p = .ok (shown p)) →
      Binding.substitute text data page =
        .ok (String.ofList (Binding.decodeEscapes ((Piece.ofText text).flatMap (Piece.filled shown)))) := by
  obtain ⟨ds, hds⟩ := returns_discover h.isSpelled
  refine ⟨ds, hds, fun data data' evaluate pages hdata => ?_, fun text data page shown hshown =>
    Binding.substitute_eq_of_fill hshown⟩
  have hexpand : Outcome.Rel (List.Forall₂ (Alike data data' evaluate evaluate)) t.expand
      { t with elements := t.elements, partials := t.partials }.expand := by
    refine (Rel.refl t.expand).with_eq.imp fun es es' hes => ?_
    obtain ⟨rfl, hes, -⟩ := hes
    exact List.forall₂_same.mpr fun e he => alike_of_discovered h hes hds hdata evaluate he
  exact assemble_of_alike hexpand pages

/-- A flowing text that begins a postcard. -/
def salutation : Element :=
  ⟨"salutation", .null, 0, 0, 200, 50, none, .null, .null, .null, none, none,
    .flowText (.text "Dear {{ name }}") 1 none⟩

/-- The line at the foot of a postcard. -/
def postcardFoot : Element :=
  ⟨"line", .null, 0, 80, 200, 20, none, .null, .null, .null, none, none,
    .text (.text "{{ sender }}, page {{ page.number }}") false⟩

/-- The place of the foot in a postcard. -/
def includedFoot : Element := cornerElement "foot" .null (.inclusion (.text "foot"))

/-- A postcard with a flowing text, and a line from a partial at its foot. -/
def postcard : Template where
  page := ⟨200, 100, ⟨0, 0, 0, 0⟩, 0, 0⟩
  id := "postcard"
  name := ""
  version := .null
  unit := .null
  fonts := []
  styles := []
  contract := []
  elements := [salutation, includedFoot]
  partials := [("foot", [postcardFoot])]
  settings := []
  pageCount := none

/-- A sender, a name that is written like a placeholder, and what stands at the path in it. -/
def postcardData (secret : String) : Value :=
  .object [("name", .text "{{ secret }}"), ("sender", .text "Ada"), ("secret", .text secret)]

theorem allElements_postcard : postcard.allElements = .ok [salutation, postcardFoot] := by
  have hinside : postcard.readElements 0 ["foot"] [postcardFoot] = .ok [postcardFoot] := by
    rw [readElements_cons, readElements]
    rfl
  have hfoot : postcard.readElement 1 [] includedFoot = .ok [postcardFoot] :=
    (readElement_of_inclusion rfl rfl rfl).trans hinside
  show postcard.readElements 1 [] [salutation, includedFoot] = _
  rw [readElements_cons, readElements_cons, readElements, hfoot]
  rfl

theorem discover_postcard : postcard.discover = .ok ["name", "sender"] := by
  unfold discover textPaths
  rw [allElements_postcard]
  decide +kernel

/-- The name on a postcard is written like a placeholder. It is shown as it is written, whatever stands at the path
in it. -/
theorem assemble_of_discovered_postcard : postcard.IsPlain ∧ ∃ ds d, postcard.discover = .ok ds ∧
    "secret" ∉ ds ∧ (∀ p ∈ ds, (postcardData "one").find p = (postcardData "two").find p) ∧
    (assemble postcard (postcardData "one") true none).outcome = .ok d ∧
    (assemble postcard (postcardData "two") true none).outcome = .ok d ∧
    d.pages.map (fun page => page.body.filterMap Box.text?) = [["Dear {{ secret }}", "Ada, page 1"]] := by
  have hplain : postcard.IsPlain := by decide
  have hcycle : postcard.findCycle = .ok none := findCycle_of_flat (by decide)
  have hpostcard : ∃ d, (assemble postcard (postcardData "one") true none).outcome = .ok d ∧
      d.pages.map (fun page => page.body.filterMap Box.text?) = [["Dear {{ secret }}", "Ada, page 1"]] := by
    unfold assemble expandLogged
    rw [hcycle]
    decide +kernel
  obtain ⟨d, hd, htexts⟩ := hpostcard
  obtain ⟨ds, hds, hsame, -⟩ := assemble_of_discovered hplain
  obtain rfl := Except.ok.inj (discover_postcard.symm.trans hds)
  have hdata : ∀ p ∈ ["name", "sender"], (postcardData "one").find p = (postcardData "two").find p := by
    simp only [List.forall_mem_cons]
    exact ⟨rfl, rfl, List.forall_mem_nil _⟩
  exact ⟨hplain, _, d, hds, by decide, hdata, hd, (hsame _ _ true none hdata).symm.trans hd, htexts⟩

end Template

end Pagewright
