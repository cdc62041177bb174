import Pagewright.Proofs.Contract.Nesting
import Pagewright.Proofs.Contract.Returns
import Pagewright.Proofs.Layout.Complete
import Pagewright.Proofs.Rendering.Gate
import Pagewright.Proofs.Rendering.Modes
import Pagewright.Proofs.Template.Discovery

/-!
# Previews of valid templates

What a preview of a valid template still depends on. Validation looks at names and references, and leaves
open what conditions, paths, sizes and formats are. Where the paths are readable, the sizes suffice and the
columns can format what they meet, the conditions decide: the preview comes about just when each condition
that is met is a text or not given (`Template.exists_preview_iff`). The condition of an inclusion is met when
it is joined with those of the elements it stands for.
-/

namespace Pagewright

namespace Template

open Outcome

variable {t : Template} {e child clone : Element} {elements : List Element} {data : Value}

/-! ## Inclusions -/

/-- The conditions that are met where an element stands: its own, and for an inclusion its own and those of
the elements in its place, if there are any. -/
def conditionsOf (t : Template) (e : Element) : List Value :=
  match e.content.inclusion? with
  | none => [e.visibleIf]
  | some ref =>
    match ref.text?.bind fun s => t.partials.lookup s with
    | some (child :: rest) => e.visibleIf :: child.visibleIf :: rest.map (·.visibleIf)
    | _ => []

theorem inclusion?_eq_none (h : e.isInclusion = false) : e.content.inclusion? = none :=
  Option.isNone_iff_eq_none.mp (Option.isSome_eq_false_iff.mp h)

theorem conditionsOf_of_not_inclusion (h : e.isInclusion = false) : t.conditionsOf e = [e.visibleIf] := by
  rw [conditionsOf, inclusion?_eq_none h]

theorem expandElement_of_not_inclusion (h : e.isInclusion = false) : t.expandElement e = .ok [e] := by
  rw [expandElement, inclusion?_eq_none h]

/-- An inclusion of a checked template is replaced just when the conditions met there are spelled. -/
theorem returns_expandElement_iff (he : e.IsChecked) (hinclusion : e.isInclusion = true) :
    Returns (t.expandElement e) ↔ ∀ c ∈ t.conditionsOf e, Condition.IsSpelled c := by
  obtain ⟨ref, href⟩ := Option.isSome_iff_exists.mp hinclusion
  obtain ⟨s, rfl⟩ := he.ref ref href
  unfold expandElement conditionsOf
  rw [href]
  simp only [partial?, ok_bind, Value.text?, Option.bind_some]
  cases t.partials.lookup s with
  | none => simp
  | some children =>
    simp only [returns_mapM_iff, returns_cloneChild_iff]
    cases children with
    | nil => simp
    | cons first rest =>
      simp only [List.forall_mem_cons, List.forall_mem_map]
      constructor
      · rintro ⟨⟨hown, hfirst⟩, hrest⟩
        exact ⟨hown, hfirst, fun child hchild => (hrest child hchild).2⟩
      · rintro ⟨hown, hfirst, hrest⟩
        exact ⟨⟨hown, hfirst⟩, fun child hchild => ⟨hown, hrest child hchild⟩⟩

/-- What stands in the place of an element: itself, or copies of the elements of a partial. -/
theorem cases_of_expandElement (he : e.IsChecked) (h : t.expandElement e = .ok elements)
    (hmem : clone ∈ elements) : (e.isInclusion = false ∧ clone = e) ∨
      ∃ p ∈ t.partials, ∃ child ∈ p.2, cloneChild e child = .ok clone := by
  cases hinclusion : e.isInclusion with
  | false =>
    rw [expandElement_of_not_inclusion hinclusion] at h
    rw [← Except.ok.inj h] at hmem
    exact .inl ⟨rfl, List.mem_singleton.mp hmem⟩
  | true =>
    obtain ⟨ref, href⟩ := Option.isSome_iff_exists.mp hinclusion
    obtain ⟨s, rfl⟩ := he.ref ref href
    simp only [expandElement, href, partial?, ok_bind] at h
    cases hlookup : t.partials.lookup s with
    | none =>
      rw [hlookup] at h
      rw [← Except.ok.inj h] at hmem
      cases hmem
    | some children =>
      rw [hlookup] at h
      obtain ⟨child, hchild, hclone⟩ := exists_of_mem_of_mapM h hmem
      exact .inr ⟨(s, children), mem_of_lookup hlookup, child, hchild, hclone⟩

/-- A copy is its original with another name, place, region and condition. -/
theorem cloneChild_eq_ok (h : cloneChild e child = .ok clone) :
    clone.content = child.content ∧ clone.stylePreset = child.stylePreset ∧
      clone.repeats = child.repeats ∧ clone.region = child.region.orElse e.region ∧
      Condition.IsSpelled clone.visibleIf := by
  obtain ⟨condition, -, h⟩ := Outcome.bind_eq_ok.mp h
  obtain rfl := Except.ok.inj h
  exact ⟨rfl, rfl, rfl, rfl, Condition.isSpelled_orElse_text condition⟩

theorem isChecked_of_cloneChild (he : e.IsChecked) (hchild : child.IsChecked)
    (h : cloneChild e child = .ok clone) : clone.IsChecked := by
  obtain ⟨hcontent, -, hrepeats, hregion, -⟩ := cloneChild_eq_ok h
  refine ⟨fun ref href => hchild.ref ref (hcontent ▸ href), hrepeats ▸ hchild.repeats, ?_⟩
  have hparent := he.region
  have hown := hchild.region
  unfold Layout.regionOf? Element.effectiveRegion at hparent hown ⊢
  rw [hregion]
  cases hgiven : child.region.isGiven with
  | true =>
    rw [show child.region.orElse e.region = child.region by simp [Value.orElse, hgiven]]
    exact hown
  | false =>
    rw [show child.region.orElse e.region = e.region by simp [Value.orElse, hgiven]]
    exact hparent

theorem isReadable_of_cloneChild (hchild : child.IsReadable) (h : cloneChild e child = .ok clone) :
    clone.IsReadable := by
  obtain ⟨hcontent, hpreset, -, -, -⟩ := cloneChild_eq_ok h
  refine ⟨hpreset ▸ hchild.preset, ?_, fun table htable => hchild.table table (hcontent ▸ htable)⟩
  unfold textPathsOf
  rw [hcontent]
  exact hchild.texts

/-! ## What validation leaves open -/

/-- A template whose paths are readable and whose style presets can be looked up. -/
@[mk_iff]
structure IsReadable (t : Template) : Prop where
  contract : ∀ f ∈ t.contract, f.IsReadable
  elements : ∀ e ∈ t.elements, e.IsReadable
  partials : ∀ p ∈ t.partials, ∀ e ∈ p.2, e.IsReadable

instance (t : Template) : Decidable t.IsReadable :=
  decidable_of_iff _ (isReadable_iff t).symm

/-- A template whose elements have room on the pages before there are any data. -/
def HasRoom (t : Template) : Prop :=
  ∀ parts, t.elements.mapM t.expandElement = .ok parts → ∀ e ∈ parts.flatten, Layout.HasRoom t parts.flatten e

instance (t : Template) : Decidable t.HasRoom :=
  inferInstanceAs (Decidable (∀ parts, t.elements.mapM t.expandElement = .ok parts → ∀ e ∈ parts.flatten, _))

/-- A template whose columns can format what they meet in the data of a payload. -/
def FormatsCells (t : Template) (payload : Value) : Prop :=
  ∀ evaluation, t.evaluate payload = .ok evaluation → ∀ e ∈ t.elements ++ t.partials.flatMap (·.2),
    ∀ table, e.content = .table table → table.FormatsCells t.settings evaluation.data

instance (t : Template) (payload : Value) : Decidable (t.FormatsCells payload) :=
  inferInstanceAs (Decidable (∀ evaluation, t.evaluate payload = .ok evaluation →
    ∀ e ∈ t.elements ++ t.partials.flatMap (·.2), ∀ table, e.content = .table table → _))

theorem expand_eq (h : t.IsChecked) : t.expand = List.flatten <$> t.elements.mapM t.expandElement :=
  expand_eq_of_findCycle h.findCycle_eq

theorem isFit_of_expand (hchecked : t.IsChecked) (hreadable : t.IsReadable) (hroom : t.HasRoom)
    (hformats : ∀ e ∈ t.elements ++ t.partials.flatMap (·.2), ∀ table, e.content = .table table →
      table.FormatsCells t.settings data)
    (hspelled : ∀ e ∈ t.elements, ∀ c ∈ t.conditionsOf e, Condition.IsSpelled c)
    (h : t.expand = .ok elements) : ∀ e ∈ elements, Layout.IsFit t data elements e := by
  rw [expand_eq hchecked, map_eq_ok] at h
  obtain ⟨parts, hparts, rfl⟩ := h
  intro clone hclone
  have hplace := hroom parts hparts clone hclone
  obtain ⟨part, hpart, hmem⟩ := List.mem_flatten.mp hclone
  obtain ⟨e, he, hexpand⟩ := exists_of_mem_of_mapM hparts hpart
  rcases cases_of_expandElement (hchecked.elements e he) hexpand hmem with
    ⟨hinclusion, rfl⟩ | ⟨p, hp, child, hchild, hcopy⟩
  · refine ⟨hchecked.elements clone he, hreadable.elements clone he, hplace,
      hformats clone (List.mem_append_left _ he), hspelled clone he _ ?_⟩
    rw [conditionsOf_of_not_inclusion hinclusion]
    exact List.mem_singleton_self _
  · obtain ⟨hcontent, -, -, -, hcondition⟩ := cloneChild_eq_ok hcopy
    exact ⟨isChecked_of_cloneChild (hchecked.elements e he) (hchecked.partials p hp child hchild) hcopy,
      isReadable_of_cloneChild (hreadable.partials p hp child hchild) hcopy, hplace,
      fun table htable => hformats child
        (List.mem_append_right _ (List.mem_flatMap.mpr ⟨p, hp, hchild⟩)) table (hcontent ▸ htable),
      hcondition⟩

theorem returns_missingBindings (hchecked : t.IsChecked) (hreadable : t.IsReadable) (data : Value) :
    Returns (t.missingBindings data) := by
  obtain ⟨read, hread, hall⟩ := exists_readElements (P := fun e => e.IsChecked ∧ e.IsReadable)
    (fun e he ref href => (he.1.ref ref href).elim fun s hs => hs ▸ rfl) (fun p hp e he => ⟨hchecked.partials p hp e he, hreadable.partials p hp e he⟩)
    t.partials.length [] t.elements fun e he => ⟨hchecked.elements e he, hreadable.elements e he⟩
  unfold missingBindings textPaths allElements
  rw [hread, ok_bind, pure_eq_ok, ok_bind]
  refine (returns_filterM_iff.mpr fun path hpath => ?_).bind fun _ _ => returns_pure _
  obtain ⟨e, he, hmem⟩ := List.mem_flatMap.mp (List.mem_filter.mp hpath).1
  exact (Value.returns_find ((hall e he).2.texts path hmem) data).bind fun _ _ => returns_pure _

/-! ## Previews -/

theorem isSpelled_of_layout {d : DocumentLayout} (hchecked : t.IsChecked)
    (h : (Layout.assemble t data true none).outcome = .ok d) :
    ∀ e ∈ t.elements, ∀ c ∈ t.conditionsOf e, Condition.IsSpelled c := by
  intro e he
  obtain ⟨a⟩ := Layout.assembly_of_assemble h
  have hexpand := a.expand_eq
  rw [expand_eq hchecked, map_eq_ok] at hexpand
  obtain ⟨parts, hparts, hflat⟩ := hexpand
  obtain ⟨i, hi⟩ := List.getElem?_of_mem he
  obtain ⟨part, hpart, hown⟩ := getElem?_of_mapM hparts hi
  cases hinclusion : e.isInclusion with
  | true => exact (returns_expandElement_iff (hchecked.elements e he) hinclusion).mp ⟨part, hown⟩
  | false =>
    rw [expandElement_of_not_inclusion hinclusion] at hown
    have hmem : e ∈ a.elements := by
      rw [← hflat]
      exact List.mem_flatten.mpr
        ⟨part, List.mem_of_getElem? hpart, Except.ok.inj hown ▸ List.mem_singleton_self e⟩
    have hcondition := Layout.isSpelled_of_assemble h a.expand_eq hmem (hchecked.elements e he).region
      hinclusion
    rw [conditionsOf_of_not_inclusion hinclusion]
    exact List.forall_mem_singleton.mpr hcondition

theorem isDocument_defaultValue {v : Value} (hv : Json.isDocument v = true) :
    ∀ f ∈ Reading.contract v, Json.isDocument f.defaultValue = true := by
  intro f hf
  cases v with
  | object raw =>
    unfold Reading.contract at hf
    have hfields := Value.isDocument_get hv "fields"
    cases hlist : Entries.get raw "fields" with
    | list items =>
      rw [hlist] at hfields
      simp only [hlist, List.mem_filterMap] at hf
      obtain ⟨item, hitem, hread⟩ := hf
      have hdocument := (Value.areDocuments_iff items).mp hfields item hitem
      cases item with
      | object f' =>
        dsimp only at hread
        split at hread
        · rw [← Option.some.inj hread]
          exact Value.isDocument_get hdocument "defaultValue"
        · cases hread
      | _ => cases hread
    | _ => simp [hlist] at hf
  | _ => simp [Reading.contract] at hf

/-- The inclusions of a checked template are replaced if the conditions that are met are spelled. -/
theorem returns_expand (hchecked : t.IsChecked)
    (hspelled : ∀ e ∈ t.elements, ∀ c ∈ t.conditionsOf e, Condition.IsSpelled c) : Returns t.expand := by
  have hparts : Returns (t.elements.mapM t.expandElement) := by
    refine returns_mapM_iff.mpr fun e he => ?_
    cases hinclusion : e.isInclusion with
    | true => exact (returns_expandElement_iff (hchecked.elements e he) hinclusion).mpr (hspelled e he)
    | false => exact ⟨[e], expandElement_of_not_inclusion hinclusion⟩
  obtain ⟨parts, hparts⟩ := hparts
  rw [expand_eq hchecked]
  exact ⟨parts.flatten, map_eq_ok.mpr ⟨parts, hparts, rfl⟩⟩

theorem returns_layOut {evaluation : Contract.Evaluation} (hchecked : t.IsChecked) (hreadable : t.IsReadable)
    (hlayout : Returns (Layout.assemble t evaluation.data true none).outcome) :
    Returns (t.layOut evaluation true none).outcome := by
  have hmissing : Returns (t.missingBindingsLogged evaluation.data).outcome := by
    unfold missingBindingsLogged
    rw [Logged.outcome_bind, Logged.outcome_lift]
    refine (returns_missingBindings hchecked hreadable _).bind fun missing _ => ?_
    split <;> exact returns_ok _
  unfold layOut
  rw [Logged.outcome_bind]
  refine hlayout.bind fun d _ => ?_
  rw [Logged.outcome_bind, Rendering.outcome_sayLayout, ok_bind, Logged.outcome_bind]
  exact hmissing.bind fun _ _ => returns_ok _

/-- The data of a readable contract is a document, if the payload is one. -/
theorem exists_evaluation {v : Value} {payload : Entries} (hchecked : t.IsChecked) (hreadable : t.IsReadable)
    (hv : Json.isDocument v = true) (ht : Template.ofValue v = .ok t)
    (hpayload : Json.isDocument (.object payload) = true) (hundisturbed : t.IsUndisturbed payload) :
    ∃ evaluation, t.evaluate (.object payload) = .ok evaluation ∧
      Json.isDocument evaluation.data = true := by
  cases v with
  | object raw =>
    obtain ⟨-, -, hcontract⟩ := Validation.ofValue_eq_ok ht
    have hdefaults := isDocument_defaultValue (Value.isDocument_get hv "dataContract")
    rw [← hcontract] at hdefaults
    have hplain := evaluate_eq_plain t (.object payload) hundisturbed
    obtain ⟨evaluation, hevaluation⟩ :=
      Contract.Plain.returns_evaluate hreadable.contract hchecked.transforms t.settings payload
    exact ⟨evaluation, hplain.trans hevaluation,
      Contract.Plain.isDocument_of_evaluate hpayload hdefaults hevaluation⟩
  | _ => cases ht

theorem isSpelled_of_preview {payload : Value} {r : Rendering} (hchecked : t.IsChecked)
    (h : (t.preview payload true none).outcome = .ok r) :
    ∀ e ∈ t.elements, ∀ c ∈ t.conditionsOf e, Condition.IsSpelled c := by
  obtain ⟨-, hlayout⟩ := preview_eq_ok.mp h
  unfold layOut at hlayout
  rw [Logged.outcome_bind] at hlayout
  obtain ⟨d, hd⟩ := Returns.of_bind ⟨r, hlayout⟩
  exact isSpelled_of_layout hchecked hd

/-- Where nothing but the conditions can stop a preview and they are spelled, it comes about. -/
theorem returns_preview {v : Value} {payload : Entries} (hchecked : t.IsChecked) (ht : Template.ofValue v = .ok t)
    (hv : Json.isDocument v = true) (hpayload : Json.isDocument (.object payload) = true)
    (hreadable : t.IsReadable) (hroom : t.HasRoom) (hundisturbed : t.IsUndisturbed payload)
    (hformats : t.FormatsCells (.object payload))
    (hspelled : ∀ e ∈ t.elements, ∀ c ∈ t.conditionsOf e, Condition.IsSpelled c) :
    Returns (t.preview (.object payload) true none).outcome := by
  obtain ⟨evaluation, hevaluation, hdata⟩ :=
    exists_evaluation hchecked hreadable hv ht hpayload hundisturbed
  obtain ⟨elements, hexpand⟩ := returns_expand hchecked hspelled
  have hfit := isFit_of_expand hchecked hreadable hroom (hformats evaluation hevaluation) hspelled hexpand
  have hlayout := Layout.returns_assemble hexpand hfit hdata
  unfold preview
  rw [Logged.outcome_bind, outcome_evaluateLogged, hevaluation, ok_bind]
  exact returns_layOut hchecked hreadable hlayout

/-- A document without issues is read as a template. Let its paths be readable, let its elements have room
on the pages, and let the contract write nowhere inside what it wrote before and the columns format what
they meet in the data of a payload. Then the preview of the payload comes about just when every condition
that is met is a text or not given. -/
theorem exists_preview_iff {v : Value} {payload : Entries} (hvalid : Validation.issues v = .ok [])
    (hv : Json.isDocument v = true) (hpayload : Json.isDocument (.object payload) = true) :
    ∃ t, Template.ofValue v = .ok t ∧
      (t.IsReadable → t.HasRoom → t.IsUndisturbed payload → t.FormatsCells (.object payload) →
        ((∃ r, (t.preview (.object payload) true none).outcome = .ok r) ↔
          ∀ e ∈ t.elements, ∀ c ∈ t.conditionsOf e, Condition.IsSpelled c)) := by
  obtain ⟨t, ht, hchecked⟩ := Validation.exists_checked hvalid
  refine ⟨t, ht, fun hreadable hroom hundisturbed hformats => ⟨?_, fun hspelled => ?_⟩⟩
  · rintro ⟨r, hr⟩
    exact isSpelled_of_preview hchecked hr
  · exact returns_preview hchecked ht hv hpayload hreadable hroom hundisturbed hformats hspelled

/-- A letter with a table of the items and a seal, whose greeting is shown under a condition. -/
def letter (condition : Value) : Entries :=
  [("page", .object [("width", .int 200), ("height", .int 100)]),
    ("dataContract", .object [("fields", .list [.object [("path", .text "buyer"),
      ("externalPath", .text "customer.name"), ("transform", .text "uppercase")]])]),
    ("partials", .object [("seal", .object [("elements", .list [
      .object [("id", .text "mark"), ("type", .text "line"), ("w", .int 30)]])])]),
    ("elements", .list [
      .object [("id", .text "greeting"), ("type", .text "text"), ("text", .text "Dear {{buyer}}"),
        ("visibleIf", condition)],
      .object [("id", .text "body"), ("type", .text "flowText"), ("text", .text "{{message}}"),
        ("columns", .int 2), ("y", .int 20), ("w", .int 200), ("h", .int 40)],
      .object [("id", .text "items"), ("type", .text "table"), ("rows", .text "{{items}}"), ("y", .int 60),
        ("columns", .list [.object [("field", .text "name"), ("w", .int 60)],
          .object [("field", .text "price"), ("w", .int 40), ("format", .text "number")]]),
        ("pagination", .object [("mode", .text "auto"), ("rowHeight", .int 10)])],
      .object [("id", .text "seal"), ("type", .text "include"), ("ref", .text "seal"), ("y", .int 90),
        ("visibleIf", .text "!draft")]])]

/-- An order with two items. -/
def orderOfTwo : Entries :=
  [("customer", .object [("name", .text "Ada")]), ("message", .text "Thank you"),
    ("items", .list [.object [("name", .text "Pen"), ("price", .int 2)],
      .object [("name", .text "Ink"), ("price", .float 3.5)]])]

/-- A letter with a condition that is a text can be previewed. -/
theorem exists_preview_iff_letter :
    ∃ t, Template.ofValue (.object (letter (.text "buyer"))) = .ok t ∧
      ∃ r, (t.preview (.object orderOfTwo) true none).outcome = .ok r := by
  have hvalid : Validation.issues (.object (letter (.text "buyer"))) = .ok [] :=
    Validation.issues_of_flat (by decide +kernel) (by decide +kernel)
  obtain ⟨t, ht, hiff⟩ := exists_preview_iff hvalid (by decide +kernel)
    (show Json.isDocument (.object orderOfTwo) = true by decide +kernel)
  have hall : ∀ t, Template.ofValue (.object (letter (.text "buyer"))) = .ok t →
      t.IsReadable ∧ t.HasRoom ∧ t.contract.length = 1 ∧ t.FormatsCells (.object orderOfTwo) ∧
        ∀ e ∈ t.elements, ∀ c ∈ t.conditionsOf e, Condition.IsSpelled c := by decide +kernel
  obtain ⟨hreadable, hroom, hone, hformats, hspelled⟩ := hall t ht
  obtain ⟨f, hf⟩ := List.length_eq_one_iff.mp hone
  have hundisturbed : t.IsUndisturbed orderOfTwo :=
    Contract.Plain.undisturbed_of_pairwise _ _ (hf ▸ List.pairwise_singleton _ f)
  exact ⟨t, ht, (hiff hreadable hroom hundisturbed hformats).mpr hspelled⟩

/-- A valid letter with a condition that is a number cannot be previewed. -/
theorem not_exists_preview_letter :
    ¬∀ (v : Value) (payload : Entries), Json.isDocument v = true → Json.isDocument (.object payload) = true →
      Validation.issues v = .ok [] →
      ∃ t r, Template.ofValue v = .ok t ∧ (t.preview (.object payload) true none).outcome = .ok r := by
  intro hall
  have hvalid : Validation.issues (.object (letter (.int 5))) = .ok [] :=
    Validation.issues_of_flat (by decide +kernel) (by decide +kernel)
  obtain ⟨t, r, ht, hr⟩ := hall _ orderOfTwo (by decide +kernel) (by decide +kernel) hvalid
  obtain ⟨t', ht', hchecked⟩ := Validation.exists_checked hvalid
  obtain rfl := Except.ok.inj (ht.symm.trans ht')
  have hgreeting : ∀ t, Template.ofValue (.object (letter (.int 5))) = .ok t →
      ∃ e ∈ t.elements, ∃ c ∈ t.conditionsOf e, ¬Condition.IsSpelled c := by decide +kernel
  obtain ⟨e, he, c, hc, hnot⟩ := hgreeting t ht
  exact hnot (isSpelled_of_preview hchecked hr e he c hc)

end Template

end Pagewright
