import Mathlib.Tactic.MkIffOfInductiveProp
import Pagewright.Layout.Assembly
import Pagewright.Proofs.Layout.Flows
import Pagewright.Template.Validation

/-!
# What a valid document has

One lemma for each check: where it finds nothing, the part of the template that is read from the same part
of the document is as it should be. Together they say that a valid document is read as a template with
known inclusions, known rules and regions, known transforms and no circle of partials
(`Validation.exists_checked`). Nothing is said of the fields that no check looks at.
-/

namespace Pagewright

/-- An element whose inclusion, rule for repeating and region have names. -/
structure Element.IsChecked (e : Element) : Prop where
  ref : ∀ ref, e.content.inclusion? = some ref → ∃ s, ref = .text s
  repeats : e.repeats.isContainer = false
  region : (Layout.regionOf? e).isSome = true

/-- A template with checked elements, transforms with names and no circle of partials. -/
structure Template.IsChecked (t : Template) : Prop where
  elements : ∀ e ∈ t.elements, e.IsChecked
  partials : ∀ p ∈ t.partials, ∀ e ∈ p.2, e.IsChecked
  transforms : ∀ f ∈ t.contract, f.transformName.isContainer = false
  findCycle_eq : t.findCycle = .ok none

namespace Reading

variable {read : ℕ → α → Outcome β} {i : ℕ} {xs : List α} {ys : List β}

theorem exists_of_mem_each (h : each read i xs = .ok ys) {y : β} (hy : y ∈ ys) :
    ∃ x ∈ xs, ∃ j, read j x = .ok y := by
  rw [each_eq_mapM] at h
  obtain ⟨⟨x, j⟩, hx, hread⟩ := Outcome.exists_of_mem_of_mapM h hy
  exact ⟨x, (List.mem_zipIdx hx).2.2 ▸ List.getElem_mem _, j, hread⟩

theorem exists_of_mem_of_each (h : each read i xs = .ok ys) {x : α} (hx : x ∈ xs) :
    ∃ y ∈ ys, ∃ j, read j x = .ok y := by
  rw [each_eq_mapM] at h
  obtain ⟨n, hn, rfl⟩ := List.mem_iff_getElem.mp hx
  have hitem : (xs.zipIdx i)[n]? = some (xs[n], i + n) := by simp [hn]
  obtain ⟨y, hy, hread⟩ := Outcome.getElem?_of_mapM h hitem
  exact ⟨y, List.mem_of_getElem? hy, i + n, hread⟩

theorem orElse_of_text {v : Value} {s : String} (h : v = .text s) (fallback : String) :
    ∃ s', v.orElse (.text fallback) = .text s' := by
  rw [h, Value.orElse]
  split <;> exact ⟨_, rfl⟩

end Reading

namespace Template

variable {t : Template}

/-! ## Circles -/

theorem mem_of_lookup {name : String} {children : List Element}
    (h : t.partials.lookup name = some children) : (name, children) ∈ t.partials := by
  obtain ⟨before, after, hpartials, -⟩ := List.lookup_eq_some_iff.mp h
  rw [hpartials]
  exact List.mem_append_right before List.mem_cons_self

theorem partial?_eq_some {ref : Value} {children : List Element} (h : t.partial? ref = .ok (some children)) :
    ∃ name, ref = .text name ∧ t.partials.lookup name = some children := by
  cases ref with
  | text name => exact ⟨name, rfl, Except.ok.inj h⟩
  | _ => simp [partial?, undefinedOn, Value.isContainer] at h

theorem visitAll_of_flat (h : ∀ p ∈ t.partials, references p.2 = []) (depth : ℕ) (names finished : List String) :
    ∃ cleared, t.visitAll depth [] finished (names.map .text) = .ok (.clear cleared) := by
  induction names generalizing finished with
  | nil => exact ⟨finished, by rw [List.map_nil, visitAll]⟩
  | cons name rest ih =>
    have hvisit : ∃ cleared, t.visit depth [] finished (.text name) = .ok (.clear cleared) := by
      unfold visit
      rw [if_neg (by simp)]
      split
      · exact ⟨_, rfl⟩
      · split
        · rename_i elements depth hlookup
          rw [h _ (mem_of_lookup hlookup), visitAll]
          exact ⟨_, rfl⟩
        · exact ⟨_, rfl⟩
    obtain ⟨finished', hvisit⟩ := hvisit
    rw [List.map_cons, visitAll, hvisit]
    exact ih finished'

theorem findCycle_of_flat (h : ∀ p ∈ t.partials, references p.2 = []) : t.findCycle = .ok none := by
  have hnames : (t.partials.map fun p => Value.text p.1) = (t.partials.map (·.1)).map .text := by
    rw [List.map_map]
    rfl
  obtain ⟨cleared, hclear⟩ := visitAll_of_flat h t.partials.length (t.partials.map (·.1)) []
  unfold findCycle
  rw [hnames, hclear]
  rfl

end Template

namespace Validation

variable {raw partials : Entries} {v : Value} {t : Template} {e : Element} {place location : String}
  {names : List String}

theorem issueIf_eq_nil {condition : Bool} {issue : String} :
    issueIf condition issue = [] ↔ condition = false := by
  cases condition <;> simp [issueIf]

theorem exists_text_of_isOneOf (h : isOneOf v names = true) : ∃ s ∈ names, v = .text s := by
  cases v with
  | text s => exact ⟨s, by simpa [isOneOf] using h, rfl⟩
  | _ => simp [isOneOf] at h

theorem exists_text_of_isName (h : isName v names = .ok true) : ∃ s ∈ names, v = .text s := by
  unfold isName at h
  split at h
  · cases h
  · exact exists_text_of_isOneOf (Except.ok.inj h)

/-! ## Elements -/

/-- A field that is checked by name holds null or one of the names. -/
theorem checkNamed_eq_nil {key issue : String} (h : checkNamed raw key names issue = []) :
    Entries.get raw key = .null ∨ ∃ s ∈ names, Entries.get raw key = .text s := by
  rw [checkNamed, issueIf_eq_nil] at h
  cases hone : isOneOf (Entries.get raw key) names with
  | true => exact .inr (exists_text_of_isOneOf hone)
  | false =>
    refine .inl ?_
    cases hv : Entries.get raw key <;> simp [hv, Value.isNull, isOneOf] at h hone ⊢
    exact absurd h hone

/-- What an element without issues has: an id, known names where there are any, and a known partial if it
includes one. -/
theorem checkElement_eq_nil (h : checkElement partials place (.object raw) = .ok []) :
    (Entries.get raw "id").isGiven = true ∧
      checkNamed raw "region" regionNames (place ++ ": invalid region") = [] ∧
      checkNamed raw "repeat" repeatRules (place ++ ": invalid repeat policy") = [] ∧
      (Value.isText (Entries.get raw "type") "include" = true →
        ∃ s ∈ partials.map (·.1), Entries.get raw "ref" = .text s) := by
  obtain ⟨known, -, h⟩ := Outcome.bind_eq_ok.mp h
  dsimp only at h
  split at h
  · rename_i hkind
    obtain ⟨found, hfound, h⟩ := Outcome.bind_eq_ok.mp h
    simp only [Outcome.pure_eq_ok, Outcome.ok_bind, Except.ok.injEq, List.append_eq_nil_iff,
      issueIf_eq_nil, Bool.not_eq_eq_eq_not, Bool.not_false] at h
    obtain ⟨⟨⟨⟨⟨hid, -⟩, hregion⟩, hrepeat⟩, rfl⟩, -⟩ := h
    exact ⟨hid, hregion, hrepeat, fun _ => exists_text_of_isName hfound⟩
  · rename_i hkind
    simp only [Outcome.pure_eq_ok, Outcome.ok_bind, Except.ok.injEq, List.append_eq_nil_iff,
      issueIf_eq_nil, Bool.not_eq_eq_eq_not, Bool.not_false] at h
    obtain ⟨⟨⟨⟨⟨hid, -⟩, hregion⟩, hrepeat⟩, -⟩, -⟩ := h
    exact ⟨hid, hregion, hrepeat, fun hinclude => absurd hinclude hkind⟩

theorem inclusion_of_content {kind : String} {content : Content} {ref : Value}
    (h : Reading.content kind raw location = .ok content) (href : content.inclusion? = some ref) :
    kind = "include" ∧ ref = (Entries.get raw "ref").orElse (.text "") := by
  unfold Reading.content at h
  split at h
  case h_7 =>
    obtain rfl := Except.ok.inj h
    exact ⟨rfl, (Option.some.inj href).symm⟩
  case h_2 =>
    obtain ⟨columns, -, h⟩ := Outcome.bind_eq_ok.mp h
    obtain ⟨gap, -, h⟩ := Outcome.bind_eq_ok.mp h
    obtain rfl := Except.ok.inj h
    cases href
  case h_4 =>
    obtain ⟨table, -, h⟩ := Outcome.bind_eq_ok.mp h
    obtain rfl := Except.ok.inj h
    cases href
  all_goals
    obtain rfl := Except.ok.inj h
    cases href

theorem kindOf_eq_ok {kind : String} (h : Reading.kindOf v location = .ok kind) : v = .text kind := by
  unfold Reading.kindOf at h
  dsimp only at h
  split at h
  · split at h
    · rw [Except.ok.inj h]
    · cases h
  · split at h <;> cases h

/-- An element that is read keeps its rule and its region, and includes what it refers to. -/
theorem element_eq_ok (h : Reading.element v location = .ok e) :
    ∃ raw, v = .object raw ∧ e.region = Reading.orNull (Entries.get raw "region") ∧
      e.repeats = Reading.orNull (Entries.get raw "repeat") ∧
      ∀ ref, e.content.inclusion? = some ref → Value.isText (Entries.get raw "type") "include" = true ∧
        ref = (Entries.get raw "ref").orElse (.text "") := by
  cases v with
  | object raw =>
    unfold Reading.element at h
    simp only [Outcome.bind_eq_ok] at h
    obtain ⟨kind, hkind, x, -, y, -, w, -, height, -, page, -, content, hcontent, h⟩ := h
    obtain rfl := Except.ok.inj h
    refine ⟨raw, rfl, rfl, rfl, fun ref href => ?_⟩
    obtain ⟨rfl, href⟩ := inclusion_of_content hcontent href
    exact ⟨by rw [kindOf_eq_ok hkind]; rfl, href⟩
  | _ => cases h

theorem isChecked_of_element (hcheck : checkElement partials place v = .ok [])
    (h : Reading.element v location = .ok e) : e.IsChecked := by
  obtain ⟨raw, rfl, hregion, hrepeats, href⟩ := element_eq_ok h
  obtain ⟨-, hregionNamed, hrepeatNamed, hinclusion⟩ := checkElement_eq_nil hcheck
  refine ⟨fun ref hsome => ?_, ?_, ?_⟩
  · obtain ⟨hkind, rfl⟩ := href ref hsome
    obtain ⟨s, -, hs⟩ := hinclusion hkind
    exact Reading.orElse_of_text hs ""
  · rw [hrepeats]
    rcases checkNamed_eq_nil hrepeatNamed with hnull | ⟨s, -, hs⟩
    · rw [hnull]
      rfl
    · rw [hs, Reading.orNull, Value.orElse]
      split <;> rfl
  · unfold Layout.regionOf? Element.effectiveRegion
    rw [hregion]
    rcases checkNamed_eq_nil hregionNamed with hnull | ⟨s, hname, hs⟩
    · rw [hnull]
      decide
    · rw [hs]
      simp only [regionNames, Region.all, List.map_cons, List.map_nil, Region.name, List.mem_cons,
        List.not_mem_nil, or_false] at hname
      rcases hname with rfl | rfl | rfl <;> decide

/-! ## Lists of elements -/

theorem checkScope_eq_nil (h : checkScope partials location v = .ok []) :
    ∃ items, v = .list items ∧ ∀ item ∈ items, ∃ place, checkElement partials place item = .ok [] := by
  cases v with
  | list items =>
    unfold checkScope at h
    simp only [Outcome.bind_eq_ok] at h
    obtain ⟨counted, -, issues, hissues, h⟩ := h
    refine ⟨items, rfl, fun item hitem => ?_⟩
    obtain ⟨found, hfound, i, hcheck⟩ := Reading.exists_of_mem_of_each hissues hitem
    have hnone : issues.flatten = [] := (List.append_eq_nil_iff.mp (Except.ok.inj h)).2
    exact ⟨_, List.flatten_eq_nil_iff.mp hnone found hfound ▸ hcheck⟩
  | _ => simp [checkScope] at h

theorem isChecked_of_elements {elements : List Element} (hcheck : checkScope partials location v = .ok [])
    {place : String} (h : Reading.elements v place = .ok elements) : ∀ e ∈ elements, e.IsChecked := by
  obtain ⟨items, rfl, hitems⟩ := checkScope_eq_nil hcheck
  intro e he
  obtain ⟨item, hitem, i, hread⟩ := Reading.exists_of_mem_each h he
  obtain ⟨place, hnone⟩ := hitems item hitem
  exact isChecked_of_element hnone hread

/-- What is checked as the elements of a partial. -/
def scopeOf (v : Value) : Value :=
  match v with
  | .object p => (Entries.find? p "elements").getD (.list [])
  | _ => .null

theorem elements_getD {elements : List Element}
    (h : Reading.elements (Entries.get raw "elements") place = .ok elements) :
    Reading.elements ((Entries.find? raw "elements").getD (.list [])) place = .ok elements := by
  unfold Entries.get at h
  unfold Entries.find?
  cases hlookup : raw.lookup "elements" with
  | none =>
    rw [hlookup] at h
    exact h
  | some w => rwa [hlookup] at h

theorem elements_scopeOf {elements : List Element} {name : String}
    (hcheck : checkScope partials location (scopeOf v) = .ok [])
    (h : Reading.partialNamed name v = .ok elements) :
    Reading.elements (scopeOf v) ("partials." ++ name ++ ".elements") = .ok elements := by
  cases v with
  | object p => exact elements_getD h
  | _ =>
    obtain ⟨items, hlist, -⟩ := checkScope_eq_nil hcheck
    cases hlist

/-! ## Contracts -/

theorem checkField_eq_nil (h : checkField place v = []) :
    ∃ f, v = .object f ∧ ∀ w, Entries.find? f "transform" = some w → ∃ s, w = .text s := by
  cases v with
  | object f =>
    refine ⟨f, rfl, fun w hw => ?_⟩
    unfold checkField at h
    dsimp only at h
    split at h
    · simp only [hw, List.append_eq_nil_iff, issueIf_eq_nil, Bool.not_eq_eq_eq_not,
        Bool.not_false] at h
      obtain ⟨s, -, hs⟩ := exists_text_of_isOneOf h.2
      exact ⟨s, hs⟩
    · simp at h
  | _ => simp [checkField] at h

theorem isContainer_transformName {raw : Entries}
    (h : ∀ w, Entries.find? raw "transform" = some w → ∃ s, w = .text s) :
    (Reading.contractField raw).transformName.isContainer = false := by
  have htransform : ∃ s, (Reading.contractField raw).transform = .text s := by
    unfold Reading.contractField Entries.get
    unfold Entries.find? at h
    cases hlookup : raw.lookup "transform" with
    | none => exact ⟨"none", rfl⟩
    | some w =>
      obtain ⟨s, rfl⟩ := h w hlookup
      exact Reading.orElse_of_text rfl "none"
  obtain ⟨s, hs⟩ := htransform
  obtain ⟨s', hs'⟩ := Reading.orElse_of_text hs "none"
  rw [ContractField.transformName, hs']
  rfl

theorem transforms_of_checkContract (h : checkContract v = .ok []) :
    ∀ f ∈ Reading.contract v, f.transformName.isContainer = false := by
  intro f hf
  cases v with
  | object raw =>
    unfold Reading.contract at hf
    cases hfields : Entries.get raw "fields" with
    | list items =>
      simp only [hfields, List.mem_filterMap] at hf
      obtain ⟨item, hitem, hread⟩ := hf
      unfold checkContract at h
      simp only [Value.object?, Option.map_some, Option.bind_some, hfields, Value.list?] at h
      obtain ⟨counted, -, h⟩ := Outcome.bind_eq_ok.mp h
      have hnone := (List.append_eq_nil_iff.mp (Except.ok.inj h)).2
      obtain ⟨i, hi, rfl⟩ := List.mem_iff_getElem.mp hitem
      have hpair : (i, items[i]) ∈ (List.range items.length).zip items :=
        List.mem_of_getElem? (i := i) (by simp [hi])
      have hfield := List.flatMap_eq_nil_iff.mp hnone _ hpair
      obtain ⟨raw', hobject, htransform⟩ := checkField_eq_nil (v := items[i]) hfield
      rw [hobject] at hread
      dsimp only at hread
      split at hread
      · rw [← Option.some.inj hread]
        exact isContainer_transformName htransform
      · cases hread
    | _ => simp [hfields] at hf
  | _ => simp [Reading.contract] at hf

/-! ## Documents -/

/-- The parts of a template come from the parts of the document. -/
theorem ofValue_eq_ok (h : Template.ofValue (.object raw) = .ok t) :
    (∃ partials, (Entries.get raw "partials").orElse (.object []) = .object partials ∧
      partials.mapM (fun (name, v) => do return (name, ← Reading.partialNamed name v)) =
        .ok t.partials) ∧
      Reading.elements (Entries.get raw "elements") "elements" = .ok t.elements ∧
      t.contract = Reading.contract (Entries.get raw "dataContract") := by
  unfold Template.ofValue at h
  dsimp only at h
  split at h
  · rename_i partials hobject
    simp only [Outcome.bind_eq_ok] at h
    obtain ⟨read, hread, styles, -, pageCount, -, page, -, items, -, h⟩ := h
    obtain ⟨fonts, -, elements, helements, settings, -, h⟩ := h
    obtain rfl := Except.ok.inj h
    exact ⟨⟨partials, hobject, hread⟩, helements, rfl⟩
  · cases h

/-- Reading a document finds nothing just when it is a template without a circle of partials and with a
body. -/
theorem checkTemplate_eq_nil_iff : checkTemplate v = .ok [] ↔
    ∃ t, Template.ofValue v = .ok t ∧ t.findCycle = .ok none ∧ ¬t.page.bodyHeight ≤ 0 := by
  unfold checkTemplate
  constructor
  · intro h
    split at h
    · cases h
    · cases h
    · rename_i t ht
      obtain ⟨cycle, hcycle, h⟩ := Outcome.bind_eq_ok.mp h
      obtain ⟨hbody, hnone⟩ := List.append_eq_nil_iff.mp (Except.ok.inj h)
      cases cycle with
      | some names => cases hnone
      | none => exact ⟨t, ht, hcycle, by simpa [issueIf_eq_nil] using hbody⟩
  · rintro ⟨t, ht, hcycle, hbody⟩
    rw [ht]
    simp [hcycle, issueIf, hbody]

/-- The parts of a document in which no check finds anything. -/
@[mk_iff]
structure HasValidParts (raw : Entries) : Prop where
  page : checkPage (Entries.get raw "page") = []
  partials : (partialsOf (Entries.get raw "partials")).2 = []
  elements : checkScope (partialsOf (Entries.get raw "partials")).1 "elements"
    ((Entries.find? raw "elements").getD (.list [])) = .ok []
  inside : ∀ p ∈ (partialsOf (Entries.get raw "partials")).1,
    checkScope (partialsOf (Entries.get raw "partials")).1 ("partials." ++ p.1 ++ ".elements")
      (scopeOf p.2) = .ok []
  contract : checkContract (Entries.get raw "dataContract") = .ok []

instance (raw : Entries) : Decidable (HasValidParts raw) :=
  decidable_of_iff _ (hasValidParts_iff raw).symm

/-- The parts of a document are valid just when the checks, made in turn, find nothing. -/
theorem hasValidParts_iff_nil {top contract : List String} {inside : List (List String)}
    (htop : checkScope (partialsOf (Entries.get raw "partials")).1 "elements"
      ((Entries.find? raw "elements").getD (.list [])) = .ok top)
    (hinside : (partialsOf (Entries.get raw "partials")).1.mapM (fun p =>
      checkScope (partialsOf (Entries.get raw "partials")).1 ("partials." ++ p.1 ++ ".elements")
        (scopeOf p.2)) = .ok inside)
    (hcontract : checkContract (Entries.get raw "dataContract") = .ok contract) :
    HasValidParts raw ↔ checkPage (Entries.get raw "page") ++ (partialsOf (Entries.get raw "partials")).2 ++
      top ++ inside.flatten ++ contract = [] := by
  simp only [List.append_eq_nil_iff]
  constructor
  · intro h
    obtain rfl := Except.ok.inj (h.elements.symm.trans htop)
    obtain rfl := Except.ok.inj (h.contract.symm.trans hcontract)
    refine ⟨⟨⟨⟨h.page, h.partials⟩, rfl⟩, List.flatten_eq_nil_iff.mpr fun issues hissues => ?_⟩, rfl⟩
    obtain ⟨p, hp, hcheck⟩ := Outcome.exists_of_mem_of_mapM hinside hissues
    exact Except.ok.inj (hcheck.symm.trans (h.inside p hp))
  · rintro ⟨⟨⟨⟨hpage, hpartials⟩, rfl⟩, hflat⟩, rfl⟩
    refine ⟨hpage, hpartials, htop, fun p hp => ?_, hcontract⟩
    obtain ⟨i, hi⟩ := List.getElem?_of_mem hp
    obtain ⟨issues, hissues, hcheck⟩ := Outcome.getElem?_of_mapM hinside hi
    rwa [List.flatten_eq_nil_iff.mp hflat issues (List.mem_of_getElem? hissues)] at hcheck

/-- A document has no issues just when its parts have none and reading it finds nothing. -/
theorem issuesOf_eq_nil_iff :
    issuesOf raw = .ok [] ↔ HasValidParts raw ∧ checkTemplate (.object raw) = .ok [] := by
  unfold issuesOf
  constructor
  · intro h
    simp only [Outcome.bind_eq_ok] at h
    obtain ⟨top, htop, inside, hinside, contract, hcontract, h⟩ := h
    split at h
    · rename_i hempty
      exact ⟨(hasValidParts_iff_nil htop hinside hcontract).mpr (List.isEmpty_iff.mp hempty), h⟩
    · rename_i hempty
      rw [Except.ok.inj h] at hempty
      exact absurd rfl hempty
  · rintro ⟨hparts, htemplate⟩
    have hinside := Outcome.mapM_eq_map (g := fun _ => []) hparts.inside
    refine Outcome.bind_eq_ok.mpr ⟨[], hparts.elements, Outcome.bind_eq_ok.mpr ⟨_, hinside, ?_⟩⟩
    refine Outcome.bind_eq_ok.mpr ⟨[], hparts.contract, ?_⟩
    have hnone := (hasValidParts_iff_nil hparts.elements hinside hparts.contract).mp hparts
    exact (if_pos (List.isEmpty_iff.mpr hnone)).trans htemplate

/-- A document is valid if its parts are, its partials include nothing and its page has a body. -/
theorem issues_of_flat (hparts : HasValidParts raw)
    (h : ∃ t, Template.ofValue (.object raw) = .ok t ∧ (∀ p ∈ t.partials, Template.references p.2 = []) ∧
      ¬t.page.bodyHeight ≤ 0) : issues (.object raw) = .ok [] := by
  obtain ⟨t, ht, hflat, hbody⟩ := h
  exact issuesOf_eq_nil_iff.mpr ⟨hparts,
    checkTemplate_eq_nil_iff.mpr ⟨t, ht, Template.findCycle_of_flat hflat, hbody⟩⟩

/-- The elements of a partial are read from what is checked as such. -/
theorem exists_scope_of_mem_partials (hparts : HasValidParts raw) (h : Template.ofValue (.object raw) = .ok t)
    {p : String × List Element} (hp : p ∈ t.partials) : ∃ q ∈ (partialsOf (Entries.get raw "partials")).1,
      Reading.elements (scopeOf q.2) ("partials." ++ q.1 ++ ".elements") = .ok p.2 := by
  obtain ⟨⟨partials, hobject, hpartials⟩, -, -⟩ := ofValue_eq_ok h
  obtain ⟨⟨name, w⟩, hmem, hread⟩ := Outcome.exists_of_mem_of_mapM hpartials hp
  obtain ⟨elements, helements, hpair⟩ := Outcome.bind_eq_ok.mp hread
  rw [← Except.ok.inj hpair]
  have hsame : (partialsOf (Entries.get raw "partials")).1 = partials := by
    rw [partialsOf, hobject]
  have hscope : (name, w) ∈ (partialsOf (Entries.get raw "partials")).1 := hsame ▸ hmem
  exact ⟨(name, w), hscope, elements_scopeOf (hparts.inside _ hscope) helements⟩

theorem isChecked_of_partials (hparts : HasValidParts raw) (h : Template.ofValue (.object raw) = .ok t) :
    ∀ p ∈ t.partials, ∀ e ∈ p.2, e.IsChecked := by
  intro p hp
  obtain ⟨q, hq, helements⟩ := exists_scope_of_mem_partials hparts h hp
  exact isChecked_of_elements (hparts.inside q hq) helements

theorem exists_checked (h : issues v = .ok []) : ∃ t, Template.ofValue v = .ok t ∧ t.IsChecked := by
  cases v with
  | object raw =>
    obtain ⟨hparts, htemplate⟩ := issuesOf_eq_nil_iff.mp h
    obtain ⟨t, ht, hcycle, -⟩ := checkTemplate_eq_nil_iff.mp htemplate
    obtain ⟨-, helements, hfields⟩ := ofValue_eq_ok ht
    refine ⟨t, ht, ?_, ?_, ?_, hcycle⟩
    · exact isChecked_of_elements hparts.elements (elements_getD helements)
    · exact isChecked_of_partials hparts ht
    · rw [hfields]
      exact transforms_of_checkContract hparts.contract
  | _ => simp [issues] at h

end Validation

end Pagewright
