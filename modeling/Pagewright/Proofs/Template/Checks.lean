import Pagewright.Proofs.Template.Faults

/-!
# Checks that come to an end

Validation collects issues and never reports a fault of its own, so it either gives the list of issues or
stops where it looks up a list or an object as a key: ids of elements, types of elements, references of
inclusions and paths of contract fields (`returns_checkScope_iff`, `returns_checkContract_iff`). A document
in which no check finds anything is read at the end, and a fault of the reader that is no report goes
through (`returns_issuesOf_iff`). The search for circles of partials comes to an end wherever the references
can be looked up (`returns_findCycle`).
-/

namespace Pagewright

open Outcome

namespace Template

variable {t : Template} {depth : ℕ}

/-! ## The search for circles -/

theorem returns_visitAll_of_visit (h : ∀ chain finished ref, ref.isContainer = false →
    Returns (t.visit depth chain finished ref)) (chain finished : List String) (refs : List Value)
    (hrefs : ∀ ref ∈ refs, ref.isContainer = false) : Returns (t.visitAll depth chain finished refs) := by
  induction refs generalizing finished with
  | nil => exact ⟨_, by rw [visitAll]⟩
  | cons ref rest ih =>
    rw [List.forall_mem_cons] at hrefs
    rw [visitAll]
    refine (h chain finished ref hrefs.1).bind fun result _ => ?_
    cases result with
    | circle names => exact returns_pure _
    | clear finished => exact ih finished hrefs.2

theorem returns_visit_of_visitAll (hpartials : ∀ p ∈ t.partials, ∀ ref ∈ references p.2, ref.isContainer = false)
    (hbelow : ∀ d, depth = d + 1 → ∀ chain finished refs, (∀ ref ∈ refs, ref.isContainer = false) →
      Returns (t.visitAll d chain finished refs))
    (chain finished : List String) (ref : Value) (href : ref.isContainer = false) :
    Returns (t.visit depth chain finished ref) := by
  unfold visit
  split
  · rename_i name
    split
    · exact returns_ok _
    split
    · exact returns_ok _
    split
    · rename_i elements d hlookup
      refine (hbelow d rfl _ _ _ (hpartials _ (mem_of_lookup hlookup))).bind fun result _ => ?_
      cases result <;> exact returns_pure _
    · exact returns_ok _
  · rw [href]
    exact returns_ok _

theorem returns_visitAll (hpartials : ∀ p ∈ t.partials, ∀ ref ∈ references p.2, ref.isContainer = false)
    (depth : ℕ) (chain finished : List String) (refs : List Value)
    (hrefs : ∀ ref ∈ refs, ref.isContainer = false) : Returns (t.visitAll depth chain finished refs) := by
  induction depth generalizing chain finished refs with
  | zero =>
    exact returns_visitAll_of_visit (returns_visit_of_visitAll hpartials fun d hd => by cases hd) _ _ _ hrefs
  | succ depth ih =>
    refine returns_visitAll_of_visit (returns_visit_of_visitAll hpartials fun d hd => ?_) _ _ _ hrefs
    obtain rfl := Nat.succ.inj hd
    exact ih

theorem returns_findCycle (h : ∀ p ∈ t.partials, ∀ e ∈ p.2, e.IsChecked) : Returns t.findCycle := by
  have hpartials : ∀ p ∈ t.partials, ∀ ref ∈ references p.2, ref.isContainer = false := by
    intro p hp ref href
    obtain ⟨e, he, hinclusion⟩ := List.mem_filterMap.mp (List.mem_filter.mp href).1
    obtain ⟨s, rfl⟩ := (h p hp e he).ref ref hinclusion
    rfl
  refine (returns_visitAll hpartials _ _ _ _ fun ref href => ?_).bind fun result _ => ?_
  · obtain ⟨p, -, rfl⟩ := List.mem_map.mp href
    rfl
  · cases result <;> exact returns_pure _

end Template

theorem Reading.returns_each_iff {read : ℕ → α → Outcome β} {P : α → Prop}
    (h : ∀ i x, Returns (read i x) ↔ P x) (i : ℕ) (xs : List α) :
    Returns (each read i xs) ↔ ∀ x ∈ xs, P x := by
  rw [each_eq_mapM, returns_mapM_iff]
  constructor
  · intro hall x hx
    obtain ⟨n, hn, rfl⟩ := List.mem_iff_getElem.mp hx
    have hmem : (xs[n], i + n) ∈ xs.zipIdx i := List.mk_mem_zipIdx_iff_le_and_getElem?_sub.mpr (by simp [hn])
    exact (h _ _).mp (hall _ hmem)
  · rintro hall ⟨x, n⟩ hmem
    exact (h n x).mpr (hall x (List.fst_mem_of_mem_zipIdx hmem))

namespace Validation

variable {raw partials : Entries} {v : Value} {names : List String} {location : String}

/-! ## Look-ups -/

theorem returns_isName_iff : Returns (isName v names) ↔ v.isContainer = false := by
  unfold isName
  cases v.isContainer with
  | true => simp [undefinedOn]
  | false => simp

theorem returns_counts_iff {vs : List Value} : Returns (counts vs) ↔ ∀ v ∈ vs, v.isContainer = false := by
  unfold counts
  split
  · rename_i v hv
    refine ⟨fun h => absurd h (not_returns_error _), fun h => ?_⟩
    have hcontainer := List.find?_some hv
    rw [h v (List.mem_of_find?_eq_some hv)] at hcontainer
    cases hcontainer
  · rename_i hnone
    exact ⟨fun _ v hv => by simpa using List.find?_eq_none.mp hnone v hv, fun _ => returns_ok _⟩

/-- Whether the type of an element and the reference of an inclusion can be looked up. -/
def canCheckElement (v : Value) : Bool :=
  let raw := v.object?.getD []
  !(Entries.get raw "type").isContainer &&
    !((Entries.get raw "type").isText "include" && (Entries.get raw "ref").isContainer)

theorem canCheckElement_iff : canCheckElement (.object raw) = true ↔
    (Entries.get raw "type").isContainer = false ∧
      ((Entries.get raw "type").isText "include" = true → (Entries.get raw "ref").isContainer = false) := by
  rw [canCheckElement, Bool.and_eq_true, Bool.not_eq_true', Bool.not_eq_true', Bool.and_eq_false_imp]
  rfl

theorem returns_checkElement_iff (partials : Entries) (place : String) (v : Value) :
    Returns (checkElement partials place v) ↔ canCheckElement v = true := by
  cases v with
  | object raw =>
    rw [canCheckElement_iff]
    unfold checkElement
    dsimp only
    constructor
    · intro h
      obtain ⟨known, hknown⟩ := h.of_bind
      refine ⟨returns_isName_iff.mp ⟨known, hknown⟩, fun hinclude => ?_⟩
      rw [hknown, ok_bind, if_pos hinclude] at h
      exact returns_isName_iff.mp h.of_bind
    · rintro ⟨htype, href⟩
      refine (returns_isName_iff.mpr htype).bind fun known _ => ?_
      split
      · rename_i hinclude
        exact (returns_isName_iff.mpr (href hinclude)).bind fun _ _ => returns_pure _
      · exact returns_pure _
  | _ => exact ⟨fun _ => rfl, fun _ => returns_ok _⟩

/-- Whether the ids of a list of elements can be counted and its elements be checked. -/
def canCheckScope (v : Value) : Bool :=
  (v.list?.getD []).all fun e =>
    !((Entries.get (e.object?.getD []) "id").isGiven && (Entries.get (e.object?.getD []) "id").isContainer) &&
      canCheckElement e

/-- The ids that are counted. -/
def idsOf (items : List Value) : List Value :=
  items.filterMap fun v => (v.object?.map fun raw => Entries.get raw "id").bind Value.given?

theorem forall_mem_idsOf_iff {items : List Value} : (∀ id ∈ idsOf items, id.isContainer = false) ↔
    ∀ e ∈ items, (Entries.get (e.object?.getD []) "id").isGiven = true →
      (Entries.get (e.object?.getD []) "id").isContainer = false := by
  constructor
  · intro h e he hgiven
    cases e with
    | object raw =>
      refine h _ (List.mem_filterMap.mpr ⟨.object raw, he, ?_⟩)
      simpa [Value.object?, Value.given?] using hgiven
    | _ => rfl
  · intro h id hid
    obtain ⟨e, he, hread⟩ := List.mem_filterMap.mp hid
    cases e with
    | object raw =>
      obtain ⟨hgiven, rfl⟩ : (Entries.get raw "id").isGiven = true ∧ Entries.get raw "id" = id := by
        simpa [Value.object?, Value.given?] using hread
      exact h _ he hgiven
    | _ => simp [Value.object?] at hread

theorem returns_checkScope_iff : Returns (checkScope partials location v) ↔ canCheckScope v = true := by
  cases v with
  | list items =>
    have hcan : canCheckScope (.list items) = true ↔
        (∀ id ∈ idsOf items, id.isContainer = false) ∧ ∀ e ∈ items, canCheckElement e = true := by
      simp only [forall_mem_idsOf_iff, canCheckScope, Value.list?, Option.getD_some, List.all_eq_true,
        Bool.and_eq_true, Bool.not_eq_true', Bool.and_eq_false_imp]
      exact ⟨fun h => ⟨fun e he => (h e he).1, fun e he => (h e he).2⟩, fun h e he => ⟨h.1 e he, h.2 e he⟩⟩
    have heach : Returns (Reading.each (fun i e => checkElement partials (Reading.item location i) e) 0 items) ↔
        ∀ e ∈ items, canCheckElement e = true :=
      Reading.returns_each_iff (fun i e => returns_checkElement_iff partials (Reading.item location i) e) 0 items
    rw [hcan, ← returns_counts_iff, ← heach]
    unfold checkScope
    constructor
    · intro h
      obtain ⟨counted, hcounted⟩ := h.of_bind
      dsimp only at h
      rw [hcounted, ok_bind] at h
      exact ⟨⟨counted, hcounted⟩, h.of_bind⟩
    · rintro ⟨hcounts, hchecks⟩
      exact hcounts.bind fun _ _ => hchecks.bind fun _ _ => returns_pure _
  | _ => exact ⟨fun _ => rfl, fun _ => returns_ok _⟩

/-! ## Contracts and documents -/

/-- Whether the paths of the fields of a contract can be counted. -/
def canCheckContract (v : Value) : Bool :=
  (((v.object?.map fun raw => Entries.get raw "fields").bind Value.list?).getD []).all fun f =>
    !(Entries.get (f.object?.getD []) "path").isContainer

theorem returns_checkContract_iff : Returns (checkContract v) ↔ canCheckContract v = true := by
  unfold checkContract canCheckContract
  split
  · exact ⟨fun _ => rfl, fun _ => returns_ok _⟩
  · cases hfields : (v.object?.map fun raw => Entries.get raw "fields").bind Value.list? with
    | none => exact ⟨fun _ => rfl, fun _ => returns_ok _⟩
    | some items =>
      have hpaths : Returns (counts (items.filterMap fun v => v.object?.map fun f => Entries.get f "path")) ↔
          ∀ f ∈ items, (Entries.get (f.object?.getD []) "path").isContainer = false := by
        rw [returns_counts_iff]
        constructor
        · intro h f hf
          cases f with
          | object raw => exact h _ (List.mem_filterMap.mpr ⟨.object raw, hf, rfl⟩)
          | _ => rfl
        · intro h path hpath
          obtain ⟨f, hf, hread⟩ := List.mem_filterMap.mp hpath
          cases f with
          | object raw =>
            obtain rfl := Option.some.inj hread
            exact h _ hf
          | _ => cases hread
      simp only [Option.getD_some, List.all_eq_true, Bool.not_eq_true', ← hpaths]
      exact ⟨Returns.of_bind, fun h => h.bind fun _ _ => returns_pure _⟩

/-- Whether everything that validation looks up as a key can be looked up. -/
def canCheck (raw : Entries) : Bool :=
  canCheckScope ((Entries.find? raw "elements").getD (.list [])) &&
    ((partialsOf (Entries.get raw "partials")).1.all fun p => canCheckScope (scopeOf p.2)) &&
    canCheckContract (Entries.get raw "dataContract")

/-- Where no check finds anything, validation depends on the reader alone. -/
theorem returns_checkTemplate_iff (hparts : HasValidParts raw) :
    Returns (checkTemplate (.object raw)) ↔ Settled (Template.ofValue (.object raw)) := by
  unfold checkTemplate
  cases hread : Template.ofValue (.object raw) with
  | ok t =>
    refine ⟨fun _ => settled_of_returns (returns_ok t), fun _ => ?_⟩
    exact (Template.returns_findCycle (isChecked_of_partials hparts hread)).bind fun _ _ => returns_pure _
  | error e =>
    constructor
    · intro h
      split at h
      · rename_i problem location heq
        obtain rfl := Except.error.inj heq
        exact fun e he => ⟨problem, location, (Except.error.inj he).symm⟩
      · exact absurd h (not_returns_error _)
      · cases ‹Except.error e = Except.ok _›
    · intro h
      obtain ⟨problem, location, rfl⟩ := h e rfl
      exact returns_ok _

theorem returns_inside_iff {partials : Entries} : Returns (partials.mapM fun p =>
    checkScope partials ("partials." ++ p.1 ++ ".elements") (scopeOf p.2)) ↔
      partials.all (fun p => canCheckScope (scopeOf p.2)) = true := by
  rw [returns_mapM_iff, List.all_eq_true]
  exact forall₂_congr fun p _ => returns_checkScope_iff

/-- Validation of an object gives a list of issues just when everything it looks up can be looked up and,
where no check finds anything, the reader either gives a template or says what is malformed. -/
theorem returns_issuesOf_iff : Returns (issuesOf raw) ↔
    canCheck raw = true ∧ (HasValidParts raw → Settled (Template.ofValue (.object raw))) := by
  have htop : Returns (checkScope (partialsOf (Entries.get raw "partials")).1 "elements"
      ((Entries.find? raw "elements").getD (.list []))) ↔ _ := returns_checkScope_iff
  rw [canCheck, Bool.and_eq_true, Bool.and_eq_true, ← returns_inside_iff, ← returns_checkContract_iff, ← htop]
  constructor
  · rintro ⟨issues, h⟩
    unfold issuesOf at h
    simp only [bind_eq_ok] at h
    obtain ⟨top, htop, inside, hinside, contract, hcontract, h⟩ := h
    refine ⟨⟨⟨⟨top, htop⟩, inside, hinside⟩, contract, hcontract⟩, fun hparts => ?_⟩
    have hnil := (hasValidParts_iff_nil htop hinside hcontract).mp hparts
    rw [if_pos (List.isEmpty_iff.mpr hnil)] at h
    exact (returns_checkTemplate_iff hparts).mp ⟨issues, h⟩
  · rintro ⟨⟨⟨htop, hinside⟩, hcontract⟩, hreader⟩
    refine htop.bind fun top htop => hinside.bind fun inside hinside => hcontract.bind fun contract hcontract => ?_
    show Returns (if (checkPage (Entries.get raw "page") ++ (partialsOf (Entries.get raw "partials")).2 ++ top ++
      inside.flatten ++ contract).isEmpty then checkTemplate (.object raw) else pure _)
    split
    · rename_i hempty
      have hparts := (hasValidParts_iff_nil htop hinside hcontract).mpr (List.isEmpty_iff.mp hempty)
      exact (returns_checkTemplate_iff hparts).mpr (hreader hparts)
    · exact returns_pure _

/-- Reading a sound document gives a template or says what is malformed and where, and no other document is
read as a template. Validating a document gives a list of issues just when all keys can be looked up and,
where no check finds anything, the reader reports its faults. -/
theorem faults_are_reported (v : Value) :
    (Reading.soundDocument v = true → Settled (Template.ofValue v)) ∧
    (Returns (Template.ofValue v) → Reading.soundDocument v = true) ∧
    (Returns (issues v) ↔ ∀ raw, v = .object raw →
      canCheck raw = true ∧ (HasValidParts raw → Settled (Template.ofValue v))) := by
  refine ⟨(Template.guarded_ofValue v).settled, (Template.guarded_ofValue v).holds, ?_⟩
  cases v with
  | object raw =>
    show Returns (issuesOf raw) ↔ _
    rw [returns_issuesOf_iff]
    constructor
    · intro h raw' heq
      obtain rfl := Value.object.inj heq
      exact h
    · exact fun h => h raw rfl
  | _ => exact ⟨fun _ raw heq => (by cases heq), fun _ => returns_ok _⟩

/-- A page with one element on it. -/
def drawing (element : Entries) : Value :=
  .object [("page", .object [("width", .int 100), ("height", .int 100)]), ("elements", .list [.object element])]

/-- A box is read, and an element of an unknown type is reported. -/
theorem faults_are_reported_drawing :
    Reading.soundDocument (drawing [("id", .text "a"), ("type", .text "box")]) = true ∧
    Settled (Template.ofValue (drawing [("id", .text "a"), ("type", .text "hologram")])) ∧
    Returns (issues (drawing [("id", .text "a"), ("type", .text "hologram")])) := by
  obtain ⟨-, hbox, -⟩ := faults_are_reported (drawing [("id", .text "a"), ("type", .text "box")])
  obtain ⟨hsettled, -, hissues⟩ := faults_are_reported (drawing [("id", .text "a"), ("type", .text "hologram")])
  have hread := hsettled (by decide +kernel)
  refine ⟨hbox (by decide +kernel), hread, hissues.mpr fun raw heq => ?_⟩
  obtain rfl := Value.object.inj heq
  exact ⟨by decide +kernel, fun _ => hread⟩

/-- A list as a type, a whole number beyond the range of doubles and an infinite number of columns go through
the reader and through validation without a report, and a list as an id goes through validation. -/
theorem not_faults_are_reported_drawing :
    ¬Settled (Template.ofValue (drawing [("id", .text "a"), ("type", .list [])])) ∧
    ¬Returns (issues (drawing [("id", .text "a"), ("type", .list [])])) ∧
    ¬Settled (Template.ofValue (drawing [("id", .text "a"), ("type", .text "box"), ("x", .int (Int.pow 10 400))])) ∧
    ¬Returns (issues (drawing [("id", .text "a"), ("type", .text "box"), ("x", .int (Int.pow 10 400))])) ∧
    ¬Settled (Template.ofValue (drawing
      [("id", .text "a"), ("type", .text "flowText"), ("columns", .float Binary64.infinity)])) ∧
    ¬Returns (issues (drawing
      [("id", .text "a"), ("type", .text "flowText"), ("columns", .float Binary64.infinity)])) ∧
    ¬Returns (issues (drawing [("id", .list [.null]), ("type", .text "box")])) := by
  decide +kernel

end Validation

end Pagewright
