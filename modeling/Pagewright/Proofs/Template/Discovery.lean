import Pagewright.Proofs.Condition.Paths
import Pagewright.Proofs.Layout.Returns

/-!
# Discovery against the document

Discovery goes through the elements of a template with its inclusions replaced by what is in their partials;
a document is laid out from copies of these elements. What a document looks up outside placeholders is the
rows of its tables and the paths of its conditions.

* An element of the document comes from one that discovery reads, with the same content. Its condition is that
  of its origin, and also that of the inclusion it stands for (`exists_origin`).
* So the path that a table takes its rows from is discovered if it is written as a placeholder, and a dotted
  token of a condition is discovered unless only the condition of an inclusion names it
  (`discover_covers`). The conditions of inclusions are not read, nor are paths without braces or paths that
  are no tokens, and the contract loses them when it is brought in line (`not_discover_covers_order`).
-/

namespace Pagewright

/-- The paths at which the condition of an element looks data up. -/
def Element.conditionPaths (e : Element) : List String := (Condition.stated e.visibleIf).paths

theorem mem_insertSorted {p s : String} {ss : List String} : p ∈ insertSorted s ss ↔ p = s ∨ p ∈ ss := by
  induction ss with
  | nil => simp [insertSorted]
  | cons t rest ih =>
    rw [insertSorted]
    split
    · simp
    split
    · rename_i heq
      simp [heq]
    · simp only [List.mem_cons, ih]
      tauto

theorem mem_sortUnique {p : String} {ss : List String} : p ∈ sortUnique ss ↔ p ∈ ss := by
  induction ss with
  | nil => rfl
  | cons s ss ih =>
    rw [sortUnique, List.foldr_cons, mem_insertSorted, List.mem_cons]
    exact or_congr_right ih

namespace Template

open Outcome

variable {t : Template} {e i child : Element} {elements children read es : List Element} {depth : ℕ}
  {active ds : List String} {p name : String}

/-! ## What discovery reads -/

/-- Whether an element is an inclusion of a known partial. Discovery reads the elements of the partial in its
place. -/
def isReplaced (t : Template) (e : Element) : Bool :=
  match e.content.inclusion? with
  | none => false
  | some ref =>
    match t.partial? ref with
    | .ok (some _) => true
    | _ => false

/-- What is read in the place of an element. -/
def readElement (t : Template) (depth : ℕ) (active : List String) (e : Element) : Outcome (List Element) :=
  match e.content.inclusion? with
  | none => .ok [e]
  | some ref => do
    match ← t.partial? ref with
    | none => .ok [e]
    | some children =>
      match ref, depth with
      | .text name, depth + 1 =>
        if active.contains name then .ok [] else t.readElements depth (name :: active) children
      | _, _ => .ok []

theorem readElements_cons (t : Template) (depth : ℕ) (active : List String) (e : Element) (rest : List Element) :
    t.readElements depth active (e :: rest) = do
      return (← t.readElement depth active e) ++ (← t.readElements depth active rest) := by
  rw [readElements, readElement]
  cases e.content.inclusion? with
  | none => rfl
  | some ref =>
    dsimp only
    cases t.partial? ref with
    | error problem => rfl
    | ok found =>
      simp only [ok_bind]
      cases found with
      | none => cases ref <;> rfl
      | some children =>
        cases ref with
        | text name =>
          cases depth with
          | zero => rfl
          | succ depth =>
            dsimp only
            split <;> rfl
        | _ => rfl

theorem readElement_of_inclusion (href : i.content.inclusion? = some (.text name))
    (hchildren : t.partials.lookup name = some children) (hactive : active.contains name = false) :
    t.readElement (depth + 1) active i = t.readElements depth (name :: active) children := by
  simp only [readElement, href, partial?, hchildren, ok_bind, hactive, Bool.false_eq_true, if_false]

theorem mem_readElements (h : t.readElements depth active elements = .ok read) (he : e ∈ elements)
    (hreplaced : t.isReplaced e = false) : e ∈ read := by
  induction elements generalizing read with
  | nil => cases he
  | cons first rest ih =>
    rw [readElements_cons] at h
    obtain ⟨here, hhere, h⟩ := bind_eq_ok.mp h
    obtain ⟨later, hlater, h⟩ := bind_eq_ok.mp h
    obtain rfl := Except.ok.inj h
    rcases List.mem_cons.mp he with rfl | he
    · refine List.mem_append_left _ ?_
      unfold isReplaced at hreplaced
      unfold readElement at hhere
      split at hhere
      · obtain rfl := Except.ok.inj hhere
        exact List.mem_singleton_self e
      · rename_i ref href
        obtain ⟨found, hfound, hhere⟩ := bind_eq_ok.mp hhere
        simp only [href, hfound] at hreplaced
        cases found with
        | some children => simp at hreplaced
        | none =>
          obtain rfl := Except.ok.inj hhere
          exact List.mem_singleton_self e
    · exact List.mem_append_right _ (ih hlater he)

/-- The elements of an included partial are read in the place of the inclusion, unless the partial is on the
way there. -/
theorem exists_readElements_of_inclusion (h : t.readElements (depth + 1) active elements = .ok read)
    (hi : i ∈ elements) (href : i.content.inclusion? = some (.text name))
    (hchildren : t.partials.lookup name = some children) (hactive : active.contains name = false) :
    ∃ inside, t.readElements depth (name :: active) children = .ok inside ∧ ∀ e ∈ inside, e ∈ read := by
  induction elements generalizing read with
  | nil => cases hi
  | cons first rest ih =>
    rw [readElements_cons] at h
    obtain ⟨here, hhere, h⟩ := bind_eq_ok.mp h
    obtain ⟨later, hlater, h⟩ := bind_eq_ok.mp h
    obtain rfl := Except.ok.inj h
    rcases List.mem_cons.mp hi with rfl | hi
    · rw [readElement_of_inclusion href hchildren hactive] at hhere
      exact ⟨here, hhere, fun e he => List.mem_append_left _ he⟩
    · obtain ⟨inside, hinside, hmem⟩ := ih hlater hi
      exact ⟨inside, hinside, fun e he => List.mem_append_right _ (hmem e he)⟩

/-- The elements of a partial that a template includes are read, unless they are replaced. -/
theorem mem_allElements_of_inclusion (h : t.allElements = .ok read) (hi : i ∈ t.elements)
    (href : i.content.inclusion? = some (.text name)) (hchildren : t.partials.lookup name = some children)
    (hchild : child ∈ children) (hreplaced : t.isReplaced child = false) : child ∈ read := by
  have hpos : t.partials.length = t.partials.length - 1 + 1 :=
    (Nat.succ_pred_eq_of_pos (List.length_pos_of_mem (mem_of_lookup hchildren))).symm
  rw [allElements, hpos] at h
  obtain ⟨inside, hinside, hmem⟩ := exists_readElements_of_inclusion h hi href hchildren rfl
  exact hmem child (mem_readElements hinside hchild hreplaced)

theorem exists_allElements (h : t.discover = .ok ds) : ∃ read, t.allElements = .ok read := by
  obtain ⟨texts, htexts, -⟩ := bind_eq_ok.mp h
  obtain ⟨read, hread, -⟩ := bind_eq_ok.mp htexts
  exact ⟨read, hread⟩

/-- What is discovered are the paths in the placeholders and conditions of the elements that are read. -/
theorem mem_discover_iff (hread : t.allElements = .ok read) (hds : t.discover = .ok ds) :
    p ∈ ds ↔ isPageFigure p = false ∧ p ≠ "" ∧ ∃ e ∈ read, p ∈ textPathsOf e ∨
      ∃ found, Binding.conditionPaths e.visibleIf = .ok found ∧ p ∈ found := by
  unfold discover textPaths at hds
  rw [hread, ok_bind, pure_eq_ok, ok_bind, ok_bind] at hds
  obtain ⟨conditions, hconditions, hds⟩ := bind_eq_ok.mp hds
  obtain rfl := Except.ok.inj hds
  rw [mem_sortUnique, List.mem_filter, List.mem_append, List.mem_flatMap, List.mem_flatten]
  simp only [Bool.and_eq_true, Bool.not_eq_true', String.isEmpty_eq_false_iff]
  constructor
  · rintro ⟨⟨e, he, hp⟩ | ⟨found, hfound, hp⟩, hfigure, hne⟩
    · exact ⟨hfigure, hne, e, he, .inl hp⟩
    · obtain ⟨e, he, hcondition⟩ := exists_of_mem_of_mapM hconditions hfound
      exact ⟨hfigure, hne, e, he, .inr ⟨found, hcondition, hp⟩⟩
  · rintro ⟨hfigure, hne, e, he, hp | ⟨found, hcondition, hp⟩⟩
    · exact ⟨.inl ⟨e, he, hp⟩, hfigure, hne⟩
    · obtain ⟨k, hk⟩ := List.getElem?_of_mem he
      obtain ⟨found', hfound', hown⟩ := getElem?_of_mapM hconditions hk
      obtain rfl := Except.ok.inj (hcondition.symm.trans hown)
      exact ⟨.inr ⟨found, List.mem_of_getElem? hfound', hp⟩, hfigure, hne⟩

/-! ## Where the elements of a document come from -/

theorem expand_eq_of_findCycle (h : t.findCycle = .ok none) :
    t.expand = List.flatten <$> t.elements.mapM t.expandElement := by
  unfold expand
  rw [h]
  rfl

/-- An element of the document is one of the template or a copy of one of a partial. -/
theorem cases_of_mem_expand (h : t.expand = .ok es) (he : e ∈ es) :
    (e ∈ t.elements ∧ e.content.inclusion? = none) ∨
      ∃ i ∈ t.elements, ∃ name children, i.content.inclusion? = some (.text name) ∧
        t.partials.lookup name = some children ∧ ∃ child ∈ children, cloneChild i child = .ok e := by
  obtain ⟨cycle, -, h⟩ := bind_eq_ok.mp h
  cases cycle with
  | some names => simp at h
  | none =>
    obtain ⟨parts, hparts, h⟩ := bind_eq_ok.mp h
    obtain rfl := Except.ok.inj h
    obtain ⟨part, hpart, hmem⟩ := List.mem_flatten.mp he
    obtain ⟨i, hi, hexpand⟩ := exists_of_mem_of_mapM hparts hpart
    unfold expandElement at hexpand
    split at hexpand
    · rename_i hnone
      obtain rfl := Except.ok.inj hexpand
      obtain rfl := List.mem_singleton.mp hmem
      exact .inl ⟨hi, hnone⟩
    · rename_i ref href
      obtain ⟨found, hfound, hexpand⟩ := bind_eq_ok.mp hexpand
      cases found with
      | none =>
        obtain rfl := Except.ok.inj hexpand
        cases hmem
      | some children =>
        obtain ⟨child, hchild, hclone⟩ := exists_of_mem_of_mapM hexpand hmem
        obtain ⟨name, rfl, hchildren⟩ := partial?_eq_some hfound
        exact .inr ⟨i, hi, name, children, href, hchildren, child, hchild, hclone⟩

/-- The condition of a copy looks data up where that of the inclusion or of the original does. -/
theorem mem_conditionPaths_of_cloneChild (h : cloneChild i child = .ok e) (hp : p ∈ e.conditionPaths) :
    p ∈ i.conditionPaths ∨ p ∈ child.conditionPaths := by
  obtain ⟨condition, hcondition, h⟩ := bind_eq_ok.mp h
  obtain rfl := Except.ok.inj h
  have hstated : Condition.stated ((Value.text condition).orElse .null) = Condition.ofText condition := by
    unfold Value.orElse
    split
    · rfl
    · rename_i hempty
      obtain rfl : condition = "" := by simpa [Value.isGiven] using hempty
      rfl
  unfold Element.conditionPaths at hp
  dsimp only at hp
  rw [hstated, Condition.ofText_of_conjoin hcondition] at hp
  exact Condition.mem_paths_of_both hp

/-- An element of the document has its content from an element that is read, if it is not replaced, and its
condition from there and from an inclusion. -/
theorem exists_origin (hes : t.expand = .ok es) (hread : t.allElements = .ok read) (he : e ∈ es) :
    ∃ o : Element, e.content = o.content ∧ (t.isReplaced o = false → o ∈ read) ∧
      ∀ p ∈ e.conditionPaths, p ∈ o.conditionPaths ∨
        ∃ i ∈ t.elements, t.isReplaced i = true ∧ p ∈ i.conditionPaths := by
  rcases cases_of_mem_expand hes he with ⟨hmem, -⟩ | ⟨i, hi, name, children, href, hchildren, child, hchild, hclone⟩
  · exact ⟨e, rfl, mem_readElements hread hmem, fun p hp => .inl hp⟩
  · refine ⟨child, ?_, mem_allElements_of_inclusion hread hi href hchildren hchild, fun p hp => ?_⟩
    · obtain ⟨condition, -, hcopy⟩ := bind_eq_ok.mp hclone
      rw [← Except.ok.inj hcopy]
    · rcases mem_conditionPaths_of_cloneChild hclone hp with hp | hp
      · exact .inr ⟨i, hi, by simp [isReplaced, href, partial?, hchildren], hp⟩
      · exact .inl hp

/-! ## Templates that are read to the end -/

/-- A template whose conditions are texts or missing and whose references are no lists or objects. -/
@[mk_iff]
structure IsSpelled (t : Template) : Prop where
  refs : ∀ e ∈ t.elements ++ t.partials.flatMap (·.2), ∀ ref ∈ e.content.inclusion?, ref.isContainer = false
  conditions : ∀ e ∈ t.elements ++ t.partials.flatMap (·.2), Condition.IsSpelled e.visibleIf

instance (t : Template) : Decidable t.IsSpelled :=
  decidable_of_iff _ (isSpelled_iff t).symm

theorem exists_partial? {ref : Value} (h : ref.isContainer = false) : ∃ found, t.partial? ref = .ok found := by
  cases ref <;> simp_all [partial?, Value.isContainer]

theorem mem_elements_of_lookup (h : t.partials.lookup name = some children) (hchild : child ∈ children) :
    child ∈ t.elements ++ t.partials.flatMap (·.2) :=
  List.mem_append_right _ (List.mem_flatMap.mpr ⟨(name, children), mem_of_lookup h, hchild⟩)

theorem returns_cloneChild_iff : Returns (cloneChild e child) ↔
    Condition.IsSpelled e.visibleIf ∧ Condition.IsSpelled child.visibleIf := by
  rw [← Condition.returns_conjoin_iff]
  exact ⟨Returns.of_bind, fun h => h.bind fun _ _ => returns_pure _⟩

theorem returns_conditionPaths_iff {v : Value} :
    Returns (Binding.conditionPaths v) ↔ Condition.IsSpelled v := by
  unfold Binding.conditionPaths
  split
  · rename_i s
    exact ⟨fun _ _ => ⟨s, rfl⟩, fun _ => returns_ok _⟩
  · rename_i htext
    exact Condition.returns_unless_given htext _ _

/-- All elements that are read from a template whose references can be looked up are read, and they are
elements of it. -/
theorem exists_readElements {P : Element → Prop}
    (hP : ∀ e, P e → ∀ ref ∈ e.content.inclusion?, ref.isContainer = false)
    (hpartials : ∀ p ∈ t.partials, ∀ e ∈ p.2, P e) (depth : ℕ) (active : List String)
    (elements : List Element) (h : ∀ e ∈ elements, P e) :
    ∃ read, t.readElements depth active elements = .ok read ∧ ∀ e ∈ read, P e := by
  induction depth, active, elements using readElements.induct t with
  | case1 depth active => exact ⟨[], by rw [readElements], by simp⟩
  | case2 depth active e rest hnone ih =>
    obtain ⟨he, hrest⟩ := List.forall_mem_cons.mp h
    obtain ⟨read, hread, hall⟩ := ih hrest
    refine ⟨e :: read, ?_, List.forall_mem_cons.mpr ⟨he, hall⟩⟩
    rw [readElements]
    simp [hnone, hread]
  | case3 depth active e rest ref hsome ih hchildren =>
    obtain ⟨he, hrest⟩ := List.forall_mem_cons.mp h
    obtain ⟨read, hread, hall⟩ := ih hrest
    obtain ⟨found, hfound⟩ := exists_partial? (t := t) (hP e he ref hsome)
    rw [readElements]
    simp only [hsome, hfound, ok_bind, hread]
    have hskip : ∃ all, (.ok ([] ++ read) : Outcome (List Element)) = .ok all ∧ ∀ e ∈ all, P e :=
      ⟨_, rfl, by simpa using hall⟩
    cases found with
    | none => exact ⟨[e] ++ read, by cases ref <;> rfl, List.forall_mem_cons.mpr ⟨he, hall⟩⟩
    | some children =>
      obtain ⟨s, rfl, hlookup⟩ := partial?_eq_some hfound
      cases depth with
      | zero => exact hskip
      | succ depth =>
        dsimp only
        split
        · exact hskip
        · obtain ⟨inside, hinside, hin⟩ := hchildren (some children) (hpartials _ (mem_of_lookup hlookup))
          refine ⟨inside ++ read, by simp [hinside], fun x hx => ?_⟩
          rcases List.mem_append.mp hx with hx | hx
          · exact hin x hx
          · exact hall x hx

theorem returns_discover (h : t.IsSpelled) : Returns t.discover := by
  obtain ⟨read, hread, hall⟩ := exists_readElements (P := (· ∈ t.elements ++ t.partials.flatMap (·.2)))
    (fun e he => h.refs e he) (fun p hp e he => List.mem_append_right _ (List.mem_flatMap.mpr ⟨p, hp, he⟩))
    t.partials.length [] t.elements fun e he => List.mem_append_left _ he
  have hconditions : Returns (read.mapM fun e => Binding.conditionPaths e.visibleIf) :=
    returns_mapM_iff.mpr fun e he => returns_conditionPaths_iff.mpr (h.conditions e (hall e he))
  unfold discover textPaths allElements
  rw [hread, ok_bind, pure_eq_ok, ok_bind, ok_bind]
  exact hconditions.bind fun _ _ => returns_pure _

theorem returns_expand_of_isSpelled (hcycle : t.findCycle = .ok none) (h : t.IsSpelled) : Returns t.expand := by
  have helements : ∀ e ∈ t.elements, Returns (t.expandElement e) := by
    intro e he
    have hmem : e ∈ t.elements ++ t.partials.flatMap (·.2) := List.mem_append_left _ he
    unfold expandElement
    split
    · exact returns_ok _
    · rename_i ref href
      obtain ⟨found, hfound⟩ := exists_partial? (t := t) (h.refs e hmem ref href)
      rw [hfound, ok_bind]
      cases found with
      | none => exact returns_pure _
      | some children =>
        obtain ⟨name, -, hchildren⟩ := partial?_eq_some hfound
        exact returns_mapM_iff.mpr fun child hchild => returns_cloneChild_iff.mpr
          ⟨h.conditions e hmem, h.conditions child (mem_elements_of_lookup hchildren hchild)⟩
  unfold expand
  rw [hcycle, ok_bind]
  exact (returns_mapM_iff.mpr helements).bind fun _ _ => returns_pure _

/-! ## Bringing the contract in line -/

/-- The contract that is brought in line declares the given paths, each as it was declared before. -/
theorem path_of_declared? {c : Contract} {f : ContractField} (h : declared? c p = some f) : f.path = p := by
  simpa using List.find?_some h

theorem declared?_contractFor (c : Contract) (hp : p ∈ ds) :
    declared? (contractFor c ds) p = some ((declared? c p).getD (defaultField p)) := by
  have hpath (q : String) : ((declared? c q).getD (defaultField q)).path = q := by
    cases h : declared? c q with
    | none => rfl
    | some f => exact path_of_declared? h
  have hsome : (declared? (contractFor c ds) p).isSome = true := by
    rw [declared?, List.find?_isSome]
    exact ⟨_, List.mem_reverse.mpr (List.mem_map_of_mem hp), by simp [hpath]⟩
  obtain ⟨f, hf⟩ := Option.isSome_iff_exists.mp hsome
  have hfield := List.mem_reverse.mp (List.mem_of_find?_eq_some hf)
  obtain ⟨q, -, rfl⟩ := List.mem_map.mp hfield
  obtain rfl : q = p := (hpath q).symm.trans (path_of_declared? hf)
  exact hf

/-! ## What a document reads -/

theorem exists_text_of_mem_conditionPaths (h : p ∈ e.conditionPaths) : ∃ s, e.visibleIf = .text s := by
  unfold Element.conditionPaths at h
  cases hcondition : e.visibleIf with
  | text s => exact ⟨s, rfl⟩
  | _ =>
    rw [hcondition] at h
    cases h

theorem rows_mem_discover (hes : t.expand = .ok es) (hds : t.discover = .ok ds) (he : e ∈ es) {table : Table}
    (htable : e.content = .table table) (hplaceholder : Binding.isPlaceholder table.rows = true)
    (hne : Binding.pathOf table.rows ≠ "") (hfigure : isPageFigure (Binding.pathOf table.rows) = false) :
    Binding.pathOf table.rows ∈ ds := by
  obtain ⟨read, hread⟩ := exists_allElements hds
  obtain ⟨o, hcontent, hmem, -⟩ := exists_origin hes hread he
  rw [htable] at hcontent
  have hreplaced : t.isReplaced o = false := by
    rw [isReplaced, ← hcontent]
    rfl
  refine (mem_discover_iff hread hds).mpr ⟨hfigure, hne, o, hmem hreplaced, .inl ?_⟩
  rw [textPathsOf, ← hcontent]
  cases hrows : table.rows with
  | text s =>
    rw [hrows] at hplaceholder
    simpa [Content.bindingFields, hrows] using (Binding.pathOf_mem_pathsOf_iff s).mpr hplaceholder
  | _ => simp [hrows, Binding.isPlaceholder] at hplaceholder

/-- A dotted token of a condition is discovered, unless the condition is that of an inclusion. -/
theorem conditionPath_mem_discover (hes : t.expand = .ok es) (hds : t.discover = .ok ds) (he : e ∈ es)
    (hp : p ∈ e.conditionPaths) (hdotted : Condition.isDotted p = true) (hfigure : isPageFigure p = false) :
    p ∈ ds ∨ ∃ i ∈ t.elements ++ es, t.isReplaced i = true ∧ p ∈ i.conditionPaths := by
  obtain ⟨read, hread⟩ := exists_allElements hds
  obtain ⟨o, hcontent, hmem, hpaths⟩ := exists_origin hes hread he
  cases hreplaced : t.isReplaced e with
  | true => exact .inr ⟨e, List.mem_append_right _ he, hreplaced, hp⟩
  | false =>
    rcases hpaths p hp with hown | ⟨i, hi, hincluded, hp⟩
    · have horigin : t.isReplaced o = false := by rwa [isReplaced, ← hcontent]
      obtain ⟨s, hs⟩ := exists_text_of_mem_conditionPaths hown
      have hfound : Binding.conditionPaths o.visibleIf = Binding.conditionPaths (.text s) := by rw [hs]
      have hne : p ≠ "" := by
        rintro rfl
        exact absurd hdotted (by decide)
      have hfigures : p ≠ Binding.pageNumber ∧ p ≠ Binding.pageCount := by
        simpa [isPageFigure] using hfigure
      refine .inl ((mem_discover_iff hread hds).mpr ⟨hfigure, hne, o, hmem horigin, .inr ⟨_, hfound, ?_⟩⟩)
      rw [Element.conditionPaths, hs] at hown
      exact (Condition.mem_conditionPaths_iff hown rfl).mpr ⟨hdotted, hfigures⟩
    · exact .inr ⟨i, List.mem_append_left _ hi, hincluded, hp⟩

/-- A template without circles whose conditions are texts is discovered and laid out. The path that a table
of the document takes its rows from is discovered, if it is written as a placeholder. So is each path of a
condition that is a dotted token, unless an inclusion's condition looks it up, which is read by no one. What
is discovered stays declared as it is when the contract is brought in line. -/
theorem discover_covers (t : Template) :
    (t.findCycle = .ok none → t.IsSpelled → ∃ es ds, t.expand = .ok es ∧ t.discover = .ok ds) ∧
    ∀ es ds, t.expand = .ok es → t.discover = .ok ds →
      (∀ e ∈ es, ∀ table, e.content = .table table → Binding.isPlaceholder table.rows = true →
        Binding.pathOf table.rows ≠ "" → isPageFigure (Binding.pathOf table.rows) = false →
        Binding.pathOf table.rows ∈ ds) ∧
      (∀ e ∈ es, ∀ p ∈ e.conditionPaths, Binding.isToken p.toList = true → 2 ≤ (Path.segments p).length →
        isPageFigure p = false →
        p ∈ ds ∨ ∃ i ∈ t.elements ++ es, t.isReplaced i = true ∧ p ∈ i.conditionPaths) ∧
      ∃ t', t.syncContract = .ok t' ∧
        ∀ p ∈ ds, declared? t'.contract p = some ((declared? t.contract p).getD (defaultField p)) := by
  refine ⟨fun hcycle hspelled => ?_, fun es ds hes hds => ⟨?_, ?_, ?_⟩⟩
  · obtain ⟨es, hes⟩ := returns_expand_of_isSpelled hcycle hspelled
    obtain ⟨ds, hds⟩ := returns_discover hspelled
    exact ⟨es, ds, hes, hds⟩
  · exact fun e he table htable => rows_mem_discover hes hds he htable
  · exact fun e he p hp htoken hsegments =>
      conditionPath_mem_discover hes hds he hp (Condition.isDotted_of_two_le_segments htoken hsegments)
  · refine ⟨{ t with contract := contractFor t.contract ds }, by rw [syncContract, hds]; rfl, fun p hp => ?_⟩
    exact declared?_contractFor t.contract hp

/-- An element of ten points in the corner of the page. -/
def cornerElement (id : String) (visibleIf : Value) (content : Content) : Element :=
  ⟨id, .null, 0, 0, 10, 10, none, .null, visibleIf, .null, none, none, content⟩

/-- A table without columns. -/
def orderTable (rows tableCondition : Value) : Element :=
  cornerElement "table" tableCondition (.table ⟨rows, [], none, none, none, .null, none, none⟩)

/-- An order with its items in a partial. The rows of the items, the condition of the inclusion and that of
the table itself are left open. -/
def order (rows inclusionCondition tableCondition : Value) : Template where
  page := ⟨100, 100, ⟨0, 0, 0, 0⟩, 0, 0⟩
  id := "order"
  name := ""
  version := .null
  unit := .null
  fonts := []
  styles := []
  contract := [{ path := "customer.vip", required := true }, { path := "order.items", required := true }]
  elements := [cornerElement "included" inclusionCondition (.inclusion (.text "items"))]
  partials := [("items", [orderTable rows tableCondition])]
  settings := []
  pageCount := none

/-- An order with braces around its rows and the condition at the table. -/
def bracedOrder : Template := order (.text "{{order.items}}") .null (.text "customer.vip")

/-- An order without braces around its rows and with the condition at the inclusion. -/
def bareOrder : Template := order (.text "order.items") (.text "customer.vip") .null

theorem findCycle_order (rows inclusionCondition tableCondition : Value) :
    (order rows inclusionCondition tableCondition).findCycle = .ok none :=
  findCycle_of_flat fun p hp => by
    obtain rfl := List.mem_singleton.mp hp
    rfl

theorem allElements_order (rows inclusionCondition tableCondition : Value) :
    (order rows inclusionCondition tableCondition).allElements = .ok [orderTable rows tableCondition] := by
  have hinside : (order rows inclusionCondition tableCondition).readElements 0 ["items"]
      [orderTable rows tableCondition] = .ok [orderTable rows tableCondition] := by
    rw [readElements_cons, readElements]
    rfl
  show readElements _ 1 [] [cornerElement "included" inclusionCondition (.inclusion (.text "items"))] = _
  rw [readElements_cons, readElements, readElement_of_inclusion rfl rfl rfl]
  rw [hinside]
  rfl

/-- Whether an element is a table of the given rows that is shown to certain customers. -/
def readsOrder (rows : String) (e : Element) : Bool :=
  e.conditionPaths.contains "customer.vip" &&
    match e.content with
    | .table table => table.rows.text? == some rows
    | _ => false

theorem exists_of_readsOrder {rows : String} (h : readsOrder rows e = true) :
    "customer.vip" ∈ e.conditionPaths ∧ ∃ table, e.content = .table table ∧ table.rows = .text rows := by
  rw [readsOrder, Bool.and_eq_true, List.contains_iff_mem] at h
  obtain ⟨hcondition, hcontent⟩ := h
  split at hcontent
  · rename_i table htable
    cases hrows : table.rows with
    | text s =>
      rw [hrows] at hcontent
      obtain rfl : s = rows := by simpa [Value.text?] using hcontent
      exact ⟨hcondition, table, htable, hrows⟩
    | _ => simp [hrows, Value.text?] at hcontent
  · cases hcontent

/-- With braces around its rows and the condition at the table, both paths of an order stay declared. -/
theorem discover_covers_order : ∃ es ds t', bracedOrder.expand = .ok es ∧ bracedOrder.discover = .ok ds ∧
    bracedOrder.syncContract = .ok t' ∧ "order.items" ∈ ds ∧ "customer.vip" ∈ ds ∧
    (declared? t'.contract "order.items").any (·.required) = true := by
  obtain ⟨hreturns, hcovers⟩ := discover_covers bracedOrder
  obtain ⟨es, ds, hes, hds⟩ := hreturns (findCycle_order _ _ _) (by decide)
  obtain ⟨hrows, hconditions, t', ht', hdeclared⟩ := hcovers es ds hes hds
  have hread : ∀ es, List.flatten <$> bracedOrder.elements.mapM bracedOrder.expandElement = .ok es →
      (∃ e ∈ es, readsOrder "{{order.items}}" e = true) ∧
      ∀ i ∈ bracedOrder.elements ++ es, bracedOrder.isReplaced i = true → "customer.vip" ∉ i.conditionPaths := by
    decide +kernel
  have hexpand := expand_eq_of_findCycle (t := bracedOrder) (findCycle_order _ _ _)
  rw [← hexpand] at hread
  obtain ⟨⟨e, he, hreads⟩, hnone⟩ := hread es hes
  obtain ⟨hvip, table, htable, htext⟩ := exists_of_readsOrder hreads
  have hitems := hrows e he table htable
  rw [htext] at hitems
  have hitems : "order.items" ∈ ds := hitems (by decide) (by decide) (by decide)
  rcases hconditions e he _ hvip (by decide) (by decide) (by decide) with hcustomer | ⟨i, hi, hreplaced, hpath⟩
  · refine ⟨es, ds, t', hes, hds, ht', hitems, hcustomer, ?_⟩
    rw [hdeclared _ hitems]
    decide
  · exact absurd hpath (hnone i hi hreplaced)

/-- Without braces and with the condition at the inclusion, neither path is discovered, and an order loses
both from its contract although its document reads them. -/
theorem not_discover_covers_order : bareOrder.findCycle = .ok none ∧ bareOrder.IsSpelled ∧
    ∃ es t', bareOrder.expand = .ok es ∧
      (∃ e ∈ es, "customer.vip" ∈ e.conditionPaths ∧
        ∃ table, e.content = .table table ∧ Binding.pathOf table.rows = "order.items") ∧
      bareOrder.discover = .ok [] ∧ bareOrder.syncContract = .ok t' ∧
      bareOrder.contract.map (·.path) = ["customer.vip", "order.items"] ∧ t'.contract = [] := by
  have hread : ∃ es, List.flatten <$> bareOrder.elements.mapM bareOrder.expandElement = .ok es ∧
      ∃ e ∈ es, readsOrder "order.items" e = true := by decide +kernel
  have hexpand := expand_eq_of_findCycle (t := bareOrder) (findCycle_order _ _ _)
  rw [← hexpand] at hread
  obtain ⟨es, hes, e, he, hreads⟩ := hread
  obtain ⟨hvip, table, htable, htext⟩ := exists_of_readsOrder hreads
  have hpath : Binding.pathOf table.rows = "order.items" := by
    rw [htext]
    decide
  have hds : bareOrder.discover = .ok [] := by
    have hread : bareOrder.allElements = _ := allElements_order _ _ _
    unfold discover textPaths
    rw [hread]
    decide +kernel
  exact ⟨findCycle_order _ _ _, by decide, es, _, hes, ⟨e, he, hvip, table, htable, hpath⟩, hds,
    by rw [syncContract, hds]; rfl, rfl, rfl⟩

end Template

end Pagewright
