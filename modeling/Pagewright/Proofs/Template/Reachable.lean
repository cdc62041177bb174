import Mathlib.Data.String.Basic
import Pagewright.Proofs.Template.Cycles
import Pagewright.Proofs.Template.Discovery

/-!
# Discovery and reachability

An element is reachable if it stands on the page or in a partial that inclusions lead to. What discovery lists
are the paths of the reachable elements, whether partials are shared, missing or include each other in circles
(`Template.discover_eq_paths_reachable`).

Discovery never enters a partial that is on its way down. That hides nothing: a way to an element that enters
a partial twice can be cut short to its last entry, after which the partial is not entered again
(`ReachedPast.cases_first`), so an element that is reached past the partials on the way is read, by induction
on the depth that is left (`mem_readElements_of_reachedPast`).
-/

namespace Pagewright

/-! ## Sorted texts -/

theorem pairwise_insertSorted {s : String} {ss : List String} (h : ss.Pairwise (· < ·)) :
    (insertSorted s ss).Pairwise (· < ·) := by
  induction ss with
  | nil => exact List.pairwise_singleton _ s
  | cons t rest ih =>
    obtain ⟨hfirst, hrest⟩ := List.pairwise_cons.mp h
    rw [insertSorted]
    split
    · rename_i hlt
      exact List.pairwise_cons.mpr ⟨List.forall_mem_cons.mpr ⟨hlt, fun u hu => hlt.trans (hfirst u hu)⟩, h⟩
    split
    · exact h
    · rename_i hlt hne
      refine List.pairwise_cons.mpr ⟨fun u hu => ?_, ih hrest⟩
      rcases mem_insertSorted.mp hu with rfl | hu
      · exact lt_of_le_of_ne (not_lt.mp hlt) (Ne.symm hne)
      · exact hfirst u hu

theorem pairwise_sortUnique (ss : List String) : (sortUnique ss).Pairwise (· < ·) := by
  induction ss with
  | nil => exact .nil
  | cons s ss ih => exact pairwise_insertSorted ih

namespace Template

open Outcome

variable {t : Template} {depth : ℕ} {active ds : List String} {elements children read here : List Element}
  {e i child : Element} {name p : String}

/-! ## Reachable elements -/

/-- An element that stands on the page or in a partial that a reachable element includes. -/
inductive IsReachable (t : Template) : Element → Prop where
  | top {e : Element} (h : e ∈ t.elements) : IsReachable t e
  | inside {i e : Element} {name : String} {children : List Element} (hi : IsReachable t i)
    (href : i.content.inclusion? = some (.text name)) (hchildren : t.partials.lookup name = some children)
    (h : e ∈ children) : IsReachable t e

/-- An element that is reached from some elements without entering the partials on the way. -/
inductive ReachedPast (t : Template) (active : List String) (elements : List Element) : Element → Prop where
  | here {e : Element} (h : e ∈ elements) : ReachedPast t active elements e
  | inside {i e : Element} {name : String} {children : List Element} (hi : ReachedPast t active elements i)
    (href : i.content.inclusion? = some (.text name)) (hactive : name ∉ active)
    (hchildren : t.partials.lookup name = some children) (h : e ∈ children) : ReachedPast t active elements e

theorem IsReachable.reachedPast (h : t.IsReachable e) : ReachedPast t [] t.elements e := by
  induction h with
  | top h => exact .here h
  | inside _ href hchildren h ih => exact .inside ih href List.not_mem_nil hchildren h

/-- What is reached is there, or it is reached from the partial of one of the elements without entering that
partial again. -/
theorem ReachedPast.cases_first (h : ReachedPast t active elements e) :
    e ∈ elements ∨ ∃ i ∈ elements, ∃ name children, i.content.inclusion? = some (.text name) ∧
      name ∉ active ∧ t.partials.lookup name = some children ∧ ReachedPast t (name :: active) children e := by
  induction h with
  | here h => exact .inl h
  | @inside i e name children _ href hactive hchildren hmem ih =>
    rcases ih with hi | ⟨first, hfirst, entered, inside, hentered, hnew, hinside, hreached⟩
    · exact .inr ⟨i, hi, name, children, href, hactive, hchildren, .here hmem⟩
    · refine .inr ⟨first, hfirst, entered, inside, hentered, hnew, hinside, ?_⟩
      by_cases hagain : name = entered
      · -- The way comes back to the partial that it entered first, and starts there anew.
        subst hagain
        obtain rfl := Option.some.inj (hinside.symm.trans hchildren)
        exact .here hmem
      · exact .inside hreached href (by simp [hagain, hactive]) hchildren hmem

/-! ## What is read -/

/-- What is read in the place of an element: the element itself if it is not replaced, and otherwise what is
read from its partial, or nothing where that is not entered. -/
theorem readElement_cases (h : t.readElement depth active e = .ok here) :
    (t.isReplaced e = false ∧ here = [e]) ∨ here = [] ∨
      ∃ name children d, e.content.inclusion? = some (.text name) ∧ t.partials.lookup name = some children ∧
        t.readElements d (name :: active) children = .ok here ∧ d < depth := by
  unfold readElement at h
  unfold isReplaced
  split at h
  · rename_i hnone
    exact .inl ⟨rfl, (Except.ok.inj h).symm⟩
  · rename_i ref href
    obtain ⟨found, hfound, h⟩ := bind_eq_ok.mp h
    cases found with
    | none => exact .inl ⟨by simp only [hfound], (Except.ok.inj h).symm⟩
    | some children =>
      obtain ⟨name, rfl, hchildren⟩ := partial?_eq_some hfound
      cases depth with
      | zero => exact .inr (.inl (Except.ok.inj h).symm)
      | succ d =>
        dsimp only at h
        split at h
        · exact .inr (.inl (Except.ok.inj h).symm)
        · exact .inr (.inr ⟨name, children, d, href, hchildren, h, Nat.lt_succ_self d⟩)

theorem isReachable_of_mem_readElements (h : t.readElements depth active elements = .ok read)
    (helements : ∀ e ∈ elements, t.IsReachable e) : ∀ e ∈ read, t.IsReachable e ∧ t.isReplaced e = false := by
  induction depth using Nat.strongRecOn generalizing active elements read with
  | ind depth ih =>
    induction elements generalizing read with
    | nil =>
      rw [readElements] at h
      obtain rfl := Except.ok.inj h
      simp
    | cons first rest ihrest =>
      obtain ⟨hfirst, hrest⟩ := List.forall_mem_cons.mp helements
      rw [readElements_cons] at h
      obtain ⟨here, hhere, h⟩ := bind_eq_ok.mp h
      obtain ⟨later, hlater, h⟩ := bind_eq_ok.mp h
      obtain rfl := Except.ok.inj h
      intro e he
      rcases List.mem_append.mp he with he | he
      · rcases readElement_cases hhere with ⟨hreplaced, rfl⟩ | rfl | ⟨name, children, d, href, hchildren, hread, hd⟩
        · obtain rfl := List.mem_singleton.mp he
          exact ⟨hfirst, hreplaced⟩
        · cases he
        · exact ih d hd hread (fun child hchild => hfirst.inside href hchildren hchild) e he
      · exact ihrest hlater hrest e he

/-- What is reached past the partials on the way is read, if it is not replaced. -/
theorem mem_readElements_of_reachedPast (hroom : Room t depth active)
    (h : t.readElements depth active elements = .ok read) (he : ReachedPast t active elements e)
    (hreplaced : t.isReplaced e = false) : e ∈ read := by
  induction depth generalizing active elements read with
  | zero =>
    rcases he.cases_first with he | ⟨i, hi, name, children, href, hnew, hchildren, -⟩
    · exact mem_readElements h he hreplaced
    · obtain ⟨d, hd, -⟩ := hroom.exists_depth (mem_partialNames_iff.mpr ⟨children, hchildren⟩) hnew
      cases hd
  | succ depth ih =>
    rcases he.cases_first with he | ⟨i, hi, name, children, href, hnew, hchildren, hreached⟩
    · exact mem_readElements h he hreplaced
    · obtain ⟨d, hd, hroom'⟩ := hroom.exists_depth (mem_partialNames_iff.mpr ⟨children, hchildren⟩) hnew
      obtain rfl := Nat.succ.inj hd
      obtain ⟨inside, hinside, hmem⟩ :=
        exists_readElements_of_inclusion h hi href hchildren (by simpa using hnew)
      exact hmem e (ih hroom' hinside hreached)

/-- The elements that are read are the reachable ones, except inclusions of partials that are there. -/
theorem mem_allElements_iff (hread : t.allElements = .ok read) :
    e ∈ read ↔ t.IsReachable e ∧ t.isReplaced e = false := by
  have hroom : Room t t.partials.length [] := ⟨List.nodup_nil, List.nil_subset _, by simp [partialNames]⟩
  constructor
  · exact isReachable_of_mem_readElements hread (fun e he => .top he) e
  · rintro ⟨hreachable, hreplaced⟩
    exact mem_readElements_of_reachedPast hroom hread hreachable.reachedPast hreplaced

/-! ## What is discovered -/

/-- The paths of a condition are its tokens with a dot, except the figures of the page. -/
theorem exists_conditionPaths_iff (hnumber : p ≠ Binding.pageNumber) (hcount : p ≠ Binding.pageCount) (v : Value) :
    (∃ found, Binding.conditionPaths v = .ok found ∧ p ∈ found) ↔
      ∃ s, v = .text s ∧ p ∈ Binding.tokens s ∧ '.' ∈ p.toList := by
  cases v with
  | text s =>
    have hreserved (hdot : '.' ∈ p.toList) : Binding.reserved.contains p = false := by
      have hne (word : String) (hword : '.' ∉ word.toList) : p ≠ word := by
        rintro rfl
        exact hword hdot
      simp [Binding.reserved, hnumber, hcount, hne "true" (by decide), hne "false" (by decide),
        hne "exists" (by decide), hne "len" (by decide)]
    simp only [Binding.conditionPaths, Except.ok.injEq, exists_eq_left', List.mem_filter, Bool.and_eq_true,
      List.contains_iff_mem, Bool.not_eq_true', Value.text.injEq]
    exact and_congr_right fun _ => ⟨And.left, fun hdot => ⟨hdot, hreserved hdot⟩⟩
  | _ =>
    constructor
    · rintro ⟨found, hfound, hp⟩
      unfold Binding.conditionPaths at hfound
      dsimp only at hfound
      split at hfound
      · cases hfound
      · obtain rfl := Except.ok.inj hfound
        cases hp
    · rintro ⟨s, hs, -⟩
      cases hs

theorem pairwise_discover (h : t.discover = .ok ds) : ds.Pairwise (· < ·) := by
  obtain ⟨texts, -, h⟩ := bind_eq_ok.mp h
  obtain ⟨all, -, h⟩ := bind_eq_ok.mp h
  obtain ⟨conditions, -, h⟩ := bind_eq_ok.mp h
  obtain rfl := Except.ok.inj h
  exact pairwise_sortUnique _

/-- A template whose conditions are texts or missing and whose references can be looked up is discovered. What
is found is in strict order: the paths in the placeholders of the reachable elements and the dotted tokens of
their conditions, inclusions of partials that are there left out, and without the figures of the page and the
empty path. -/
theorem discover_eq_paths_reachable (t : Template) (h : t.IsSpelled) :
    ∃ ds, t.discover = .ok ds ∧ ds.Pairwise (· < ·) ∧
      ∀ p, p ∈ ds ↔ p ≠ Binding.pageNumber ∧ p ≠ Binding.pageCount ∧ p ≠ "" ∧
        ∃ e, t.IsReachable e ∧ t.isReplaced e = false ∧
          (p ∈ textPathsOf e ∨ ∃ s, e.visibleIf = .text s ∧ p ∈ Binding.tokens s ∧ '.' ∈ p.toList) := by
  obtain ⟨ds, hds⟩ := returns_discover h
  obtain ⟨read, hread⟩ := exists_allElements hds
  refine ⟨ds, hds, pairwise_discover hds, fun p => ?_⟩
  have hfigure : isPageFigure p = false ↔ p ≠ Binding.pageNumber ∧ p ≠ Binding.pageCount := by
    simp [isPageFigure]
  rw [mem_discover_iff hread hds, hfigure, and_assoc]
  refine and_congr_right fun hnumber => and_congr_right fun hcount => and_congr_right fun _ =>
    exists_congr fun e => ?_
  rw [mem_allElements_iff hread, and_assoc, exists_conditionPaths_iff hnumber hcount]

/-- A letter with a greeting and a stamp that is nowhere, for some customers. The greeting leads to a farewell
and the farewell back to the greeting. -/
def circularLetter : Template :=
  { (default : Template) with
    elements := [cornerElement "greeting" .null (.inclusion (.text "greeting")),
      cornerElement "stamp" (.text "customer.vip") (.inclusion (.text "stamp"))]
    partials := [
      ("greeting", [cornerElement "name" .null (.text (.text "Dear {{ customer.name }}") false),
        cornerElement "farewell" (.text "customer.polite") (.inclusion (.text "farewell"))]),
      ("farewell", [cornerElement "greeting" .null (.inclusion (.text "greeting")),
        cornerElement "sender" .null (.text (.text "{{ sender }}, page {{ page.number }}") false)])] }

/-- What the letter reads is discovered in spite of the circle, figures of the page apart. -/
theorem discover_eq_paths_reachable_circularLetter : circularLetter.IsSpelled ∧
    ∃ ds, circularLetter.discover = .ok ds ∧ "customer.name" ∈ ds ∧ "customer.vip" ∈ ds ∧ "sender" ∈ ds ∧
      "page.number" ∉ ds := by
  have hspelled : circularLetter.IsSpelled := by decide
  obtain ⟨ds, hds, -, hmem⟩ := discover_eq_paths_reachable circularLetter hspelled
  have hgreeting : circularLetter.IsReachable (cornerElement "name" .null _) :=
    .inside (.top List.mem_cons_self) rfl rfl List.mem_cons_self
  have hfarewell : circularLetter.IsReachable (cornerElement "sender" .null _) :=
    .inside (.inside (.top List.mem_cons_self) rfl rfl (List.mem_cons_of_mem _ List.mem_cons_self)) rfl rfl
      (List.mem_cons_of_mem _ List.mem_cons_self)
  have hstamp : circularLetter.IsReachable (cornerElement "stamp" (.text "customer.vip") _) :=
    .top (List.mem_cons_of_mem _ List.mem_cons_self)
  refine ⟨hspelled, ds, hds, ?_, ?_, ?_, fun hnumber => ((hmem _).mp hnumber).1 rfl⟩
  · exact (hmem _).mpr ⟨by decide, by decide, by decide, _, hgreeting, rfl, .inl (by decide +kernel)⟩
  · exact (hmem _).mpr ⟨by decide, by decide, by decide, _, hstamp, rfl,
      .inr ⟨_, rfl, by decide +kernel, by decide⟩⟩
  · exact (hmem _).mpr ⟨by decide, by decide, by decide, _, hfarewell, rfl, .inl (by decide +kernel)⟩

end Template

end Pagewright
