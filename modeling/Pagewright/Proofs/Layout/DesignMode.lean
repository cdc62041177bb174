import Pagewright.Proofs.Layout.Alike
import Pagewright.Proofs.Layout.Returns
import Pagewright.Proofs.Template.Circles

/-!
# Laying out without conditions

Conditions can be switched off, as for the design of a template: every element is shown then. The document is
the one that the template makes without its conditions (`Layout.assemble_unconditional`).

Conditions are met twice on the way. Inclusions pass theirs on to the copies of the elements that they bring in;
where the conditions are gone there is nothing to pass on, and the copies are the same but for their conditions
(`Template.expand_unconditional`). And each element is asked whether it is shown, which one without a condition
always is (`Layout.alike_unconditional`).
-/

namespace Pagewright

/-- An element without its condition. -/
def Element.unconditional (e : Element) : Element := { e with visibleIf := .null }

namespace Template

variable {t : Template} {e child : Element}

/-- A template without the conditions of its elements, in partials too. -/
def unconditional (t : Template) : Template :=
  { t with
    elements := t.elements.map Element.unconditional
    partials := t.partials.map fun p => (p.1, p.2.map Element.unconditional) }

theorem lookup_map (f : α → β) (entries : List (String × α)) (name : String) :
    (entries.map fun p => (p.1, f p.2)).lookup name = (entries.lookup name).map f := by
  induction entries with
  | nil => rfl
  | cons p rest ih =>
    rw [List.map_cons, List.lookup_cons, List.lookup_cons, ih]
    split <;> rfl

theorem references_unconditional (elements : List Element) :
    references (elements.map Element.unconditional) = references elements := by
  rw [references, List.filterMap_map]
  rfl

theorem sameReferences_unconditional (t : Template) : SameReferences t t.unconditional where
  names := by simp [unconditional]
  references name := by
    rw [unconditional, lookup_map, Option.map_map]
    congr 1
    exact funext references_unconditional

theorem partial?_unconditional (t : Template) (ref : Value) :
    t.unconditional.partial? ref = Option.map (List.map Element.unconditional) <$> t.partial? ref := by
  cases ref with
  | text name => exact congrArg Except.ok (lookup_map _ t.partials name)
  | _ => rfl

/-! ## Copies -/

theorem cloneChild_unconditional (he : Condition.IsSpelled e.visibleIf) (hchild : Condition.IsSpelled child.visibleIf) :
    Outcome.Rel (fun e e' => e' = e.unconditional) (cloneChild e child)
      (cloneChild e.unconditional child.unconditional) := by
  obtain ⟨condition, hcondition⟩ := Condition.returns_conjoin_iff.mpr ⟨he, hchild⟩
  have hnone : Condition.conjoin e.unconditional.visibleIf child.unconditional.visibleIf = .ok "" := rfl
  rw [cloneChild, cloneChild, hcondition, hnone]
  exact .ok rfl

theorem expandElement_unconditional (he : Condition.IsSpelled e.visibleIf)
    (hchildren : ∀ p ∈ t.partials, ∀ child ∈ p.2, Condition.IsSpelled child.visibleIf) :
    Outcome.Rel (List.Forall₂ fun e e' => e' = e.unconditional) (t.expandElement e)
      (t.unconditional.expandElement e.unconditional) := by
  have hcontent : e.unconditional.content = e.content := rfl
  unfold expandElement
  rw [hcontent]
  cases e.content.inclusion? with
  | none => exact .ok (.cons rfl .nil)
  | some ref =>
    dsimp only
    rw [partial?_unconditional]
    cases hfound : t.partial? ref with
    | error failure => exact .error failure
    | ok found =>
      cases found with
      | none => exact .ok .nil
      | some children =>
        obtain ⟨name, -, hlookup⟩ := partial?_eq_some hfound
        have hspelled := hchildren _ (mem_of_lookup hlookup)
        have hsame : List.Forall₂ (fun c c' => c' = c.unconditional ∧ Condition.IsSpelled c.visibleIf) children
            (children.map Element.unconditional) :=
          List.forall₂_map_right_iff.mpr (List.forall₂_same.mpr fun c hc => ⟨rfl, hspelled c hc⟩)
        exact Outcome.Rel.mapM hsame fun c c' ⟨hc', hc⟩ => hc' ▸ cloneChild_unconditional he hc

/-- A template without its conditions has the same elements but for their conditions. -/
theorem expand_unconditional
    (h : ∀ e ∈ t.elements ++ t.partials.flatMap (·.2), Condition.IsSpelled e.visibleIf) :
    Outcome.Rel (List.Forall₂ fun e e' => e' = e.unconditional) t.expand t.unconditional.expand := by
  have hchildren : ∀ p ∈ t.partials, ∀ child ∈ p.2, Condition.IsSpelled child.visibleIf :=
    fun p hp child hchild => h child (List.mem_append_right _ (List.mem_flatMap.mpr ⟨p, hp, hchild⟩))
  have helements : List.Forall₂ (fun e e' => e' = e.unconditional ∧ Condition.IsSpelled e.visibleIf) t.elements
      t.unconditional.elements :=
    List.forall₂_map_right_iff.mpr (List.forall₂_same.mpr fun e he => ⟨rfl, h e (List.mem_append_left _ he)⟩)
  unfold expand
  rw [findCycle_congr (sameReferences_unconditional t)]
  refine (Outcome.Rel.refl _).bind fun cycle cycle' hcycle => ?_
  subst hcycle
  cases cycle with
  | some names => exact .error _
  | none =>
    have hparts := Outcome.Rel.mapM helements fun e e' ⟨hsame, hspelled⟩ =>
      hsame ▸ expandElement_unconditional hspelled hchildren
    exact hparts.bind fun parts parts' hall => .ok (List.rel_flatten hall)

end Template

namespace Layout

/-- An element without its condition is shown like one whose condition is not asked for. -/
theorem alike_unconditional (data : Value) (e : Element) : Alike data data false true e e.unconditional where
  same := ⟨.null, rfl⟩
  shown := rfl
  texts _ _ _ := rfl
  rows _ _ := rfl

/-- With conditions switched off, a template whose conditions are texts or missing makes the document that it
makes without its conditions. -/
theorem assemble_unconditional {t : Template}
    (h : ∀ e ∈ t.elements ++ t.partials.flatMap (·.2), Condition.IsSpelled e.visibleIf) (data : Value)
    (pages : Option (List Int)) :
    (assemble t data false pages).outcome = (assemble t.unconditional data true pages).outcome := by
  refine assemble_of_alike ((Template.expand_unconditional h).imp fun es es' hall => hall.imp ?_) pages
  rintro e e' rfl
  exact alike_unconditional data e

/-- The mark of a stamp is seen in the design of the order, though the order is not paid. -/
theorem assemble_unconditional_stamp :
    ∃ d, (assemble stampTemplate (.object []) false none).outcome = .ok d ∧
      (assemble stampTemplate.unconditional (.object []) true none).outcome = .ok d ∧
      d.pages.map (fun page => page.body.map Box.id) = [["line", "stamp__mark"]] ∧
      ∃ shown, (assemble stampTemplate (.object []) true none).outcome = .ok shown ∧
        shown.pages.map (fun page => page.body.map Box.id) = [["line"]] := by
  have hcycle : stampTemplate.findCycle = .ok none := Template.findCycle_of_flat (by decide)
  have hdesign : ∃ d, (assemble stampTemplate (.object []) false none).outcome = .ok d ∧
      d.pages.map (fun page => page.body.map Box.id) = [["line", "stamp__mark"]] := by
    unfold assemble Template.expandLogged
    rw [hcycle]
    decide +kernel
  have hshown : ∃ d, (assemble stampTemplate (.object []) true none).outcome = .ok d ∧
      d.pages.map (fun page => page.body.map Box.id) = [["line"]] := by
    unfold assemble Template.expandLogged
    rw [hcycle]
    decide +kernel
  obtain ⟨d, hd, hids⟩ := hdesign
  exact ⟨d, hd, (assemble_unconditional (by decide) (.object []) none).symm.trans hd, hids, hshown⟩

end Layout

end Pagewright
