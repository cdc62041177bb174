import Pagewright.Proofs.Outcome
import Pagewright.Template.Expansion

/-!
# What the search for circles depends on

A circle of partials is found by the names of the partials and the references of their elements. Templates
that agree in these have the same circle, or none (`Template.findCycle_congr`).
-/

namespace Pagewright.Template

open Outcome

variable {t t' : Template} {depth : ℕ}

/-- Templates whose partials have the same names and include the same. -/
structure SameReferences (t t' : Template) : Prop where
  names : t'.partials.map Prod.fst = t.partials.map Prod.fst
  references : ∀ name, (t'.partials.lookup name).map references = (t.partials.lookup name).map references

theorem visitAll_congr
    (h : ∀ chain finished ref, t'.visit depth chain finished ref = t.visit depth chain finished ref)
    (chain finished : List String) (refs : List Value) :
    t'.visitAll depth chain finished refs = t.visitAll depth chain finished refs := by
  induction refs generalizing finished with
  | nil => rw [visitAll, visitAll]
  | cons ref rest ih =>
    rw [visitAll, visitAll, h]
    refine bind_congr fun found => ?_
    cases found with
    | circle names => rfl
    | clear finished => exact ih finished

theorem visit_congr (hsame : SameReferences t t')
    (h : ∀ d < depth, ∀ chain finished refs, t'.visitAll d chain finished refs = t.visitAll d chain finished refs)
    (chain finished : List String) (ref : Value) :
    t'.visit depth chain finished ref = t.visit depth chain finished ref := by
  unfold visit
  cases ref with
  | text name =>
    have hrefs := hsame.references name
    dsimp only
    cases hnew : t'.partials.lookup name with
    | none =>
      cases hold : t.partials.lookup name with
      | none => rfl
      | some elements => simp [hnew, hold] at hrefs
    | some elements' =>
      cases hold : t.partials.lookup name with
      | none => simp [hnew, hold] at hrefs
      | some elements =>
        rw [hnew, hold, Option.map_some, Option.map_some, Option.some.injEq] at hrefs
        cases depth with
        | zero => rfl
        | succ depth => simp only [hrefs, h depth (Nat.lt_succ_self depth)]
  | _ => rfl

/-- Whether partials include each other in a circle depends on their names and references alone. -/
theorem findCycle_congr (h : SameReferences t t') : t'.findCycle = t.findCycle := by
  have hall (depth : ℕ) (chain finished : List String) (refs : List Value) :
      t'.visitAll depth chain finished refs = t.visitAll depth chain finished refs := by
    induction depth using Nat.strongRecOn generalizing chain finished refs with
    | ind depth ih => exact visitAll_congr (visit_congr h ih) chain finished refs
  have hlength : t'.partials.length = t.partials.length := by
    rw [← List.length_map (f := Prod.fst), h.names, List.length_map]
  have hstart : t'.partials.map (fun p => Value.text p.1) = t.partials.map fun p => Value.text p.1 := by
    simpa [List.map_map, Function.comp_def] using congrArg (List.map Value.text) h.names
  rw [findCycle, findCycle, hall, hlength, hstart]

end Pagewright.Template
