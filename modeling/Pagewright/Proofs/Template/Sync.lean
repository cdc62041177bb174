import Pagewright.Proofs.Contract.Documents
import Pagewright.Proofs.Template.Circles
import Pagewright.Proofs.Template.Reachable

/-!
# Bringing a contract in line

`Template.syncContract` gives a template the contract that declares exactly the paths it reads.

1. What a template reads and what it is expanded to do not depend on its contract (`discover_withContract`,
   `expandLogged_withContract`). So a template that was brought in line is in line.
2. The new contract has one field for each path, in the order of the paths: the field that was declared last for
   it, or the default (`map_path_contractFor`, `declared?_contractFor`). It is what one gets by keeping the fields
   that are still read, adding defaults for new paths and sorting by path (`contractFor_eq_of_perm`).
3. The contract of a template comes from one entry of its document, and nothing else does (`ofValue_set`). So a
   document with the new contract in it is that of the template with the new contract.
-/

namespace Pagewright

open Outcome

namespace Template

variable {t t' : Template} {ds : List String} {c : Contract} {p : String} {document : Entries}

/-! ## Templates with another contract -/

/-- A template with another contract. -/
def withContract (t : Template) (c : Contract) : Template := { t with contract := c }

@[simp] theorem contract_withContract (t : Template) (c : Contract) : (t.withContract c).contract = c := rfl

theorem expandLogged_withContract (t : Template) (c : Contract) :
    (t.withContract c).expandLogged = t.expandLogged := by
  have hsame : SameReferences t (t.withContract c) := ⟨rfl, fun _ => rfl⟩
  unfold expandLogged
  rw [findCycle_congr hsame]
  rfl

theorem readElements_withContract (t : Template) (c : Contract) (depth : ℕ) (active : List String)
    (elements : List Element) :
    (t.withContract c).readElements depth active elements = t.readElements depth active elements := by
  induction depth using Nat.strongRecOn generalizing active elements with
  | ind depth ih =>
    have hone (e : Element) : (t.withContract c).readElement depth active e = t.readElement depth active e := by
      unfold readElement
      cases e.content.inclusion? with
      | none => rfl
      | some ref =>
        refine bind_congr (x := t.partial? ref) fun found => ?_
        cases found with
        | none => rfl
        | some children =>
          cases ref with
          | text name =>
            cases depth with
            | zero => rfl
            | succ depth =>
              dsimp only
              rw [ih depth (Nat.lt_succ_self depth)]
          | _ => rfl
    induction elements with
    | nil => rw [readElements, readElements]
    | cons e rest ihrest => rw [readElements_cons, readElements_cons, hone, ihrest]

theorem textPaths_withContract (t : Template) (c : Contract) : (t.withContract c).textPaths = t.textPaths := by
  unfold textPaths allElements
  rw [readElements_withContract]
  rfl

theorem discover_withContract (t : Template) (c : Contract) : (t.withContract c).discover = t.discover := by
  unfold discover
  rw [textPaths_withContract]
  unfold allElements
  rw [readElements_withContract]
  rfl

theorem readElements_of_plain {elements : List Element} (h : ∀ e ∈ elements, e.content.inclusion? = none)
    (depth : ℕ) (active : List String) : t.readElements depth active elements = .ok elements := by
  induction elements with
  | nil => rw [readElements]
  | cons e rest ih =>
    obtain ⟨he, hrest⟩ := List.forall_mem_cons.mp h
    have hone : t.readElement depth active e = .ok [e] := by
      rw [readElement, he]
    rw [readElements_cons, hone, ih hrest]
    rfl

/-- Where nothing is included, the elements themselves are searched for paths. -/
theorem discover_of_plain (h : ∀ e ∈ t.elements, e.content.inclusion? = none) :
    t.discover = do
      let conditions ← t.elements.mapM fun e => Binding.conditionPaths e.visibleIf
      return sortUnique ((t.elements.flatMap textPathsOf ++ conditions.flatten).filter fun p =>
        !isPageFigure p && !p.isEmpty) := by
  have hall : t.allElements = .ok t.elements := readElements_of_plain h _ _
  rw [discover, textPaths, hall]
  rfl

theorem syncContract_eq (h : t.discover = .ok ds) :
    t.syncContract = .ok (t.withContract (contractFor t.contract ds)) := by
  rw [syncContract, h]
  rfl

/-! ## The contract for some paths -/

theorem path_getD_declared? (c : Contract) (p : String) : ((declared? c p).getD (defaultField p)).path = p := by
  cases h : declared? c p with
  | none => rfl
  | some f => exact path_of_declared? h

theorem map_path_contractFor (c : Contract) (ds : List String) : (contractFor c ds).map (·.path) = ds := by
  rw [contractFor, List.map_map]
  exact (List.map_congr_left fun p _ => path_getD_declared? c p).trans (List.map_id ds)

/-- What holds of all declared fields and of the default ones holds of those of the new contract. -/
theorem forall_mem_contractFor {P : ContractField → Prop} (hdeclared : ∀ f ∈ c, P f)
    (hdefault : ∀ p ∈ ds, P (defaultField p)) : ∀ f ∈ contractFor c ds, P f := by
  intro f hf
  obtain ⟨p, hp, rfl⟩ := List.mem_map.mp hf
  cases h : declared? c p with
  | none => exact hdefault p hp
  | some f => exact hdeclared f (List.mem_reverse.mp (List.mem_of_find?_eq_some h))

theorem mem_contractFor_of_last {before after : Contract} {f : ContractField} (hpath : f.path ∈ ds)
    (hlast : ∀ g ∈ after, g.path ≠ f.path) : f ∈ contractFor (before ++ f :: after) ds := by
  have hdeclared : declared? (before ++ f :: after) f.path = some f := by
    have hafter : after.reverse.find? (fun g => g.path == f.path) = none :=
      List.find?_eq_none.mpr fun g hg => by simpa using hlast g (List.mem_reverse.mp hg)
    rw [declared?, List.reverse_append, List.reverse_cons, List.append_assoc, List.find?_append, hafter]
    simp
  exact List.mem_map.mpr ⟨f.path, hpath, by rw [hdeclared, Option.getD_some]⟩

theorem mem_contractFor_of_undeclared (hp : p ∈ ds) (hnone : ∀ f ∈ c, f.path ≠ p) :
    defaultField p ∈ contractFor c ds := by
  have hdeclared : declared? c p = none :=
    List.find?_eq_none.mpr fun f hf => by simpa using hnone f (List.mem_reverse.mp hf)
  exact List.mem_map.mpr ⟨p, hp, by rw [hdeclared, Option.getD_none]⟩

theorem contractFor_contractFor (c : Contract) (ds : List String) :
    contractFor (contractFor c ds) ds = contractFor c ds :=
  List.map_congr_left fun p hp => by rw [declared?_contractFor c hp, Option.getD_some]

theorem syncContract_withContractFor (h : t.discover = .ok ds) :
    (t.withContract (contractFor t.contract ds)).syncContract =
      .ok (t.withContract (contractFor t.contract ds)) := by
  rw [syncContract_eq ((discover_withContract t _).trans h)]
  show Except.ok (t.withContract (contractFor (contractFor t.contract ds) ds)) = _
  rw [contractFor_contractFor]

/-- The fields that are kept and those that are added. -/
theorem perm_contractFor (c : Contract) (ds : List String) :
    (ds.filterMap (declared? c) ++ (ds.filter fun p => (declared? c p).isNone).map defaultField).Perm
      (contractFor c ds) := by
  induction ds with
  | nil => exact .refl _
  | cons p rest ih =>
    unfold contractFor at ih ⊢
    cases h : declared? c p with
    | none =>
      simp only [List.filterMap_cons, h, List.filter_cons, Option.isNone_none, if_true, List.map_cons,
        Option.getD_none]
      exact List.perm_middle.trans (ih.cons _)
    | some f =>
      simp only [List.filterMap_cons, h, List.filter_cons, Option.isNone_some, Bool.false_eq_true, if_false,
        List.cons_append, List.map_cons, Option.getD_some]
      exact ih.cons _

/-- Sorted by path, the fields that are kept and those that are added are the contract for the paths. -/
theorem contractFor_eq_of_perm (hds : ds.Pairwise (· < ·)) {fields : Contract}
    (hperm : fields.Perm (ds.filterMap (declared? c) ++ (ds.filter fun p => (declared? c p).isNone).map defaultField))
    (hsorted : fields.Pairwise fun f g => f.path ≤ g.path) : fields = contractFor c ds := by
  have hmerged : fields.Perm (contractFor c ds) := hperm.trans (perm_contractFor c ds)
  have hpaths : fields.map (·.path) = ds := by
    have hpaths : (fields.map (·.path)).Perm ds := map_path_contractFor c ds ▸ hmerged.map (·.path)
    exact hpaths.eq_of_pairwise (fun a b _ _ => le_antisymm) (List.pairwise_map.mpr hsorted) (hds.imp le_of_lt)
  have hfields : ∀ f ∈ fields, (declared? c f.path).getD (defaultField f.path) = f := by
    intro f hf
    obtain ⟨p, -, rfl⟩ := List.mem_map.mp (hmerged.subset hf)
    rw [path_getD_declared?]
  rw [contractFor, ← hpaths, List.map_map]
  exact (List.map_id fields).symm.trans (List.map_congr_left fun f hf => (hfields f hf).symm)

/-! ## Templates as documents -/

theorem exists_object_of_ofValue {v : Value} (h : ofValue v = .ok t) : ∃ document, v = .object document := by
  unfold ofValue at h
  split at h
  · exact ⟨_, rfl⟩
  · cases h

/-- Nothing but the contract of a template comes from the contract of its document. -/
theorem ofValue_set (h : ofValue (.object document) = .ok t) (v : Value) :
    ofValue (.object (document.set "dataContract" v)) = .ok (t.withContract (Reading.contract v)) := by
  have hother {key : String} (hkey : "dataContract" ≠ key) :
      Entries.get (document.set "dataContract" v) key = Entries.get document key :=
    Entries.get_set_of_ne hkey document v
  unfold ofValue at h ⊢
  dsimp only at h ⊢
  rw [hother (by decide)]
  split at h
  · obtain ⟨partials, hpartials, h⟩ := bind_eq_ok.mp h
    obtain ⟨styles, hstyles, h⟩ := bind_eq_ok.mp h
    obtain ⟨pageCount, hpageCount, h⟩ := bind_eq_ok.mp h
    obtain ⟨page, hpage, h⟩ := bind_eq_ok.mp h
    obtain ⟨items, hitems, h⟩ := bind_eq_ok.mp h
    obtain ⟨fonts, hfonts, h⟩ := bind_eq_ok.mp h
    obtain ⟨elements, helements, h⟩ := bind_eq_ok.mp h
    obtain ⟨settings, hsettings, h⟩ := bind_eq_ok.mp h
    obtain rfl := Except.ok.inj h
    -- The parts are read in their order, then come the entries that need no reading.
    rw [hpartials, ok_bind, hother (by decide), hstyles, ok_bind, hother (by decide), hpageCount, ok_bind,
      hother (by decide), hpage, ok_bind, hother (by decide), hitems, ok_bind, hfonts, ok_bind,
      hother (by decide), helements, ok_bind, hother (by decide), hsettings, ok_bind]
    simp only [hother (by decide : "dataContract" ≠ "id"), hother (by decide : "dataContract" ≠ "name"),
      hother (by decide : "dataContract" ≠ "version"), hother (by decide : "dataContract" ≠ "unit"),
      Entries.get_set_self]
    rfl
  · cases h

end Template

end Pagewright
