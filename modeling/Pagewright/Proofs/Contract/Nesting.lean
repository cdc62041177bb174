import Pagewright.Proofs.Contract.Plain
import Pagewright.Proofs.Record.Presence

/-!
# Contracts that do not write inward

A held place was reached along the path of a field. A later write changes what is inside only if its own
path goes on from that one, so a contract in which no field's path is above that of a later field disturbs
nothing (`Contract.Plain.undisturbed_of_pairwise`). This can be read off the contract alone, for every
payload.
-/

namespace Pagewright

namespace Container

variable {c : Container Value} {p q : String} {i j : ℕ} {a u : Value}

/-- A write does not renumber the parts that are there. -/
theorem target?_put_of_lt (hp : c.target? p = .ok (some i)) (hq : c.target? q = .ok (some j))
    (hj : j < c.parts.length) (a : Value) : (c.put p i a).target? q = .ok (some j) := by
  by_cases hi : i < c.parts.length
  · -- The key or position is there, so the shape stays.
    have hshape : (c.put p i a).shape = c.shape := by
      rw [shape_put rfl p i a c.parts[i], put_eq_self hp (List.getElem?_eq_getElem hi)]
    rw [target?_eq hshape, hq]
  · obtain rfl : i = c.parts.length := Nat.le_antisymm (target?_le hp) (by omega)
    cases c with
    | list items =>
      simp only [target?, Outcome.bind_eq_ok] at hp
      obtain ⟨n, -, hp⟩ := hp
      cases n with
      | none => simp at hp
      | some n =>
        simp only [Outcome.pure_eq_ok, Except.ok.injEq, Option.ite_none_right_eq_some,
          Option.some.injEq] at hp
        simp only [parts] at hp
        omega
    | object entries =>
      simp only [target?, Except.ok.injEq, Option.some.injEq] at hq
      simp only [parts, List.length_map] at hj
      simp only [put, target?, parts, List.length_map, List.take_length, List.findIdx_append, hq,
        if_pos hj]

end Container

namespace Value

variable {c : Container Value} {v v' new : Value} {segs p q : List String} {ρ σ : List ℕ}

/-- Places that are not written or below stay where their paths lead. -/
theorem place?_of_assignAt (h : c.toValue.assignAt new segs = .ok v') (hplace : v'.place? segs = some ρ)
    (hp : c.toValue.place? p = some σ) (hnot : ¬ρ <+: σ) : v'.place? p = some σ := by
  induction segs generalizing c v' p ρ σ with
  | nil =>
    obtain rfl := Option.some.inj hplace
    exact absurd List.nil_prefix hnot
  | cons segment rest ih =>
    cases p with
    | nil =>
      obtain rfl := Option.some.inj hp
      rfl
    | cons other p =>
      obtain ⟨d, j, u, τ, hd, hother, hu, hτ, rfl⟩ := place?_cons_eq_some hp
      obtain rfl := toValue_injective hd
      obtain ⟨htarget, rfl⟩ | ⟨i, a, htarget, ha, rfl⟩ := assignAt_cons_cases h
      · rw [place?_of_target_none htarget] at hplace
        simp at hplace
      · rw [place?_put htarget, Option.map_eq_some_iff] at hplace
        obtain ⟨ρ, hρ, rfl⟩ := hplace
        have hj : j < c.parts.length := (List.getElem?_eq_some_iff.mp hu).1
        rw [place?_toValue_cons (Container.target?_put_of_lt htarget hother hj a),
          Container.getElem?_parts_put (Container.target?_le htarget)]
        by_cases hji : j = i
        · subst hji
          rw [if_pos rfl, Option.bind_some]
          simp only [List.cons_prefix_cons, true_and] at hnot
          cases rest with
          | nil =>
            obtain rfl := Option.some.inj hρ
            exact absurd List.nil_prefix hnot
          | cons s rest =>
            have hbelow : a.place? p = some τ := by
              cases p with
              | nil =>
                obtain rfl := Option.some.inj hτ
                rfl
              | cons x p =>
                obtain ⟨d, _, _, _, rfl, -⟩ := place?_cons_eq_some hτ
                rw [hu, Option.getD_some, assignIn_cons, asContainer_toValue] at ha
                exact ih ha hρ hτ hnot
            rw [hbelow]
            rfl
        · rw [if_neg hji, hu, Option.bind_some, hτ]
          rfl

/-- A path that leads to a place above another's place is above that path. -/
theorem above_of_place? (hp : v.place? p = some σ) (hq : v.place? q = some ρ) (hpre : σ <+: ρ)
    (hnot : ¬ρ <+: σ) (hne : p ≠ []) : Path.Above p q := by
  induction p generalizing v q σ ρ with
  | nil => exact absurd rfl hne
  | cons a p ih =>
    obtain ⟨c, i, u, σ, rfl, ha, hu, hσ, rfl⟩ := place?_cons_eq_some hp
    cases q with
    | nil =>
      obtain rfl := Option.some.inj hq
      exact absurd List.nil_prefix hnot
    | cons b q =>
      obtain ⟨d, j, w, ρ, hd, hb, hw, hρ, rfl⟩ := place?_cons_eq_some hq
      obtain rfl := toValue_injective hd
      obtain ⟨rfl, hpre'⟩ := List.cons_prefix_cons.mp hpre
      obtain rfl := Option.some.inj (hu.symm.trans hw)
      simp only [List.cons_prefix_cons, true_and] at hnot
      have hagree := Container.agree_of_target ha hb hu
      cases p with
      | nil =>
        obtain rfl := Option.some.inj hσ
        refine Path.above_singleton hagree ?_
        rintro rfl
        obtain rfl := Option.some.inj hρ
        exact hnot (List.prefix_refl _)
      | cons x p => exact (ih hσ hρ hpre' hnot (by simp)).cons hagree

end Value

namespace Contract

namespace Plain

variable {settings : Entries} {payload record record' : Value} {f : ContractField} {r : FieldReport}
variable {held : Set (List ℕ)} {paths : List (List String)}

/-- Every held place is where one of the given paths leads. -/
def HeldAlong (held : Set (List ℕ)) (record : Value) (paths : List (List String)) : Prop :=
  ∀ σ ∈ held, ∃ p ∈ paths, p ≠ [] ∧ record.place? p = some σ

/-- A field that no held path is above leaves the held places as they were, and may hold its own. -/
theorem HeldAlong.step (hheld : HeldAlong held record paths) (hrecord : record.isContainer = true)
    (hnot : ∀ p ∈ paths, ¬Path.Above p (Path.segments f.path))
    (h : step settings payload record f = .ok (record', r)) :
    Quiet held record record' f.path ∧
      HeldAlong (heldBy held record' r) record' (Path.segments f.path :: paths) := by
  obtain ⟨c, rfl⟩ := Value.exists_toValue hrecord
  have hsame (heq : record' = c.toValue) (hby : heldBy held record' r = held) :
      Quiet held c.toValue record' f.path ∧
        HeldAlong (heldBy held record' r) record' (Path.segments f.path :: paths) := by
    subst heq
    refine ⟨Quiet.refl _ _ _, ?_⟩
    rw [hby]
    intro σ hσ
    obtain ⟨p, hp, h⟩ := hheld σ hσ
    exact ⟨p, List.mem_cons_of_mem _ hp, h⟩
  obtain ⟨hpath, ⟨heq, hnull⟩ | ⟨hpresent, -, hassign⟩⟩ := step_cases h
  · exact hsame heq (by simp [heldBy, hnull, Value.isPresent])
  · have hby : heldBy held record' r = heldAlong held record' f.path r.value := by
      rw [heldBy, if_pos hpresent, hpath]
    by_cases hsegs : Path.segments f.path = []
    · rw [Value.assign, hsegs] at hassign
      refine hsame (Except.ok.inj hassign).symm ?_
      simp only [hby, heldAlong, Value.placeOf?, hsegs]
    · have hplaceOf := Value.placeOf?_eq hsegs record'
      cases Value.written_of_assignAt hsegs hassign with
      | refused heq hnone _ => exact hsame heq (by rw [hby, heldAlong, hplaceOf, hnone])
      | placed ρ hplace _ _ hframe =>
        refine ⟨fun ρ' hρ' σ hσ hpre => ?_, ?_⟩
        · rw [hplaceOf, hplace] at hρ'
          obtain rfl := Option.some.inj hρ'
          obtain ⟨p, hp, hne, hσp⟩ := hheld σ hσ
          refine hframe σ hpre fun hσρ => hnot p hp ?_
          have hσp' := Value.place?_of_assignAt hassign hplace hσp hpre
          exact Value.above_of_place? hσp' hplace hσρ hpre hne
        · rw [hby, heldAlong, hplaceOf, hplace]
          rintro σ (⟨hσ, hpre⟩ | ⟨rfl, -⟩)
          · obtain ⟨p, hp, hne, hσp⟩ := hheld σ hσ
            exact ⟨p, List.mem_cons_of_mem _ hp, hne, Value.place?_of_assignAt hassign hplace hσp hpre⟩
          · exact ⟨_, List.mem_cons_self, hsegs, hplace⟩

theorem HeldAlong.undisturbed {contract : Contract} (hheld : HeldAlong held record paths)
    (hrecord : record.isContainer = true)
    (hpaths : ∀ p ∈ paths, ∀ g ∈ contract, ¬Path.Above p (Path.segments g.path))
    (h : contract.Pairwise fun f g => ¬Path.Above (Path.segments f.path) (Path.segments g.path)) :
    Undisturbed settings payload held record contract := by
  induction contract generalizing held record paths with
  | nil => trivial
  | cons f rest ih =>
    intro record' r hstep
    obtain ⟨hf, hrest⟩ := List.pairwise_cons.mp h
    obtain ⟨hquiet, hheld'⟩ :=
      hheld.step hrecord (fun p hp => hpaths p hp f List.mem_cons_self) hstep
    refine ⟨hquiet, ih hheld' (isContainer_of_step hrecord hstep) (fun p hp g hg => ?_) hrest⟩
    rcases List.mem_cons.mp hp with rfl | hp
    · exact hf g hg
    · exact hpaths p hp g (List.mem_cons_of_mem _ hg)

/-- A contract in which no field's path is above that of a later field disturbs nothing. -/
theorem undisturbed_of_pairwise {contract : Contract} (settings payload : Entries)
    (h : contract.Pairwise fun f g => ¬Path.Above (Path.segments f.path) (Path.segments g.path)) :
    Undisturbed settings (.object payload) ∅ (.object payload) contract := by
  have hheld : HeldAlong ∅ (.object payload) [] := fun σ hσ => absurd hσ (Set.notMem_empty σ)
  exact hheld.undisturbed rfl (by simp) h

end Plain

end Contract

end Pagewright
