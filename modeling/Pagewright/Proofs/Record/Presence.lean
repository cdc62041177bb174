import Pagewright.Proofs.Record.Place

/-!
# Values worth showing

A record has a value at a path when something worth showing is read there. A write of such a value puts
one at its own path, if it has a place, and takes none away except below its path (`Value.HasAt.assign`).
-/

namespace Pagewright

namespace Path

/-- Whether a path leads to something that the other path goes on from. -/
def Above (p q : List String) : Prop := p ≠ [] ∧ p.length < q.length ∧ ¬Diverge p q

theorem Above.cons {a b : String} {p q : List String} (hab : Agree a b) (h : Above p q) :
    Above (a :: p) (b :: q) := by
  obtain ⟨-, hlt, hnot⟩ := h
  refine ⟨by simp, by simpa using hlt, ?_⟩
  rintro ⟨i, x, y, hx, hy, hxy⟩
  cases i with
  | zero =>
    simp only [List.getElem?_cons_zero, Option.some.injEq] at hx hy
    exact hxy (hx ▸ hy ▸ hab)
  | succ i => exact hnot ⟨i, x, y, by simpa using hx, by simpa using hy, hxy⟩

theorem above_singleton {a b : String} {q : List String} (hab : Agree a b) (hq : q ≠ []) :
    Above [a] (b :: q) := by
  refine ⟨by simp, by simpa using List.length_pos_of_ne_nil hq, ?_⟩
  rintro ⟨i, x, y, hx, hy, hxy⟩
  cases i with
  | zero =>
    simp only [List.getElem?_cons_zero, Option.some.injEq] at hx hy
    exact hxy (hx ▸ hy ▸ hab)
  | succ i => simp at hx

end Path

namespace Value

/-- Something worth showing is read at a path. -/
def HasAt (v : Value) (path : String) : Prop := ∃ u, v.find path = .ok u ∧ u.isPresent = true

variable {c : Container Value} {v' new u : Value} {segs others : List String}

/-- What is worth showing remains so along segments that do not go on from the written ones. -/
theorem exists_walk_of_assignAt (h : c.toValue.assignAt new segs = .ok v') (hnew : new.isPresent = true)
    (hnot : ¬Path.Above segs others) (hu : c.toValue.walk others = .ok u)
    (hpresent : u.isPresent = true) :
    ∃ u', v'.walk others = .ok u' ∧ u'.isPresent = true := by
  induction segs generalizing c v' others with
  | nil =>
    obtain rfl := Except.ok.inj h
    exact ⟨u, hu, hpresent⟩
  | cons segment rest ih =>
    cases others with
    | nil =>
      obtain ⟨d, rfl⟩ := exists_toValue_of_assignAt h
      exact ⟨_, rfl, isPresent_toValue d⟩
    | cons other others =>
      obtain ⟨-, rfl⟩ | ⟨i, a, htarget, ha, rfl⟩ := assignAt_cons_cases h
      · exact ⟨u, hu, hpresent⟩
      · rw [walk_cons] at hu ⊢
        rcases child_put htarget a other with ⟨hagree, hput, hold⟩ | hsame
        · rw [hold, Outcome.ok_bind] at hu
          rw [hput, Outcome.ok_bind]
          cases rest with
          | nil =>
            obtain rfl := Except.ok.inj ha
            by_cases hothers : others = []
            · exact ⟨new, by rw [hothers]; rfl, hnew⟩
            · exact absurd (Path.above_singleton hagree hothers) hnot
          | cons s rest =>
            obtain ⟨d, hd⟩ := exists_asContainer ((c.parts[i]?).getD .null)
            rw [assignIn_cons, hd] at ha
            by_cases hothers : others = []
            · obtain ⟨d', rfl⟩ := exists_toValue_of_assignAt ha
              exact ⟨_, by rw [hothers]; rfl, isPresent_toValue d'⟩
            · rw [← walk_asContainer _ hothers, hd] at hu
              exact ih ha (fun habove => hnot (habove.cons hagree)) hu
        · rw [hsame]
          exact ⟨u, hu, hpresent⟩

theorem HasAt.segments_ne_nil {v : Value} {path : String} (h : v.HasAt path) :
    Path.segments path ≠ [] := by
  intro hsegs
  obtain ⟨u, hu, hpresent⟩ := h
  simp only [find, hsegs, Except.ok.injEq] at hu
  simp [← hu, isPresent] at hpresent

/-- A write takes no value away but from paths that go on from its own. -/
theorem HasAt.assign {path other : String} (hat : c.toValue.HasAt other)
    (h : c.toValue.assign path new = .ok v') (hnew : new.isPresent = true)
    (hnot : ¬Path.Above (Path.segments path) (Path.segments other)) : v'.HasAt other := by
  have hsegs := hat.segments_ne_nil
  obtain ⟨u, hu, hpresent⟩ := hat
  rw [find_eq_walk hsegs] at hu
  obtain ⟨u', hu', hpresent'⟩ := exists_walk_of_assignAt h hnew hnot hu hpresent
  exact ⟨u', by rw [find_eq_walk hsegs, hu'], hpresent'⟩

theorem hasAt_of_assign {path : String} (h : c.toValue.assign path new = .ok v')
    (hnew : new.isPresent = true) (hplace : (v'.placeOf? path).isSome = true) : v'.HasAt path := by
  have hsegs : Path.segments path ≠ [] := by
    intro hsegs
    simp [placeOf?, hsegs] at hplace
  rw [placeOf?_eq hsegs] at hplace
  refine ⟨new, ?_, hnew⟩
  cases written_of_assignAt hsegs h with
  | refused _ hnone => simp [hnone] at hplace
  | placed ρ hρ _ hpart => rw [find_eq_walk hsegs, walk_of_place? hρ hpart]

end Value

end Pagewright
