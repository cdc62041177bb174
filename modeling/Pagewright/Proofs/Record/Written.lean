import Pagewright.Proofs.Record.Home
import Pagewright.Proofs.Record.Lens

/-!
# What is written is read, with shared parts

A write in a record with shared parts is refused where it is refused in the record's tree, and is read back
at its path otherwise (`Represents.assignAt_cases`). That needs the tree: a node on the way is written at the
end of the path only because no node of a tree is below itself.

A heap is flat if all lists and objects are nodes (`Heap.IsFlat`). Adding values and writing keep it flat, and
in a flat heap a slot represents the tree that is read off it.
-/

namespace Pagewright

/-! ## Flat heaps -/

/-- Whether a slot holds no list or object besides a node. -/
def Slot.IsFlat : Slot → Prop
  | leaf v => v.isContainer = false
  | node _ => True

/-- No slot of the heap holds a list or an object besides a node. -/
def Heap.IsFlat (h : Heap) : Prop :=
  ∀ (m : ℕ) (n : Node), h[m]? = some n → ∀ s ∈ n.container.parts, s.IsFlat

theorem Slot.isFlat_node (id : ℕ) : (node id).IsFlat := trivial

theorem Represents.isFlat {h : Heap} {s : Slot} {v : Value} (hv : Represents h s v) : s.IsFlat := by
  cases hv with
  | leaf hv => exact hv
  | node => trivial

namespace Heap.IsFlat

variable {h h' : Heap} {s t new : Slot} {id i d : ℕ} {n : Node} {segment : String} {segs : List String}
variable {v : Value}

theorem empty : Heap.IsFlat #[] := by
  intro m n hn
  simp at hn

theorem put (hflat : h.IsFlat) (hn : h[id]? = some n) (hnew : new.IsFlat) :
    Heap.IsFlat (h.set! id (n.container.put segment i new).toNode) := by
  intro m k hk s hs
  rw [getElem?_set hn] at hk
  split at hk
  · obtain rfl := Option.some.inj hk
    rw [Node.container_toNode] at hs
    rcases Container.mem_parts_put hs with rfl | hs
    · exact hnew
    · exact hflat id n hn s hs
  · exact hflat m k hk s hs

theorem opened (hflat : h.IsFlat) (hn : h[id]? = some n) :
    (h.opened id n.container segment i).IsFlat := by
  refine put (fun m k hk s hs => ?_) ?_ trivial
  · rw [Array.getElem?_push] at hk
    split at hk
    · obtain rfl := Option.some.inj hk
      simp [Node.container, Container.parts] at hs
    · exact hflat m k hk s hs
  · exact getElem?_push_of_some _ hn

theorem assignAt (hflat : h.IsFlat) (hnew : new.IsFlat) (hassign : h.assignAt id new segs = .ok h') :
    h'.IsFlat := by
  induction segs generalizing h id with
  | nil =>
    obtain rfl := Except.ok.inj hassign
    exact hflat
  | cons segment rest ih =>
    cases hn : h[id]? with
    | none =>
      rw [assignAt_of_missing hn] at hassign
      exact Except.ok.inj hassign ▸ hflat
    | some n =>
      cases htarget : n.container.target? segment with
      | error e => simp [assignAt_of_error hn htarget] at hassign
      | ok target =>
        cases target with
        | none =>
          rw [assignAt_of_refused hn htarget] at hassign
          exact Except.ok.inj hassign ▸ hflat
        | some i =>
          cases rest with
          | nil =>
            rw [assignAt_of_last hn htarget] at hassign
            exact Except.ok.inj hassign ▸ hflat.put hn hnew
          | cons s rest =>
            by_cases hpart : ∃ next, n.container.parts[i]? = some (.node next)
            · obtain ⟨next, hnext⟩ := hpart
              rw [assignAt_of_node hn htarget hnext] at hassign
              exact ih hflat hassign
            · rw [assignAt_of_not_node hn htarget fun next hnext => hpart ⟨next, hnext⟩] at hassign
              exact ih (hflat.opened hn) hassign

theorem insert (hflat : h.IsFlat) (v : Value) : (h.insert v).2.IsFlat ∧ (h.insert v).1.IsFlat := by
  have hinserted := inserted_insert h v
  refine ⟨fun m n hn s hs => ?_, hinserted.represents.isFlat⟩
  by_cases hm : m < h.size
  · have hold : h[m]? = some h[m] := Array.getElem?_eq_getElem hm
    obtain rfl := Option.some.inj ((hinserted.grows.keeps m _ hold).symm.trans hn)
    exact hflat m _ hold s hs
  · have hreach := hinserted.reach m (by omega) (Array.getElem?_eq_some_iff.mp hn).1
    obtain ⟨u, hu⟩ := hreach.represents hinserted.represents
    obtain ⟨_, c, rfl, -⟩ := hu.node_inv
    obtain ⟨i, w, -, hw⟩ := hu.exists_part_of_mem hn hs
    exact hw.isFlat

theorem child (hflat : h.IsFlat) (ht : h.child s segment = .ok t) : t.IsFlat := by
  cases s with
  | leaf =>
    obtain rfl := Except.ok.inj ht
    exact rfl
  | node id =>
    cases hn : h[id]? with
    | none =>
      simp only [Heap.child, node?, hn, Except.ok.injEq] at ht
      exact ht ▸ rfl
    | some n =>
      rw [child_eq_get hn, Outcome.bind_eq_ok] at ht
      obtain ⟨_ | u, hget, hu⟩ := ht
      · exact Except.ok.inj hu ▸ rfl
      · obtain ⟨i, -, hpart⟩ := Container.target_of_get hget
        exact Except.ok.inj hu ▸ hflat id n hn u (List.mem_of_getElem? hpart)

theorem walk (hflat : h.IsFlat) (hs : s.IsFlat) (ht : h.walk s segs = .ok t) : t.IsFlat := by
  induction segs generalizing s with
  | nil => exact Except.ok.inj ht ▸ hs
  | cons segment rest ih =>
    rw [Heap.walk] at ht
    split at ht
    · exact Except.ok.inj ht ▸ rfl
    · obtain ⟨u, hu, ht⟩ := Outcome.bind_eq_ok.mp ht
      exact ih (hflat.child hu) ht

theorem find {path : String} (hflat : h.IsFlat) (hs : s.IsFlat) (ht : h.find s path = .ok t) : t.IsFlat := by
  unfold Heap.find at ht
  split at ht
  · exact Except.ok.inj ht ▸ rfl
  · exact hflat.walk hs ht

theorem represents (hflat : h.IsFlat) (hs : s.IsFlat) (hv : h.toValueWithin d s = some v) :
    Represents h s v := by
  induction d generalizing s v with
  | zero =>
    cases s with
    | leaf u =>
      obtain rfl := Option.some.inj hv
      exact .leaf hs
    | node => simp [toValueWithin] at hv
  | succ d ih =>
    cases s with
    | leaf u =>
      obtain rfl := Option.some.inj hv
      exact .leaf hs
    | node id =>
      obtain ⟨n, c, hn, rfl, hshape, hparts⟩ := toValueWithin_node.mp hv
      exact .node hn hshape fun i t u ht hu =>
        ih (hflat id n hn t (List.mem_of_getElem? ht)) (hparts i t u ht hu)

end Heap.IsFlat

/-! ## Writing and reading -/

namespace Represents

variable {h h' : Heap} {id : ℕ} {v : Value} {new : Slot} {segs : List String}

/-- The nodes of smaller trees are closed under going to parts. -/
theorem closed_smaller (h : Heap) (size : ℕ) :
    Closed h {m | ∃ u, Represents h (.node m) u ∧ sizeOf u < size} := by
  rintro m ⟨u, hu, hlt⟩
  obtain ⟨n, c, rfl, hn, -⟩ := hu.node_inv
  refine ⟨n, hn, fun k hk => ?_⟩
  obtain ⟨i, w, hw, hk⟩ := hu.exists_part_of_mem hn hk
  exact ⟨w, hk, (sizeOf_part hw).trans hlt⟩

/-- A write below a part of a tree's node does not change the node. -/
theorem getElem?_of_assignAt_part {n : Node} {c d : Container Value} {i next : ℕ}
    (hv : Represents h (.node id) c.toValue) (hn : h[id]? = some n) (hd : c.parts[i]? = some d.toValue)
    (hnext : Represents h (.node next) d.toValue) (hassign : h.assignAt next new segs = .ok h') :
    h'[id]? = some n := by
  refine (closed_smaller h (sizeOf c.toValue)).assignAt ⟨_, hnext, sizeOf_part hd⟩ hassign ?_ hn
  rintro ⟨u, hu, hlt⟩
  rw [hu.unique hv] at hlt
  exact Nat.lt_irrefl _ hlt

/-- A write leaves the heap as it is if its path is blocked in the tree, and is read back otherwise. -/
theorem assignAt_cases (hv : Represents h (.node id) v) (hsegs : segs ≠ [])
    (hassign : h.assignAt id new segs = .ok h') :
    (v.IsBlocked segs ∧ h' = h) ∨ (¬v.IsBlocked segs ∧ h'.walk (.node id) segs = .ok new) := by
  induction segs generalizing h id v with
  | nil => exact absurd rfl hsegs
  | cons segment rest ih =>
    obtain ⟨n, c, rfl, hn, hshape, hparts⟩ := hv.node_inv
    have htarget := Container.target?_eq hshape segment
    cases hc : c.target? segment with
    | error e => simp [Heap.assignAt_of_error hn (htarget.trans hc)] at hassign
    | ok target =>
      cases target with
      | none =>
        rw [Heap.assignAt_of_refused hn (htarget.trans hc)] at hassign
        refine .inl ⟨Value.isBlocked_cons.mpr (.inl fun i hi => ?_), (Except.ok.inj hassign).symm⟩
        cases hc.symm.trans hi
      | some i =>
        rw [Value.isBlocked_cons_of_target hc]
        -- What is read at a node with a part in the place of the target.
        have hread {h' : Heap} {n' : Node} {s : Slot} (hn' : h'[id]? = some n')
            (htarget' : n'.container.target? segment = .ok (some i))
            (hs : n'.container.parts[i]? = some s) :
            h'.walk (.node id) (segment :: rest) = h'.walk s rest := by
          rw [Heap.walk, Slot.isNull, if_neg Bool.false_ne_true, Heap.child_eq_get hn',
            Container.get_of_target htarget', hs]
          rfl
        have hput (new : Slot) : (n.container.put segment i new).target? segment = .ok (some i) ∧
            (n.container.put segment i new).parts[i]? = some new := by
          refine ⟨Container.target?_put (htarget.trans hc) new, ?_⟩
          rw [Container.getElem?_parts_put (Container.target?_le (htarget.trans hc)), if_pos rfl]
        cases rest with
        | nil =>
          rw [Heap.assignAt_of_last hn (htarget.trans hc)] at hassign
          obtain rfl := Except.ok.inj hassign
          refine .inr ⟨Value.not_isBlocked_nil _, ?_⟩
          rw [hread (by rw [Heap.getElem?_set hn, if_pos rfl]) (by simpa using (hput new).1)
            (by simpa using (hput new).2)]
          rfl
        | cons s rest =>
          rcases part_cases (i := i) hshape hparts with ⟨next, d, hnext, hd, hrep, hcont⟩ | ⟨hnext, -, hcont⟩
          · rw [Heap.assignAt_of_node hn (htarget.trans hc) hnext] at hassign
            have hn' := getElem?_of_assignAt_part hv hn hd hrep hassign
            rw [hcont, hread hn' (htarget.trans hc) hnext]
            exact ih hrep (by simp) hassign
          · rw [Heap.assignAt_of_not_node hn (htarget.trans hc) hnext] at hassign
            -- A write in the new object reaches new nodes only.
            have hlt : id < h.size := (Array.getElem?_eq_some_iff.mp hn).1
            have hopened := Heap.getElem?_opened hn n.container segment i
            have hempty : (h.opened id n.container segment i)[h.size]? = some (.object []) := by
              rw [hopened, if_neg (by omega), if_pos rfl]
            have hfresh : Represents (h.opened id n.container segment i) (.node h.size)
                (Container.object []).toValue :=
              .node hempty rfl fun j s u hs => by simp [Node.container, Container.parts] at hs
            have hclosed : Closed (h.opened id n.container segment i) {h.size} := by
              rintro _ rfl
              exact ⟨_, hempty, by simp [Node.container, Container.parts]⟩
            have hn' : h'[id]? = some (n.container.put segment i (.node h.size)).toNode :=
              hclosed.assignAt rfl hassign (by simp; omega) (by rw [hopened, if_pos rfl])
            rw [hcont]
            rw [hread hn' (by simpa using (hput (.node h.size)).1) (by simpa using (hput (.node h.size)).2)]
            exact .inr ((ih hfresh (by simp) hassign).resolve_left fun h => Value.not_isBlocked_empty _ h.1)

theorem walk_of_isBlocked (hv : Represents h (.node id) v) (hblocked : v.IsBlocked segs)
    (hassign : h.assignAt id new segs = .ok h') : h.walk (.node id) segs = .ok .null := by
  have hsegs : segs ≠ [] := by
    rintro rfl
    exact Value.not_isBlocked_nil v hblocked
  obtain ⟨_, c, rfl, -⟩ := hv.node_inv
  obtain ⟨_, hvalue, -⟩ := (hv.assignAt new .null hsegs).of_ok_left hassign
  obtain ⟨t, ht, hread⟩ := (hv.walk segs).of_ok_right (Value.eq_of_isBlocked hblocked hvalue).2
  generalize hnull : Value.null = u at hread
  cases hread with
  | leaf => rw [ht, ← hnull]; rfl
  | @node _ _ d => cases d <;> cases hnull

end Represents

end Pagewright
