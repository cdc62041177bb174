import Mathlib.Data.Finset.Card
import Mathlib.Data.Set.Basic
import Pagewright.Proofs.Record.Place

/-!
# Slots as trees

`Represents h s v` says that the slot `s` stands for the tree `v`. A slot stands for one tree at most
(`Represents.unique`), `Heap.toValue` finds it (`Represents.toValue_eq`), and reading along a path gives
slots and trees in step (`Represents.find`). A tree is no deeper than there are nodes because a node on
the way down stands for a smaller tree than those above it, and so is another one.
-/

namespace Pagewright

/-- A slot stands for a tree. -/
inductive Represents (h : Heap) : Slot → Value → Prop where
  | leaf {v : Value} (hv : v.isContainer = false) : Represents h (.leaf v) v
  | node {id : ℕ} {n : Node} {c : Container Value} (hn : h[id]? = some n)
      (hshape : n.container.shape = c.shape)
      (hparts : ∀ (i : ℕ) (s : Slot) (u : Value), n.container.parts[i]? = some s → c.parts[i]? = some u →
        Represents h s u) : Represents h (.node id) c.toValue

namespace Represents

variable {h h' : Heap} {s : Slot} {v w : Value} {id : ℕ}

theorem null : Represents h .null .null := .leaf rfl

theorem node_inv (hv : Represents h (.node id) v) :
    ∃ (n : Node) (c : Container Value), v = c.toValue ∧ h[id]? = some n ∧ n.container.shape = c.shape ∧
      ∀ (i : ℕ) (s : Slot) (u : Value), n.container.parts[i]? = some s → c.parts[i]? = some u →
        Represents h s u := by
  cases hv with
  | node hn hshape hparts => exact ⟨_, _, rfl, hn, hshape, hparts⟩

theorem toValue_inv {c : Container Value} (hv : Represents h s c.toValue) :
    ∃ (id : ℕ) (n : Node), s = .node id ∧ h[id]? = some n ∧ n.container.shape = c.shape ∧
      ∀ (i : ℕ) (s : Slot) (u : Value), n.container.parts[i]? = some s → c.parts[i]? = some u →
        Represents h s u := by
  cases s with
  | leaf w =>
    generalize hw : c.toValue = v at hv
    cases hv with
    | leaf hv => simp [← hw] at hv
  | node id =>
    obtain ⟨n, d, hd, hn, hshape, hparts⟩ := hv.node_inv
    obtain rfl := Value.toValue_injective hd
    exact ⟨id, n, rfl, hn, hshape, hparts⟩

/-- Where a node has a part, its tree has one, and the other way round. -/
theorem exists_part {c : Container Slot} {d : Container Value} (hshape : c.shape = d.shape) {i : ℕ} :
    (∃ s u, c.parts[i]? = some s ∧ d.parts[i]? = some u) ∨ (c.parts[i]? = none ∧ d.parts[i]? = none) := by
  have hlength := Container.length_parts_eq hshape
  by_cases hi : i < c.parts.length
  · exact .inl ⟨_, _, List.getElem?_eq_getElem hi, List.getElem?_eq_getElem (hlength ▸ hi)⟩
  · exact .inr ⟨List.getElem?_eq_none (by omega), List.getElem?_eq_none (by omega)⟩

theorem exists_part_of_mem {n : Node} {c : Container Value} (hv : Represents h (.node id) c.toValue)
    (hn : h[id]? = some n) (hs : s ∈ n.container.parts) :
    ∃ (i : ℕ) (u : Value), c.parts[i]? = some u ∧ Represents h s u := by
  obtain ⟨n', d, hd, hn', hshape, hparts⟩ := hv.node_inv
  obtain rfl := Option.some.inj (hn.symm.trans hn')
  obtain rfl := Value.toValue_injective hd
  obtain ⟨i, hi⟩ := List.mem_iff_getElem?.mp hs
  rcases exists_part hshape (i := i) with ⟨t, u, ht, hu⟩ | ⟨hnone, -⟩
  · obtain rfl := Option.some.inj (hi.symm.trans ht)
    exact ⟨i, u, hu, hparts i s u hi hu⟩
  · simp [hi] at hnone

theorem unique (hv : Represents h s v) (hw : Represents h s w) : v = w := by
  induction hv generalizing w with
  | leaf => cases hw; rfl
  | node hn hshape hparts ih =>
    obtain ⟨n, c, rfl, hn', hshape', hparts'⟩ := hw.node_inv
    obtain rfl := Option.some.inj (hn.symm.trans hn')
    refine congrArg _ (Container.ext_of_shape (hshape.symm.trans hshape') (List.ext_getElem? fun i => ?_))
    rcases exists_part hshape (i := i) with ⟨s, u, hs, hu⟩ | ⟨hs, hu⟩
    · rcases exists_part hshape' (i := i) with ⟨s', u', hs', hu'⟩ | ⟨hs', -⟩
      · obtain rfl := Option.some.inj (hs.symm.trans hs')
        rw [hu, hu', ih i s u hs hu (hparts' i s u' hs hu')]
      · simp [hs] at hs'
    · rcases exists_part hshape' (i := i) with ⟨s', u', hs', -⟩ | ⟨-, hu'⟩
      · simp [hs] at hs'
      · rw [hu, hu']

theorem isNull_eq (hv : Represents h s v) : s.isNull = v.isNull := by
  cases hv with
  | leaf => rfl
  | node => simp [Slot.isNull]

theorem isPresent_eq (hv : Represents h s v) : s.isPresent = v.isPresent := by
  cases hv with
  | leaf => rfl
  | node => simp [Slot.isPresent]

/-! ## Reading -/

theorem child (hv : Represents h s v) (segment : String) :
    Outcome.Rel (Represents h) (h.child s segment) (v.child segment) := by
  cases hv with
  | leaf hv =>
    have hchild : v.child segment = .ok .null := by
      cases v <;> simp_all [Value.isContainer, Value.child]
    rw [hchild]
    exact .ok null
  | @node id n c hn hshape hparts =>
    rw [Heap.child_node hn, Value.child_toValue, Container.target?_eq hshape]
    refine Outcome.Rel.bind (Outcome.Rel.refl _) fun target _ htarget => ?_
    subst htarget
    cases target with
    | none => exact .ok null
    | some i =>
      rcases exists_part hshape (i := i) with ⟨s, u, hs, hu⟩ | ⟨hs, hu⟩
      · simp only [hs, hu]
        exact .ok (hparts i s u hs hu)
      · simp only [hs, hu]
        exact .ok null

theorem walk (hv : Represents h s v) (segs : List String) :
    Outcome.Rel (Represents h) (h.walk s segs) (v.walk segs) := by
  induction segs generalizing s v with
  | nil => exact .ok hv
  | cons segment rest ih =>
    rw [Heap.walk, Value.walk, hv.isNull_eq]
    split
    · exact .ok null
    · exact Outcome.Rel.bind (hv.child segment) fun _ _ hu => ih hu

theorem find (hv : Represents h s v) (path : String) :
    Outcome.Rel (Represents h) (h.find s path) (v.find path) := by
  unfold Heap.find Value.find
  cases Path.segments path with
  | nil => exact .ok null
  | cons segment rest => exact hv.walk (segment :: rest)

end Represents

/-! ## Reading a tree off the heap -/

theorem mapM_eq_some {f : α → Option β} {xs : List α} {ys : List β} :
    xs.mapM f = some ys ↔ List.Forall₂ (fun x y => f x = some y) xs ys := by
  induction xs generalizing ys with
  | nil => simp [eq_comm]
  | cons x xs ih =>
    simp only [List.mapM_cons, Option.bind_eq_bind, Option.bind_eq_some_iff, ih, Option.pure_def,
      Option.some.injEq]
    constructor
    · rintro ⟨y, hy, ys, hys, rfl⟩
      exact .cons hy hys
    · rintro (_ | ⟨hy, hys⟩)
      exact ⟨_, hy, _, hys, rfl⟩

theorem forall₂_iff_getElem? {R : α → β → Prop} {xs : List α} {ys : List β} :
    List.Forall₂ R xs ys ↔ xs.length = ys.length ∧
      ∀ (i : ℕ) (x : α) (y : β), xs[i]? = some x → ys[i]? = some y → R x y := by
  rw [List.forall₂_iff_get]
  refine and_congr_right fun _ => ⟨fun hall i x y hx hy => ?_, fun hall i hi hi' => ?_⟩
  · obtain ⟨hi, rfl⟩ := List.getElem?_eq_some_iff.mp hx
    obtain ⟨hi', rfl⟩ := List.getElem?_eq_some_iff.mp hy
    exact hall i hi hi'
  · exact hall i _ _ (List.getElem?_eq_getElem hi) (List.getElem?_eq_getElem hi')

namespace Container

/-- A container with every part changed by an operation that may give nothing. -/
def mapParts? (f : α → Option β) : Container α → Option (Container β)
  | list items => do return list (← items.mapM f)
  | object entries => do return object (← entries.mapM fun (k, a) => do return (k, ← f a))

theorem shape_eq_iff {c : Container α} {d : Container β} :
    c.shape = d.shape ↔ match c, d with
      | list xs, list ys => xs.length = ys.length
      | object xs, object ys => xs.map Prod.fst = ys.map Prod.fst
      | _, _ => False := by
  cases c <;> cases d <;> simp only [shape, reduceCtorEq, list.injEq, object.injEq]
  · simp [List.map_const', List.replicate_inj]
  · rename_i xs ys
    constructor
    · intro h
      simpa [Function.comp_def] using congrArg (List.map Prod.fst) h
    · intro h
      simpa [Function.comp_def] using congrArg (List.map fun k => (k, ())) h

theorem mapParts?_eq_some {f : α → Option β} {c : Container α} {d : Container β} :
    c.mapParts? f = some d ↔ c.shape = d.shape ∧
      ∀ (i : ℕ) (a : α) (b : β), c.parts[i]? = some a → d.parts[i]? = some b → f a = some b := by
  rw [shape_eq_iff]
  cases c <;> cases d <;> simp only [mapParts?, parts, Option.bind_eq_bind, Option.bind_eq_some_iff,
    Option.pure_def, Option.some.injEq, reduceCtorEq, and_false, exists_false, false_and, list.injEq,
    object.injEq, exists_eq_right]
  · rw [mapM_eq_some, forall₂_iff_getElem?]
  · rename_i xs ys
    rw [mapM_eq_some, forall₂_iff_getElem?]
    constructor
    · rintro ⟨hlength, hall⟩
      refine ⟨?_, fun i a b ha hb => ?_⟩
      · refine List.ext_getElem? fun i => ?_
        by_cases hi : i < xs.length
        · have hi' : i < ys.length := by omega
          obtain ⟨b, -, hb⟩ := Option.bind_eq_some_iff.mp
            (hall i _ _ (List.getElem?_eq_getElem hi) (List.getElem?_eq_getElem hi'))
          simp [hi, hi', ← Option.some.inj hb]
        · rw [List.getElem?_eq_none (by simp; omega), List.getElem?_eq_none (by simp; omega)]
      · simp only [List.getElem?_map, Option.map_eq_some_iff] at ha hb
        obtain ⟨x, hx, rfl⟩ := ha
        obtain ⟨y, hy, rfl⟩ := hb
        obtain ⟨b, hb, heq⟩ := Option.bind_eq_some_iff.mp (hall i x y hx hy)
        rw [hb, ← Option.some.inj heq]
    · rintro ⟨hkeys, hall⟩
      refine ⟨by simpa using congrArg List.length hkeys, fun i x y hx hy => ?_⟩
      have hkey := congrArg (fun l => l[i]?) hkeys
      simp only [List.getElem?_map, hx, hy, Option.map_some, Option.some.injEq] at hkey
      have hpart := hall i x.2 y.2 (by simp [hx]) (by simp [hy])
      rw [hpart]
      exact congrArg some (Prod.ext hkey rfl)

end Container

namespace Heap

variable {h : Heap} {s t : Slot} {v w : Value} {id d e : ℕ}

theorem toValueWithin_leaf (h : Heap) (d : ℕ) (v : Value) : h.toValueWithin d (.leaf v) = some v := by
  cases d <;> rfl

/-- A node has the tree of a container with its shape and the trees of its parts. -/
theorem toValueWithin_node :
    h.toValueWithin (d + 1) (.node id) = some v ↔ ∃ (n : Node) (c : Container Value), h[id]? = some n ∧
      v = c.toValue ∧ n.container.shape = c.shape ∧
      ∀ (i : ℕ) (s : Slot) (u : Value), n.container.parts[i]? = some s → c.parts[i]? = some u →
        h.toValueWithin d s = some u := by
  have hstep : h.toValueWithin (d + 1) (.node id) =
      h[id]?.bind fun n => (n.container.mapParts? (h.toValueWithin d)).map Container.toValue := by
    rw [toValueWithin]
    cases h[id]? with
    | none => rfl
    | some n =>
      cases n <;>
        simp [Node.container, Container.mapParts?, Container.toValue, Option.map_bind, Function.comp_def]
  rw [hstep]
  simp only [Option.bind_eq_some_iff, Option.map_eq_some_iff, Container.mapParts?_eq_some]
  constructor
  · rintro ⟨n, hn, c, ⟨hshape, hparts⟩, rfl⟩
    exact ⟨n, c, hn, rfl, hshape, hparts⟩
  · rintro ⟨n, c, hn, rfl, hshape, hparts⟩
    exact ⟨n, hn, c, ⟨hshape, hparts⟩, rfl⟩

theorem toValueWithin_mono (hv : h.toValueWithin d s = some v) (hle : d ≤ e) :
    h.toValueWithin e s = some v := by
  induction d generalizing s v e with
  | zero =>
    cases s with
    | leaf u => rwa [toValueWithin_leaf] at hv ⊢
    | node id => simp [toValueWithin] at hv
  | succ d ih =>
    cases s with
    | leaf u => rwa [toValueWithin_leaf] at hv ⊢
    | node id =>
      obtain ⟨e, rfl⟩ : ∃ e', e = e' + 1 := ⟨e - 1, by omega⟩
      obtain ⟨n, c, hn, rfl, hshape, hparts⟩ := toValueWithin_node.mp hv
      exact toValueWithin_node.mpr ⟨n, c, hn, rfl, hshape,
        fun i s u hs hu => ih (hparts i s u hs hu) (by omega)⟩

theorem toValueWithin_unique (hv : h.toValueWithin d s = some v) (hw : h.toValueWithin e s = some w) :
    v = w := by
  have hv' := toValueWithin_mono hv (Nat.le_max_left d e)
  have hw' := toValueWithin_mono hw (Nat.le_max_right d e)
  exact Option.some.inj (hv'.symm.trans hw')

theorem toValueWithin_of_toValue (hv : h.toValue s = .ok v) : h.toValueWithin h.size s = some v := by
  unfold toValue at hv
  split at hv
  · rename_i w hw
    rw [hw, Except.ok.inj hv]
  · simp [undefinedOn] at hv

/-- The slot at a place below a slot. -/
def part? (h : Heap) (s : Slot) : List ℕ → Option Slot
  | [] => some s
  | i :: rest => do
    let n ← h.node? s
    let t ← n.container.parts[i]?
    h.part? t rest

theorem part?_node {n : Node} (hn : h[id]? = some n) (i : ℕ) (ρ : List ℕ) :
    h.part? (.node id) (i :: ρ) = n.container.parts[i]?.bind fun t => h.part? t ρ := by
  simp [part?, node?, hn]

theorem toValueWithin_part? {ρ : List ℕ} (hv : h.toValueWithin d s = some v)
    (ht : h.part? s ρ = some t) : ∃ e u, h.toValueWithin e t = some u ∧ v.part? ρ = some u := by
  induction ρ generalizing d s v with
  | nil =>
    obtain rfl := Option.some.inj ht
    exact ⟨d, v, hv, rfl⟩
  | cons i ρ ih =>
    cases s with
    | leaf u => simp [part?, node?] at ht
    | node id =>
      cases d with
      | zero => simp [toValueWithin] at hv
      | succ d =>
        obtain ⟨n, c, hn, rfl, hshape, hparts⟩ := toValueWithin_node.mp hv
        rw [part?_node hn, Option.bind_eq_some_iff] at ht
        obtain ⟨s, hs, ht⟩ := ht
        rcases Represents.exists_part hshape (i := i) with ⟨s', u, hs', hu⟩ | ⟨hs', -⟩
        · obtain rfl := Option.some.inj (hs.symm.trans hs')
          obtain ⟨e, w, hw, hpart⟩ := ih (hparts i s u hs hu) ht
          exact ⟨e, w, hw, by rw [Value.part?_cons, Value.parts_toValue, hu]; exact hpart⟩
        · simp [hs] at hs'

end Heap

namespace Represents

variable {h : Heap} {s : Slot} {v : Value}

open Classical in
/-- The nodes that stand for trees no larger than `v`. -/
noncomputable def noLarger (h : Heap) (v : Value) : Finset ℕ :=
  (Finset.range h.size).filter fun id => ∃ w, Represents h (.node id) w ∧ sizeOf w ≤ sizeOf v

theorem sizeOf_part {c : Container Value} {i : ℕ} {u : Value} (hu : c.parts[i]? = some u) :
    sizeOf u < sizeOf c.toValue := by
  have hmem := List.mem_of_getElem? hu
  cases c with
  | list items =>
    have := List.sizeOf_lt_of_mem hmem
    simp only [Container.toValue, Value.list.sizeOf_spec]
    simp only [Container.parts] at this
    omega
  | object entries =>
    simp only [Container.parts, List.mem_map] at hmem
    obtain ⟨e, he, rfl⟩ := hmem
    have := List.sizeOf_lt_of_mem he
    obtain ⟨k, u⟩ := e
    simp only [Container.toValue, Value.object.sizeOf_spec]
    simp only [Prod.mk.sizeOf_spec] at this
    omega

theorem card_noLarger_lt {id : ℕ} (hv : Represents h (.node id) v) {u : Value}
    (hu : sizeOf u < sizeOf v) :
    (noLarger h u).card < (noLarger h v).card := by
  refine Finset.card_lt_card (Finset.ssubset_iff_subset_ne.mpr ⟨fun m hm => ?_, fun heq => ?_⟩)
  · simp only [noLarger, Finset.mem_filter] at hm ⊢
    obtain ⟨hlt, w, hw, hle⟩ := hm
    exact ⟨hlt, w, hw, by omega⟩
  · have hid : id ∈ noLarger h v := by
      obtain ⟨n, -, -, hn, -⟩ := hv.node_inv
      simp only [noLarger, Finset.mem_filter, Finset.mem_range]
      exact ⟨(Array.getElem?_eq_some_iff.mp hn).1, v, hv, Nat.le_refl _⟩
    rw [← heq] at hid
    simp only [noLarger, Finset.mem_filter] at hid
    obtain ⟨-, w, hw, hle⟩ := hid
    rw [hv.unique hw] at hu
    omega

theorem toValueWithin_eq (hv : Represents h s v) {d : ℕ} (hd : (noLarger h v).card ≤ d) :
    h.toValueWithin d s = some v := by
  induction hv generalizing d with
  | leaf => exact Heap.toValueWithin_leaf h d _
  | @node id n c hn hshape hparts ih =>
    have hnode : Represents h (.node id) c.toValue := .node hn hshape hparts
    have hpart {i : ℕ} {u : Value} (hu : c.parts[i]? = some u) :=
      card_noLarger_lt hnode (sizeOf_part hu)
    have hpos : 0 < (noLarger h c.toValue).card := by
      refine Finset.card_pos.mpr ⟨id, ?_⟩
      simp only [noLarger, Finset.mem_filter, Finset.mem_range]
      exact ⟨(Array.getElem?_eq_some_iff.mp hn).1, c.toValue, hnode, Nat.le_refl _⟩
    obtain ⟨d, rfl⟩ : ∃ d', d = d' + 1 := ⟨d - 1, by omega⟩
    refine Heap.toValueWithin_node.mpr ⟨n, c, hn, rfl, hshape, fun i s u hs hu => ?_⟩
    have := hpart hu
    exact ih i s u hs hu (by omega)

theorem toValue_eq (hv : Represents h s v) : h.toValue s = .ok v := by
  have hsub : noLarger h v ⊆ Finset.range h.size := by
    intro m hm
    simp only [noLarger, Finset.mem_filter] at hm
    exact hm.1
  have hcard : (noLarger h v).card ≤ h.size := by simpa using Finset.card_le_card hsub
  unfold Heap.toValue
  rw [hv.toValueWithin_eq hcard]

end Represents

end Pagewright
