import Pagewright.Proofs.Record.Insert
import Pagewright.Proofs.Record.Write

/-!
# Homes

The record under way owns the nodes it was copied to and those that writes make in it. Each of them is at
home at one place, as a part of the node above that place only (`Homed`). What a field writes comes from
the payload or from a default; it has no home, and neither has anything in it.
-/

namespace Pagewright

/-- The places of own nodes. A node without a place belongs to others. -/
abbrev Homes := ℕ → Option (List ℕ)

/-- Own nodes are at home: each is a part of the node above its place, and of no other. -/
structure Homed (h : Heap) (home : Homes) : Prop where
  lt : ∀ (m : ℕ) (σ : List ℕ), home m = some σ → m < h.size
  part_lt : ∀ (m : ℕ) (n : Node) (k : ℕ), h[m]? = some n → Slot.node k ∈ n.container.parts → k < h.size
  above : ∀ (m : ℕ) (n : Node) (i k : ℕ) (σ : List ℕ), h[m]? = some n →
    n.container.parts[i]? = some (.node k) → home k = some σ → ∃ π, home m = some π ∧ σ = π ++ [i]

namespace Slot

variable {h h' : Heap} {home : Homes} {s : Slot}

/-- A slot can be part `i` of the node `id`: if its node is own, it is at home there. -/
def Fits (h : Heap) (home : Homes) (id i : ℕ) : Slot → Prop
  | leaf _ => True
  | node k => k < h.size ∧ ∀ σ, home k = some σ → ∃ π, home id = some π ∧ σ = π ++ [i]

/-- A slot of the payload or of a default. -/
def Foreign (h : Heap) (home : Homes) (s : Slot) : Prop := s.In {m | m < h.size ∧ home m = none}

theorem Foreign.fits (hs : s.Foreign h home) (id i : ℕ) : s.Fits h home id i := by
  cases s with
  | leaf => trivial
  | node k => exact ⟨hs.1, by simp [hs.2]⟩

theorem Foreign.mono {home' : Homes} (hs : s.Foreign h home) (hle : h.size ≤ h'.size)
    (hhome : ∀ m < h.size, home' m = home m) : s.Foreign h' home' := by
  cases s with
  | leaf => trivial
  | node k => exact ⟨Nat.lt_of_lt_of_le hs.1 hle, (hhome k hs.1).trans hs.2⟩

theorem IsNew.foreign (hs : s.IsNew h h') (hh : Homed h home) : s.Foreign h' home := by
  cases s with
  | leaf => trivial
  | node k =>
    refine ⟨hs.2, Option.eq_none_iff_forall_ne_some.mpr fun σ hσ => ?_⟩
    exact absurd (hh.lt k σ hσ) (Nat.not_lt.mpr hs.1)

end Slot

namespace Heap

variable {h : Heap} {id k : ℕ} {n : Node} {segment : String} {s : Slot}

theorem child_eq_get (hn : h[id]? = some n) (segment : String) :
    h.child (.node id) segment = n.container.get segment >>= fun a => .ok (a.getD .null) := by
  rw [child_node hn, Container.get]
  cases n.container.target? segment with
  | error e => rfl
  | ok target => cases target <;> rfl

theorem assignAt_of_missing {new : Slot} {segs : List String} (hn : h[id]? = none) :
    h.assignAt id new segs = .ok h := by
  match segs with
  | [] => rfl
  | [_] => simp [assignAt, hn]
  | _ :: _ :: _ => simp [assignAt, hn]

theorem find_eq_walk {path : String} (hsegs : Path.segments path ≠ []) (h : Heap) (s : Slot) :
    h.find s path = h.walk s (Path.segments path) := by
  unfold find
  split
  · contradiction
  · rfl

/-- A node that is read below a node is one of its parts. -/
theorem target_of_child (hn : h[id]? = some n) (hchild : h.child (.node id) segment = .ok (.node k)) :
    ∃ i, n.container.target? segment = .ok (some i) ∧ n.container.parts[i]? = some (.node k) := by
  rw [child_eq_get hn, Outcome.bind_eq_ok] at hchild
  obtain ⟨_ | s, hget, hs⟩ := hchild
  · simp [Slot.null] at hs
  · obtain rfl : s = .node k := Except.ok.inj hs
    exact Container.target_of_get hget

/-- What is read below a slot is in a node that is there, unless it is null. -/
theorem exists_of_child (hchild : h.child s segment = .ok (.node k)) :
    ∃ (id : ℕ) (n : Node) (i : ℕ), s = .node id ∧ h[id]? = some n ∧
      n.container.parts[i]? = some (.node k) := by
  cases s with
  | leaf => simp [child, node?, Slot.null] at hchild
  | node id =>
    cases hn : h[id]? with
    | none => simp [child, node?, hn, Slot.null] at hchild
    | some n =>
      obtain ⟨i, -, hpart⟩ := target_of_child hn hchild
      exact ⟨id, n, i, rfl, hn, hpart⟩

end Heap

namespace Homed

variable {h h' : Heap} {home : Homes} {id i : ℕ} {n : Node} {segment : String} {s t : Slot}

theorem put (hh : Homed h home) (hn : h[id]? = some n)
    (htarget : n.container.target? segment = .ok (some i)) (ht : t.Fits h home id i) :
    Homed (h.set! id (n.container.put segment i t).toNode) home := by
  have hset := Heap.getElem?_set hn (n.container.put segment i t).toNode
  have hsize : (h.set! id (n.container.put segment i t).toNode).size = h.size := by simp
  refine ⟨fun m σ hm => hsize ▸ hh.lt m σ hm, fun m n' k hn' hk => ?_, fun m n' j k σ hn' hk hσ => ?_⟩
  · rw [hsize]
    rw [hset] at hn'
    split at hn'
    · obtain rfl := Option.some.inj hn'
      rw [Node.container_toNode] at hk
      rcases Container.mem_parts_put hk with rfl | hk
      · exact ht.1
      · exact hh.part_lt id n k hn hk
    · exact hh.part_lt m n' k hn' hk
  · rw [hset] at hn'
    split at hn'
    · rename_i hm
      subst hm
      obtain rfl := Option.some.inj hn'
      rw [Node.container_toNode, Container.getElem?_parts_put (Container.target?_le htarget)] at hk
      split at hk
      · rename_i hj
        obtain rfl := Option.some.inj hk
        rw [hj]
        exact ht.2 σ hσ
      · exact hh.above m n j k σ hn hk hσ
    · exact hh.above m n' j k σ hn' hk hσ

theorem part_unique {j k : ℕ} (hh : Homed h home) (hn : h[id]? = some n) (hk : home k ≠ none)
    (hi : n.container.parts[i]? = some (.node k)) (hj : n.container.parts[j]? = some (.node k)) : i = j := by
  obtain ⟨σ, hσ⟩ := Option.ne_none_iff_exists'.mp hk
  obtain ⟨π, hπ, hi⟩ := hh.above id n i k σ hn hi hσ
  obtain ⟨π', hπ', hj⟩ := hh.above id n j k σ hn hj hσ
  obtain rfl := Option.some.inj (hπ.symm.trans hπ')
  simpa [hi] using hj

theorem push (hh : Homed h home) (place : Option (List ℕ)) :
    Homed (h.push (.object [])) (Function.update home h.size place) := by
  have hpush (m : ℕ) (n : Node) (s : Slot) (hn : (h.push (.object []))[m]? = some n)
      (hs : s ∈ n.container.parts) : h[m]? = some n := by
    rw [Array.getElem?_push] at hn
    split at hn
    · obtain rfl := Option.some.inj hn
      simp [Node.container, Container.parts] at hs
    · exact hn
  refine ⟨fun m σ hm => ?_, fun m n k hn hk => ?_, fun m n i k σ hn hk hσ => ?_⟩
  · rw [Array.size_push]
    by_cases hm' : m = h.size
    · omega
    · rw [Function.update_of_ne hm'] at hm
      have := hh.lt m σ hm
      omega
  · have := hh.part_lt m n k (hpush m n _ hn hk) hk
    rw [Array.size_push]
    omega
  · have hmem := List.mem_of_getElem? hk
    have hn' := hpush m n _ hn hmem
    have hm : m < h.size := (Array.getElem?_eq_some_iff.mp hn').1
    have hk' := hh.part_lt m n k hn' hmem
    rw [Function.update_of_ne (by omega)] at hσ
    rw [Function.update_of_ne (by omega)]
    exact hh.above m n i k σ hn' hk hσ

/-- A new object in the place of a part is at home there, if the node around it is. -/
theorem opened (hh : Homed h home) (hn : h[id]? = some n)
    (htarget : n.container.target? segment = .ok (some i)) :
    Homed (h.opened id n.container segment i)
      (Function.update home h.size ((home id).map (· ++ [i]))) := by
  have hlt : id < h.size := (Array.getElem?_eq_some_iff.mp hn).1
  have hn' : (h.push (.object []))[id]? = some n := Heap.getElem?_push_of_some _ hn
  refine (hh.push ((home id).map (· ++ [i]))).put hn' htarget ⟨by simp, fun σ hσ => ?_⟩
  rw [Function.update_self, Option.map_eq_some_iff] at hσ
  obtain ⟨π, hπ, rfl⟩ := hσ
  exact ⟨π, by rw [Function.update_of_ne (by omega), hπ], rfl⟩

/-- In what is not own nothing is own. -/
theorem closed (hh : Homed h home) : Closed h {m | m < h.size ∧ home m = none} := by
  intro m hm
  have hn := Array.getElem?_eq_getElem hm.1
  refine ⟨_, hn, fun k hk => ⟨hh.part_lt m _ k hn hk, ?_⟩⟩
  obtain ⟨i, hi⟩ := List.getElem?_of_mem hk
  refine Option.eq_none_iff_forall_ne_some.mpr fun σ hσ => ?_
  obtain ⟨π, hπ, -⟩ := hh.above m _ i k σ hn hi hσ
  simp [hm.2] at hπ

theorem grow (hh : Homed h home) (hg : h.Grows h') : Homed h' home where
  lt m σ hm := Nat.lt_of_lt_of_le (hh.lt m σ hm) hg.size_le
  part_lt m n k hn hk := by
    by_cases hm : m < h.size
    · rw [hg.keeps m _ (Array.getElem?_eq_getElem hm)] at hn
      obtain rfl := Option.some.inj hn
      exact Nat.lt_of_lt_of_le (hh.part_lt m _ k (Array.getElem?_eq_getElem hm) hk) hg.size_le
    · exact (hg.new m n (by omega) hn _ hk).2
  above m n i k σ hn hk hσ := by
    by_cases hm : m < h.size
    · rw [hg.keeps m _ (Array.getElem?_eq_getElem hm)] at hn
      obtain rfl := Option.some.inj hn
      exact hh.above m _ i k σ (Array.getElem?_eq_getElem hm) hk hσ
    · have hle : h.size ≤ k := (hg.new m n (by omega) hn _ (List.mem_of_getElem? hk)).1
      have := hh.lt k σ hσ
      omega

end Homed

/-! ## At the start -/

namespace Placed

variable {G : Sharing} {s : Slot} {v : Value} {π : List ℕ} {m k i : ℕ} {n : Node}

/-- Where nothing is shared, each node below a placed slot is placed. -/
theorem of_reach (hp : Placed G s v π) (hshared : G.shared = ∅) (hm : Reach G.heap s m) :
    ∃ w σ, Placed G (.node m) w σ := by
  induction hm generalizing v π with
  | here => exact ⟨v, π, hp⟩
  | @part id m n s hn hs _ ih =>
    cases hp with
    | shared hid => simp [hshared] at hid
    | own _ _ _ hn' hshape hparts =>
      obtain rfl := Option.some.inj (hn.symm.trans hn')
      obtain ⟨i, hi⟩ := List.getElem?_of_mem hs
      rcases Represents.exists_part hshape (i := i) with ⟨t, u, ht, hu⟩ | ⟨hnone, -⟩
      · obtain rfl := Option.some.inj (hi.symm.trans ht)
        exact ih (hparts i s u hi hu)
      · simp [hi] at hnone

/-- Where nothing is shared, the node of a part is at home in its part. -/
theorem home_part (hp : Placed G s v π) (hshared : G.shared = ∅) (hm : Reach G.heap s m)
    (hn : G.heap[m]? = some n) (hpart : n.container.parts[i]? = some (.node k)) :
    G.home k = G.home m ++ [i] := by
  obtain ⟨w, σ, hm⟩ := hp.of_reach hshared hm
  cases hm with
  | shared hid => simp [hshared] at hid
  | own _ _ hhome hn' hshape hparts =>
    obtain rfl := Option.some.inj (hn.symm.trans hn')
    rcases Represents.exists_part hshape (i := i) with ⟨t, u, ht, hu⟩ | ⟨hnone, -⟩
    · obtain rfl := Option.some.inj (hpart.symm.trans ht)
      cases hparts i _ u hpart hu with
      | shared hid => simp [hshared] at hid
      | own _ _ hhome' => rw [hhome', hhome]
    · simp [hpart] at hnone

end Placed

/-- A payload and a copy of it: the nodes of the copy are own, and those of the payload are not. -/
theorem Homed.start {h₁ h₂ : Heap} {s t : Slot} {v : Value} (hs : Heap.Inserted #[] s h₁ v)
    (ht : Heap.Inserted h₁ t h₂ v) : ∃ home, Homed h₂ home ∧ s.Foreign h₂ home ∧
      ∀ m, Reach h₂ t m → home m ≠ none := by
  obtain ⟨home₀, -, hplaced⟩ := ht.placed ∅ (fun _ => []) [] (by simp)
  let home : Homes := fun m => if h₁.size ≤ m ∧ m < h₂.size then some (home₀ m) else none
  have hhome {m : ℕ} {σ : List ℕ} (hσ : home m = some σ) :
      (h₁.size ≤ m ∧ m < h₂.size) ∧ home₀ m = σ := by
    simpa [home] using hσ
  have hempty : Closed h₁ ∅ := fun m hm => absurd hm (Set.notMem_empty m)
  have hold {m : ℕ} {n : Node} (hm : m < h₁.size) (hn : h₂[m]? = some n) {k : ℕ}
      (hk : Slot.node k ∈ n.container.parts) : k < h₁.size := by
    have hn₁ := Array.getElem?_eq_getElem hm
    obtain rfl := Option.some.inj (hn.symm.trans (ht.grows.keeps m _ hn₁))
    exact (hs.grows.new m _ (by simp) hn₁ _ hk).2
  have hnew {m : ℕ} {n : Node} (hm : ¬m < h₁.size) (hn : h₂[m]? = some n) {k : ℕ}
      (hk : Slot.node k ∈ n.container.parts) : h₁.size ≤ k ∧ k < h₂.size :=
    ht.grows.new m n (by omega) hn _ hk
  have hhomed : Homed h₂ home := by
    refine ⟨fun m σ hσ => (hhome hσ).1.2, fun m n k hn hk => ?_, fun m n i k σ hn hpart hσ => ?_⟩
    · by_cases hm : m < h₁.size
      · exact Nat.lt_of_lt_of_le (hold hm hn hk) ht.grows.size_le
      · exact (hnew hm hn hk).2
    · obtain ⟨⟨hle, -⟩, rfl⟩ := hhome hσ
      have hmem := List.mem_of_getElem? hpart
      have hm : ¬m < h₁.size := fun hm => by
        have := hold hm hn hmem
        omega
      have hlt : m < h₂.size := (Array.getElem?_eq_some_iff.mp hn).1
      refine ⟨home₀ m, by simp [home, hlt]; omega, ?_⟩
      exact hplaced.home_part rfl (ht.reach m (by omega) hlt) hn hpart
  refine ⟨home, hhomed, ?_, fun m hm => ?_⟩
  · cases s with
    | leaf => trivial
    | node k =>
      have hlt : k < h₁.size := hs.isNew.2
      exact ⟨Nat.lt_of_lt_of_le hlt ht.grows.size_le, if_neg (by omega)⟩
  · have hclosed := ht.grows.closed hempty
    rw [Set.empty_union] at hclosed
    obtain ⟨hle, hlt⟩ := hm.mem_of_closed hclosed ht.isNew
    simp [home, hle, hlt]

end Pagewright
