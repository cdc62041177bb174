import Pagewright.Proofs.Record.Represents

/-!
# Who owns a node

The record under way owns its nodes, each reached along one path only, until a write puts one of them, or
one of the payload, where others see it too. From there on it is shared, with all nodes below it.

A `Sharing` tells the two kinds apart: which nodes are shared, the home place of every other node, the
held places, where the record goes over from its own nodes to shared ones, and what was written there.
`Placed G s v π` says that the slot `s` stands for `v` at place `π`, and that its own nodes are at home.
No node has two homes, so a change to the nodes below one place changes nothing at the places beside it
(`Placed.congr`).
-/

namespace Pagewright

/-- A set of nodes that are there, with all nodes below them. -/
def Closed (h : Heap) (shared : Set ℕ) : Prop :=
  ∀ m ∈ shared, ∃ n, h[m]? = some n ∧ ∀ k, Slot.node k ∈ n.container.parts → k ∈ shared

namespace Slot

/-- Whether the node of a slot, if it has one, is among the given ones. -/
def In (shared : Set ℕ) : Slot → Prop
  | leaf _ => True
  | node id => id ∈ shared

end Slot

namespace Represents

variable {h h' : Heap} {s : Slot} {v : Value} {shared : Set ℕ}

theorem mono (hv : Represents h s v) (hext : ∀ (m : ℕ) (n : Node), h[m]? = some n → h'[m]? = some n) :
    Represents h' s v := by
  induction hv with
  | leaf hv => exact .leaf hv
  | node hn hshape hparts ih => exact .node (hext _ _ hn) hshape ih

theorem of_shared (hv : Represents h s v) (hclosed : Closed h shared) (hs : s.In shared)
    (hsame : ∀ m ∈ shared, h'[m]? = h[m]?) : Represents h' s v := by
  induction hv with
  | leaf hv => exact .leaf hv
  | @node id n c hn hshape hparts ih =>
    refine .node ((hsame id hs).trans hn) hshape fun i s u hi hu => ih i s u hi hu ?_
    cases s with
    | leaf => trivial
    | node k =>
      obtain ⟨n', hn', hbelow⟩ := hclosed id hs
      obtain rfl := Option.some.inj (hn.symm.trans hn')
      exact hbelow k (List.mem_of_getElem? hi)

end Represents

/-! ## Places of nodes -/

/-- A heap with the shared nodes and the homes of the others, the places held and what was written. -/
structure Sharing where
  heap : Heap
  shared : Set ℕ
  home : ℕ → List ℕ
  held : Set (List ℕ)
  wrote : Set (ℕ × Value)

/-- A slot stands for a value at a place. Its nodes are at home down to held places, where written nodes
are that are shared. -/
inductive Placed (G : Sharing) : Slot → Value → List ℕ → Prop where
  | leaf {v : Value} {π : List ℕ} (hv : v.isContainer = false) : Placed G (.leaf v) v π
  | shared {id : ℕ} {v : Value} {π : List ℕ} (hid : id ∈ G.shared) (hheld : π ∈ G.held)
      (hwrote : (id, v) ∈ G.wrote) (hv : Represents G.heap (.node id) v) : Placed G (.node id) v π
  | own {id : ℕ} {n : Node} {c : Container Value} {π : List ℕ} (hid : id ∉ G.shared) (hheld : π ∉ G.held)
      (hhome : G.home id = π) (hn : G.heap[id]? = some n) (hshape : n.container.shape = c.shape)
      (hparts : ∀ (i : ℕ) (s : Slot) (u : Value), n.container.parts[i]? = some s → c.parts[i]? = some u →
        Placed G s u (π ++ [i])) : Placed G (.node id) c.toValue π

namespace Placed

variable {G G' : Sharing} {s : Slot} {v : Value} {π ρ : List ℕ} {m : ℕ}

theorem represents (hp : Placed G s v π) : Represents G.heap s v := by
  induction hp with
  | leaf hv => exact .leaf hv
  | shared _ _ _ hv => exact hv
  | own _ _ _ hn hshape _ ih => exact .node hn hshape ih

/-- A shared slot is at a held place. -/
theorem shared_inv {id : ℕ} (hp : Placed G (.node id) v π) (hid : id ∈ G.shared) :
    π ∈ G.held ∧ (id, v) ∈ G.wrote ∧ Represents G.heap (.node id) v := by
  cases hp with
  | shared _ hheld hwrote hv => exact ⟨hheld, hwrote, hv⟩
  | own hnot => exact absurd hid hnot

/-- A slot that is not shared is placed in the same way when its own nodes stay as they are. -/
theorem congr (hp : Placed G s v π)
    (hown : ∀ (m : ℕ) (n : Node), m ∉ G.shared → π <+: G.home m → G.heap[m]? = some n →
      m ∉ G'.shared ∧ G'.home m = G.home m ∧ G'.heap[m]? = some n)
    (hshared : ∀ (m : ℕ) (u : Value), m ∈ G.shared → Represents G.heap (.node m) u →
      m ∈ G'.shared ∧ Represents G'.heap (.node m) u)
    (hheld : ∀ σ, π <+: σ → (σ ∈ G'.held ↔ σ ∈ G.held)) (hwrote : G.wrote ⊆ G'.wrote) :
    Placed G' s v π := by
  induction hp with
  | leaf hv => exact .leaf hv
  | @shared id v π hid hπ hw hv =>
    obtain ⟨hid', hv'⟩ := hshared id v hid hv
    exact .shared hid' ((hheld π (List.prefix_refl π)).mpr hπ) (hwrote hw) hv'
  | @own id n c π hid hπ hhome hn hshape hparts ih =>
    obtain ⟨hid', hhome', hn'⟩ := hown id n hid (by rw [hhome]) hn
    refine .own hid' (fun h => hπ ((hheld π (List.prefix_refl π)).mp h)) (hhome'.trans hhome) hn' hshape
      fun i s u hs hu => ih i s u hs hu (fun m n hm hpre => ?_) fun σ hσ => ?_
    · exact hown m n hm ((List.prefix_append π [i]).trans hpre)
    · exact hheld σ ((List.prefix_append π [i]).trans hσ)

/-- When the node at place `ρ` is shared from now on, the nodes beside and above it stay at home. -/
theorem share (hp : Placed G s v π) (habove : ρ <+: π → ρ = π)
    (hat : ∀ σ, ρ = π ++ σ → ∃ id u, G.heap.part? s σ = some (.node id) ∧ v.part? σ = some u ∧
      id ∈ G'.shared ∧ (id, u) ∈ G'.wrote ∧ Represents G'.heap (.node id) u)
    (hown : ∀ (m : ℕ) (n : Node), m ∉ G.shared → ¬ρ <+: G.home m → G.heap[m]? = some n →
      m ∉ G'.shared ∧ G'.home m = G.home m ∧ G'.heap[m]? = some n)
    (hshared : ∀ (m : ℕ) (u : Value), m ∈ G.shared → Represents G.heap (.node m) u →
      m ∈ G'.shared ∧ Represents G'.heap (.node m) u)
    (hheld : ∀ σ, ¬ρ <+: σ → (σ ∈ G'.held ↔ σ ∈ G.held)) (hρ : ρ ∈ G'.held)
    (hwrote : G.wrote ⊆ G'.wrote) : Placed G' s v π := by
  have hhere {s : Slot} {v : Value} {π : List ℕ} (heq : ρ = π)
      (hat : ∀ σ, ρ = π ++ σ → ∃ id u, G.heap.part? s σ = some (.node id) ∧ v.part? σ = some u ∧
        id ∈ G'.shared ∧ (id, u) ∈ G'.wrote ∧ Represents G'.heap (.node id) u) : Placed G' s v π := by
    obtain ⟨id, u, hid, hu, hshared, hwrote, hrep⟩ := hat [] (by simpa using heq)
    obtain rfl := Option.some.inj hid
    obtain rfl := Option.some.inj hu
    exact .shared hshared (heq ▸ hρ) hwrote hrep
  induction hp with
  | leaf hv => exact .leaf hv
  | @shared id v π hid hπ hw hv =>
    by_cases heq : ρ = π
    · exact hhere heq hat
    · obtain ⟨hid', hv'⟩ := hshared id v hid hv
      exact .shared hid' ((hheld π fun h => heq (habove h)).mpr hπ) (hwrote hw) hv'
  | @own id n c π hid hπ hhome hn hshape hparts ih =>
    by_cases heq : ρ = π
    · exact hhere heq hat
    · have hnot : ¬ρ <+: π := fun h => heq (habove h)
      obtain ⟨hid', hhome', hn'⟩ := hown id n hid (by rwa [hhome]) hn
      refine .own hid' (fun h => hπ ((hheld π hnot).mp h)) (hhome'.trans hhome) hn' hshape
        fun i s u hs hu => ih i s u hs hu (fun hpre => ?_) fun σ hσ => ?_
      · rcases List.prefix_concat_iff.mp hpre with h | h
        · simpa using h
        · exact absurd h hnot
      · obtain ⟨x, w, hx, hw, hrest⟩ := hat (i :: σ) (by simpa using hσ)
        refine ⟨x, w, ?_, ?_, hrest⟩
        · simpa [Heap.part?_node hn, hs] using hx
        · simpa [Value.part?_cons, hu] using hw

end Placed

/-! ## Nodes below a slot -/

/-- A node is at a slot or below it. -/
inductive Reach (h : Heap) : Slot → ℕ → Prop where
  | here {id : ℕ} : Reach h (.node id) id
  | part {id m : ℕ} {n : Node} {s : Slot} (hn : h[id]? = some n) (hs : s ∈ n.container.parts)
      (hm : Reach h s m) : Reach h (.node id) m

namespace Reach

variable {h h' : Heap} {s : Slot} {v : Value} {m k : ℕ} {shared : Set ℕ}

theorem mono (hm : Reach h s m) (hext : ∀ (m : ℕ) (n : Node), h[m]? = some n → h'[m]? = some n) :
    Reach h' s m := by
  induction hm with
  | here => exact .here
  | part hn hs _ ih => exact .part (hext _ _ hn) hs ih

theorem of_same (hm : Reach h' s m) (hsame : ∀ k, Reach h s k → h'[k]? = h[k]?) : Reach h s m := by
  induction hm with
  | here => exact .here
  | @part id m n s hn hs hm ih =>
    rw [hsame id .here] at hn
    exact .part hn hs (ih fun k hk => hsame k (.part hn hs hk))

theorem mem_of_closed (hm : Reach h s m) (hclosed : Closed h shared) (hs : s.In shared) : m ∈ shared := by
  induction hm with
  | here => exact hs
  | @part id m n s hn hpart _ ih =>
    refine ih ?_
    cases s with
    | leaf => trivial
    | node k =>
      obtain ⟨n', hn', hbelow⟩ := hclosed id hs
      obtain rfl := Option.some.inj (hn.symm.trans hn')
      exact hbelow k hpart

theorem trans (hm : Reach h s m) (hk : Reach h (.node m) k) : Reach h s k := by
  induction hm with
  | here => exact hk
  | part hn hs _ ih => exact .part hn hs (ih hk)

theorem represents (hm : Reach h s m) (hv : Represents h s v) : ∃ u, Represents h (.node m) u := by
  induction hm generalizing v with
  | here => exact ⟨v, hv⟩
  | part hn hs _ ih =>
    obtain ⟨_, c, rfl, -⟩ := hv.node_inv
    obtain ⟨i, u, -, hu⟩ := hv.exists_part_of_mem hn hs
    exact ih hu

theorem exists_node (hm : Reach h s m) (hv : Represents h s v) :
    ∃ n, h[m]? = some n ∧ ∀ k, Slot.node k ∈ n.container.parts → Reach h s k := by
  obtain ⟨u, hu⟩ := hm.represents hv
  obtain ⟨n, -, -, hn, -⟩ := hu.node_inv
  exact ⟨n, hn, fun k hk => hm.trans (.part hn hk .here)⟩

end Reach

theorem Closed.union {h : Heap} {shared : Set ℕ} {s : Slot} {v : Value} (hclosed : Closed h shared)
    (hv : Represents h s v) : Closed h (shared ∪ {m | Reach h s m}) := by
  rintro m (hm | hm)
  · obtain ⟨n, hn, hbelow⟩ := hclosed m hm
    exact ⟨n, hn, fun k hk => .inl (hbelow k hk)⟩
  · obtain ⟨n, hn, hbelow⟩ := Reach.exists_node hm hv
    exact ⟨n, hn, fun k hk => .inr (hbelow k hk)⟩

/-- The nodes below a place are shared or at home there. -/
theorem Placed.mem_or_prefix_of_reach {G : Sharing} {s : Slot} {v : Value} {π : List ℕ} {m : ℕ}
    (hp : Placed G s v π) (hclosed : Closed G.heap G.shared) (hm : Reach G.heap s m) :
    m ∈ G.shared ∨ π <+: G.home m := by
  induction hp with
  | leaf => cases hm
  | shared hid => exact .inl (hm.mem_of_closed hclosed hid)
  | @own id n c π hid hπ hhome hn hshape hparts ih =>
    cases hm with
    | here => exact .inr (by rw [hhome])
    | part hn' hpart hm =>
      obtain rfl := Option.some.inj (hn.symm.trans hn')
      obtain ⟨i, hi, rfl⟩ := List.mem_iff_getElem.mp hpart
      have hi' : i < c.parts.length := Container.length_parts_eq hshape ▸ hi
      refine (ih i _ _ (List.getElem?_eq_getElem hi) (List.getElem?_eq_getElem hi') hm).imp_right
        fun h => (List.prefix_append π [i]).trans h

/-! ## Slots at places -/

/-- What is read along a path and has a place stands at that place, on the heap as in the tree. -/
theorem Represents.part?_of_walk {h : Heap} {s t : Slot} {v : Value} {segs : List String} {ρ : List ℕ}
    (hv : Represents h s v) (hplace : v.place? segs = some ρ) (ht : h.walk s segs = .ok t) :
    h.part? s ρ = some t := by
  induction segs generalizing s v ρ with
  | nil =>
    obtain rfl := Option.some.inj hplace
    obtain rfl := Except.ok.inj ht
    rfl
  | cons segment rest ih =>
    obtain ⟨c, i, u, σ, rfl, htarget, hu, hσ, rfl⟩ := Value.place?_cons_eq_some hplace
    obtain ⟨id, n, rfl, hn, hshape, hparts⟩ := hv.toValue_inv
    rw [Heap.walk, Slot.isNull, Heap.child_node hn, Container.target?_eq hshape, htarget] at ht
    rw [Heap.part?_node hn]
    rcases exists_part hshape (i := i) with ⟨s, u', hs, hu'⟩ | ⟨-, hnone⟩
    · obtain rfl := Option.some.inj (hu.symm.trans hu')
      simp only [hs, Bool.false_eq_true, if_false, Outcome.ok_bind, Outcome.pure_eq_ok,
        Option.getD_some] at ht
      rw [hs, Option.bind_some]
      exact ih (hparts i s u hs hu) hσ ht
    · simp [hu] at hnone

theorem Closed.part?_in {h : Heap} {shared : Set ℕ} {s t : Slot} {ρ : List ℕ} (hclosed : Closed h shared)
    (hs : s.In shared) (ht : h.part? s ρ = some t) : t.In shared := by
  induction ρ generalizing s with
  | nil =>
    obtain rfl := Option.some.inj ht
    exact hs
  | cons i ρ ih =>
    cases s with
    | leaf w => simp [Heap.part?, Heap.node?] at ht
    | node id =>
      obtain ⟨n, hn, hbelow⟩ := hclosed id hs
      rw [Heap.part?_node hn, Option.bind_eq_some_iff] at ht
      obtain ⟨s, hpart, ht⟩ := ht
      refine ih ?_ ht
      cases s with
      | leaf => trivial
      | node k => exact hbelow k (List.mem_of_getElem? hpart)

theorem Closed.child_in {h : Heap} {shared : Set ℕ} {s t : Slot} {segment : String}
    (hclosed : Closed h shared) (hs : s.In shared) (ht : h.child s segment = .ok t) : t.In shared := by
  cases s with
  | leaf =>
    obtain rfl := Except.ok.inj ht
    trivial
  | node id =>
    obtain ⟨n, hn, hbelow⟩ := hclosed id hs
    rw [Heap.child_node hn, Outcome.bind_eq_ok] at ht
    obtain ⟨target, -, ht⟩ := ht
    cases target with
    | none =>
      obtain rfl := Except.ok.inj ht
      trivial
    | some i =>
      obtain rfl := Except.ok.inj ht
      cases hpart : n.container.parts[i]? with
      | none => trivial
      | some u =>
        cases u with
        | leaf => trivial
        | node k => exact hbelow k (List.mem_of_getElem? hpart)

theorem Closed.find_in {h : Heap} {shared : Set ℕ} {s t : Slot} {path : String}
    (hclosed : Closed h shared) (hs : s.In shared) (ht : h.find s path = .ok t) : t.In shared := by
  have hwalk (segs : List String) (s : Slot) (hs : s.In shared) (ht : h.walk s segs = .ok t) :
      t.In shared := by
    induction segs generalizing s with
    | nil =>
      obtain rfl := Except.ok.inj ht
      exact hs
    | cons segment rest ih =>
      rw [Heap.walk] at ht
      split at ht
      · obtain rfl := Except.ok.inj ht
        trivial
      · obtain ⟨u, hu, ht⟩ := Outcome.bind_eq_ok.mp ht
        exact ih u (hclosed.child_in hs hu) ht
  unfold Heap.find at ht
  split at ht
  · obtain rfl := Except.ok.inj ht
    trivial
  · exact hwalk _ s hs ht

/-- What is at a place below a placed slot is placed there, or shared. -/
theorem Placed.part? {G : Sharing} {s t : Slot} {v u : Value} {π ρ : List ℕ} (hp : Placed G s v π)
    (hclosed : Closed G.heap G.shared) (ht : G.heap.part? s ρ = some t) (hu : v.part? ρ = some u) :
    Placed G t u (π ++ ρ) ∨ t.In G.shared := by
  induction ρ generalizing s v π with
  | nil =>
    obtain rfl := Option.some.inj ht
    obtain rfl := Option.some.inj hu
    simpa using Or.inl hp
  | cons i ρ ih =>
    cases hp with
    | leaf => simp [Heap.part?, Heap.node?] at ht
    | @shared id _ _ hid => exact .inr (hclosed.part?_in (s := .node id) hid ht)
    | own _ _ _ hn hshape hparts =>
      rw [Heap.part?_node hn, Option.bind_eq_some_iff] at ht
      rw [Value.part?_cons, Value.parts_toValue, Option.bind_eq_some_iff] at hu
      obtain ⟨s, hs, ht⟩ := ht
      obtain ⟨w, hw, hu⟩ := hu
      rw [List.append_cons]
      exact ih (hparts i s w hs hw) ht hu

end Pagewright
