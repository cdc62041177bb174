import Pagewright.Proofs.Record.Sharing

/-!
# Writing in records with shared parts

A write goes down the record's own nodes as it goes down the tree. If it stays among them, the record
stands for the written tree afterwards (`Stayed`). If it comes to a held place on the way, it goes
on in shared nodes; that does no harm just when the tree there stays the same (`Represents.of_same`).
-/

namespace Pagewright

/-! ## Steps of a write -/

namespace Represents

variable {h : Heap} {id i : ℕ} {n : Node} {c : Container Value} {new : Slot} {w : Value}

/-- Where a write goes on: in a node that stands for the part there, or in a new object. -/
theorem part_cases (hshape : n.container.shape = c.shape)
    (hparts : ∀ (i : ℕ) (s : Slot) (u : Value), n.container.parts[i]? = some s → c.parts[i]? = some u →
      Represents h s u) :
    (∃ (next : ℕ) (d : Container Value), n.container.parts[i]? = some (.node next) ∧
      c.parts[i]? = some d.toValue ∧ Represents h (.node next) d.toValue ∧
      ((c.parts[i]?).getD .null).asContainer = d.toValue) ∨
    ((∀ next, n.container.parts[i]? ≠ some (.node next)) ∧
      (∀ u, c.parts[i]? = some u → u.isContainer = false) ∧
      ((c.parts[i]?).getD .null).asContainer = (Container.object []).toValue) := by
  rcases exists_part hshape (i := i) with ⟨s, u, hs, hu⟩ | ⟨hs, hu⟩
  · have hrep := hparts i s u hs hu
    rw [hs, hu]
    cases hrep with
    | leaf hv =>
      refine .inr ⟨by simp, by simpa using hv, ?_⟩
      simp only [Option.getD_some, Value.asContainer, hv, Bool.false_eq_true, if_false]
      rfl
    | @node next n' d hn' hshape' hparts' =>
      exact .inl ⟨next, d, rfl, rfl, .node hn' hshape' hparts', Value.asContainer_toValue d⟩
  · rw [hs, hu]
    exact .inr ⟨by simp, by simp, rfl⟩

end Represents

/-- A write on the heap fails as the write in the tree does, and where the tree refuses it the heap stays
as it is. -/
theorem Represents.assignAt {h : Heap} {id : ℕ} {v : Value} (hv : Represents h (.node id) v) (new : Slot)
    (w : Value) {segs : List String} (hsegs : segs ≠ []) :
    Outcome.Rel (fun h' v' => v'.place? segs = none → h' = h) (h.assignAt id new segs)
      (v.assignAt w segs) := by
  induction segs generalizing h id v with
  | nil => exact absurd rfl hsegs
  | cons segment rest ih =>
    obtain ⟨n, c, rfl, hn, hshape, hparts⟩ := hv.node_inv
    have htarget := Container.target?_eq hshape segment
    cases hc : c.target? segment with
    | error e =>
      rw [Heap.assignAt_of_error hn (htarget.trans hc), Value.assignAt_of_error hc]
      exact .error e
    | ok target =>
      cases target with
      | none =>
        rw [Heap.assignAt_of_refused hn (htarget.trans hc), Value.assignAt_of_refused hc]
        exact .ok fun _ => rfl
      | some i =>
        rw [Value.assignAt_of_target hc]
        cases rest with
        | nil =>
          rw [Heap.assignAt_of_last hn (htarget.trans hc)]
          refine .ok fun hplace => ?_
          rw [Value.place?_put hc] at hplace
          simp [Value.place?] at hplace
        | cons s rest =>
          rcases Represents.part_cases (i := i) hshape hparts with
            ⟨next, d, hnext, hd, hrep, hcont⟩ | ⟨hnext, -, hcont⟩
          · rw [Heap.assignAt_of_node hn (htarget.trans hc) hnext, Value.assignIn_cons, hcont]
            refine Outcome.Rel.bind_right (ih hrep (by simp)) fun h' a ha hplace => ha ?_
            rwa [Value.place?_put hc, Option.map_eq_none_iff] at hplace
          · rw [Heap.assignAt_of_not_node hn (htarget.trans hc) hnext, Value.assignIn_cons, hcont]
            have hfresh : Represents (h.opened id n.container segment i) (.node h.size)
                (Container.object []).toValue := by
              have hne : h.size ≠ id := by
                have := (Array.getElem?_eq_some_iff.mp hn).1
                omega
              refine .node (n := .object []) ?_ rfl fun j s u hs => ?_
              · rw [Heap.getElem?_opened hn, if_neg hne, if_pos rfl]
              · simp [Node.container, Container.parts] at hs
            refine Outcome.Rel.bind_right (ih hfresh (by simp)).with_eq fun h' a ha hplace => ?_
            rw [Value.place?_put hc, Option.map_eq_none_iff] at hplace
            cases Value.written_of_assignAt (by simp) ha.2.2 with
            | refused _ _ hne => exact absurd rfl hne
            | placed ρ hρ => simp [hplace] at hρ

/-! ## Writing in shared nodes -/

theorem Closed.put {h : Heap} {shared : Set ℕ} {id : ℕ} {n : Node} {segment : String} {i : ℕ} {new : Slot}
    (hclosed : Closed h shared) (hid : id ∈ shared) (hn : h[id]? = some n) (hin : new.In shared) :
    Closed (h.set! id (n.container.put segment i new).toNode) shared := by
  intro m hm
  have hset := Heap.getElem?_set hn (n.container.put segment i new).toNode m
  by_cases hmid : m = id
  · subst hmid
    refine ⟨_, by rw [hset, if_pos rfl], fun k hk => ?_⟩
    obtain ⟨n', hn', hbelow⟩ := hclosed m hm
    obtain rfl := Option.some.inj (hn.symm.trans hn')
    rw [Node.container_toNode] at hk
    rcases Container.mem_parts_put hk with hk | hk
    · subst hk
      exact hin
    · exact hbelow k hk
  · obtain ⟨n', hn', hbelow⟩ := hclosed m hm
    exact ⟨n', by rw [hset, if_neg hmid, hn'], hbelow⟩

theorem Closed.opened {h : Heap} {shared : Set ℕ} {id : ℕ} {n : Node} (segment : String) (i : ℕ)
    (hclosed : Closed h shared) (hid : id ∈ shared) (hn : h[id]? = some n) :
    Closed (h.opened id n.container segment i) (insert h.size shared) := by
  have hidsize : id < h.size := (Array.getElem?_eq_some_iff.mp hn).1
  have hopened (l : ℕ) := Heap.getElem?_opened hn n.container segment i l
  rintro l (rfl | hl)
  · refine ⟨.object [], ?_, by simp [Node.container, Container.parts]⟩
    rw [hopened, if_neg (by omega), if_pos rfl]
  · obtain ⟨k, hk, hbelow⟩ := hclosed l hl
    have hlsize : l < h.size := (Array.getElem?_eq_some_iff.mp hk).1
    by_cases hlid : l = id
    · subst hlid
      obtain rfl := Option.some.inj (hn.symm.trans hk)
      refine ⟨_, by rw [hopened, if_pos rfl], fun j hj => ?_⟩
      rw [Node.container_toNode] at hj
      rcases Container.mem_parts_put hj with hj | hj
      · cases hj
        exact .inl rfl
      · exact .inr (hbelow j hj)
    · refine ⟨k, ?_, fun j hj => .inr (hbelow j hj)⟩
      rw [hopened, if_neg hlid, if_neg (by omega), hk]

/-- A write that starts at a shared node stays among shared nodes and new ones. -/
theorem Closed.assignAt {h h' : Heap} {shared : Set ℕ} {id m : ℕ} {n : Node} {new : Slot}
    {segs : List String} (hclosed : Closed h shared) (hid : id ∈ shared)
    (hassign : h.assignAt id new segs = .ok h') (hm : m ∉ shared) (hn : h[m]? = some n) :
    h'[m]? = some n := by
  induction segs generalizing h shared id with
  | nil =>
    obtain rfl := Except.ok.inj hassign
    exact hn
  | cons segment rest ih =>
    obtain ⟨k, hk, hbelow⟩ := hclosed id hid
    have hmid : m ≠ id := by
      rintro rfl
      exact hm hid
    cases htarget : k.container.target? segment with
    | error e => simp [Heap.assignAt_of_error hk htarget] at hassign
    | ok target =>
      cases target with
      | none =>
        rw [Heap.assignAt_of_refused hk htarget] at hassign
        obtain rfl := Except.ok.inj hassign
        exact hn
      | some i =>
        cases rest with
        | nil =>
          rw [Heap.assignAt_of_last hk htarget] at hassign
          obtain rfl := Except.ok.inj hassign
          rw [Heap.getElem?_set hk, if_neg hmid, hn]
        | cons s rest =>
          by_cases hpart : ∃ next, k.container.parts[i]? = some (.node next)
          · obtain ⟨next, hnext⟩ := hpart
            rw [Heap.assignAt_of_node hk htarget hnext] at hassign
            exact ih hclosed (hbelow next (List.mem_of_getElem? hnext)) hassign hm hn
          · rw [Heap.assignAt_of_not_node hk htarget fun next hnext => hpart ⟨next, hnext⟩] at hassign
            have hsize : m < h.size := (Array.getElem?_eq_some_iff.mp hn).1
            refine ih (hclosed.opened segment i hid hk) (Set.mem_insert _ _) hassign ?_ ?_
            · rintro (rfl | h)
              · omega
              · exact hm h
            · rw [Heap.getElem?_opened hk, if_neg hmid, if_neg (by omega), hn]

/-- A slot put in the place of one that stands for the same tree changes no tree. -/
theorem Represents.of_put {h : Heap} {id i : ℕ} {n : Node} {segment : String} {old new s : Slot}
    {u v : Value} (hn : h[id]? = some n) (htarget : n.container.target? segment = .ok (some i))
    (hold : n.container.parts[i]? = some old) (hu : Represents h old u) (hnew : Represents h new u)
    (hv : Represents h s v) : Represents (h.set! id (n.container.put segment i new).toNode) s v := by
  induction hsize : sizeOf v using Nat.strong_induction_on generalizing s v with
  | _ size ih =>
    cases hv with
    | leaf hv => exact .leaf hv
    | @node m k c hk hshape hparts =>
      have hset := Heap.getElem?_set hn (n.container.put segment i new).toNode m
      by_cases hm : m = id
      · subst hm
        obtain rfl := Option.some.inj (hn.symm.trans hk)
        rw [if_pos rfl] at hset
        have hput : (n.container.put segment i new).shape = (n.container.put segment i old).shape :=
          Container.shape_put rfl segment i new old
        rw [Container.put_eq_self htarget hold] at hput
        refine .node hset (by rw [Node.container_toNode, hput, hshape]) fun j s u' hs hu' => ?_
        rw [Node.container_toNode, Container.getElem?_parts_put (Container.target?_le htarget)] at hs
        split at hs
        · rename_i hj
          subst hj
          obtain rfl := Option.some.inj hs
          obtain rfl := (hparts j old u' hold hu').unique hu
          exact ih _ (hsize ▸ sizeOf_part hu') hnew rfl
        · exact ih _ (hsize ▸ sizeOf_part hu') (hparts j s u' hs hu') rfl
      · rw [if_neg hm, hk] at hset
        exact .node hset hshape fun j s u' hs hu' =>
          ih _ (hsize ▸ sizeOf_part hu') (hparts j s u' hs hu') rfl

/-- A write in shared nodes that leaves their tree as it is leaves every tree as it is. -/
theorem Represents.of_same {h h' : Heap} {shared : Set ℕ} {id : ℕ} {u w : Value} {new : Slot}
    {segs : List String} (hclosed : Closed h shared) (hid : id ∈ shared)
    (hu : Represents h (.node id) u) (hnew : Represents h new w) (hin : new.In shared)
    (hsame : u.assignAt w segs = .ok u) (hassign : h.assignAt id new segs = .ok h') :
    Closed h' shared ∧ ∀ (s : Slot) (v : Value), Represents h s v → Represents h' s v := by
  induction segs generalizing id u with
  | nil =>
    obtain rfl := Except.ok.inj hassign
    exact ⟨hclosed, fun _ _ hv => hv⟩
  | cons segment rest ih =>
    obtain ⟨n, c, rfl, hn, hshape, hparts⟩ := hu.node_inv
    have htarget := Container.target?_eq hshape segment
    obtain ⟨hc, -⟩ | ⟨i, a, hc, ha, hput⟩ := Value.assignAt_cons_cases hsame
    · rw [Heap.assignAt_of_refused hn (htarget.trans hc)] at hassign
      obtain rfl := Except.ok.inj hassign
      exact ⟨hclosed, fun _ _ hv => hv⟩
    · -- The part written is the part that was there.
      have hpart : c.parts[i]? = some a := by
        have hparts' : (c.put segment i a).parts[i]? = if i = i then some a else c.parts[i]? :=
          Container.getElem?_parts_put (Container.target?_le hc) a i
        rwa [if_pos rfl, ← Value.toValue_injective hput] at hparts'
      obtain ⟨old, hold⟩ : ∃ old, n.container.parts[i]? = some old := by
        rcases exists_part hshape (i := i) with ⟨old, _, hold, -⟩ | ⟨-, hnone⟩
        · exact ⟨old, hold⟩
        · simp [hpart] at hnone
      have hrep := hparts i old a hold hpart
      cases rest with
      | nil =>
        obtain rfl := Except.ok.inj ha
        rw [Heap.assignAt_of_last hn (htarget.trans hc)] at hassign
        obtain rfl := Except.ok.inj hassign
        exact ⟨hclosed.put hid hn hin, fun s v hv => .of_put hn (htarget.trans hc) hold hrep hnew hv⟩
      | cons s rest =>
        rw [hpart, Option.getD_some, Value.assignIn_cons] at ha
        obtain ⟨d, hd⟩ := Value.exists_asContainer a
        rw [hd] at ha
        obtain ⟨d', rfl⟩ := Value.exists_toValue_of_assignAt ha
        rw [Value.asContainer_toValue] at hd
        rw [← hd] at ha
        cases old with
        | leaf => cases hrep with | leaf hv => simp at hv
        | node next =>
          rw [Heap.assignAt_of_node hn (htarget.trans hc) hold] at hassign
          obtain ⟨n', hn', hbelow⟩ := hclosed id hid
          obtain rfl := Option.some.inj (hn.symm.trans hn')
          exact ih (hbelow next (List.mem_of_getElem? hold)) hrep ha hassign

/-! ## Writing in the record's own nodes -/

/-- A write came to a held place on its way: at place `τ` it goes on in the shared node `x`, which stands
for `u`, and makes `u'` of it. -/
structure Entered (G : Sharing) (id : ℕ) (v v' w : Value) (new : Slot) (π ρ : List ℕ)
    (segs : List String) (τ : List ℕ) (x : ℕ) (u u' : Value) (rest : List String) : Prop where
  place_ne_nil : τ ≠ []
  held : π ++ τ ∈ G.held
  shared : x ∈ G.shared
  wrote : (x, u) ∈ G.wrote
  represents : Represents G.heap (.node x) u
  heap : G.heap.assignAt id new segs = G.heap.assignAt x new rest
  value : u.assignAt w rest = .ok u'
  before : v.part? τ = some u
  after : v'.part? τ = some u'
  same : u' = u → v' = v
  inside : ¬ρ <+: τ
  above : τ <+: ρ
  /-- The way to the shared node is through own nodes. -/
  way : ∀ h' : Heap, (∀ (m : ℕ) (n : Node), m ∉ G.shared → G.heap[m]? = some n → h'[m]? = some n) →
    h'.part? (.node id) τ = some (.node x)

/-- A write stayed among the record's own nodes: the record stands for the written tree, and nothing has
changed that is shared or at home elsewhere. -/
structure Stayed (G : Sharing) (id : ℕ) (v' w : Value) (π ρ : List ℕ) (h' : Heap)
    (wrote : Set (ℕ × Value)) (home : ℕ → List ℕ) : Prop where
  placed : Placed ⟨h', G.shared, home, heldAfter G.held (π ++ ρ) w, wrote⟩ (.node id) v' π
  home_eq : ∀ (m : ℕ) (n : Node), G.heap[m]? = some n → home m = G.home m
  frame : ∀ (m : ℕ) (n : Node), G.heap[m]? = some n → m ∈ G.shared ∨ ¬π <+: G.home m → h'[m]? = some n
  inside : ∀ σ ∈ G.held, π <+: σ → σ <+: π ++ ρ → π ++ ρ <+: σ

section

variable {G : Sharing} {id i : ℕ} {n : Node} {c : Container Value} {v w v' a : Value} {new : Slot}
variable {π ρ τ : List ℕ} {segment : String} {rest segs : List String} {h' : Heap}
variable {wrote : Set (ℕ × Value)} {home : ℕ → List ℕ}

theorem prefix_concat_ne {i j : ℕ} {σ : List ℕ} (hij : j ≠ i) (h : π ++ [j] <+: σ) : ¬π ++ [i] <+: σ := by
  rintro ⟨σ₁, rfl⟩
  obtain ⟨σ₂, h⟩ := h
  simp only [List.append_assoc, List.singleton_append, List.append_cancel_left_eq, List.cons.injEq] at h
  exact hij h.1

theorem not_prefix_concat (π : List ℕ) (i : ℕ) (ρ : List ℕ) : ¬π ++ i :: ρ <+: π := by
  intro h
  have hlength := h.length_le
  simp only [List.length_append, List.length_cons] at hlength
  omega

/-- When only the nodes of one part have changed, an own node is placed as before around the new part. -/
theorem Placed.put {G' : Sharing} (hhome : G.home id = π) (hid : id ∉ G.shared) (hheld : π ∉ G.held)
    (hn : G.heap[id]? = some n) (hshape : n.container.shape = c.shape)
    (hparts : ∀ (i : ℕ) (s : Slot) (u : Value), n.container.parts[i]? = some s → c.parts[i]? = some u →
      Placed G s u (π ++ [i]))
    (htarget : c.target? segment = .ok (some i)) {t : Slot} (ht : Placed G' t a (π ++ [i]))
    (hid' : G'.heap[id]? = some (n.container.put segment i t).toNode)
    (hshared' : G'.shared = G.shared)
    (hhome' : ∀ (m : ℕ) (k : Node), G.heap[m]? = some k → G'.home m = G.home m)
    (hframe : ∀ (m : ℕ) (k : Node), m ≠ id → G.heap[m]? = some k →
      m ∈ G.shared ∨ ¬π ++ [i] <+: G.home m → G'.heap[m]? = some k)
    (hheld' : ∀ σ, ¬π ++ [i] <+: σ → (σ ∈ G'.held ↔ σ ∈ G.held)) (hwrote : G.wrote ⊆ G'.wrote)
    (hclosed : Closed G.heap G.shared) : Placed G' (.node id) (c.put segment i a).toValue π := by
  have hle := Container.target?_le ((Container.target?_eq hshape segment).trans htarget)
  refine .own (hshared' ▸ hid) (fun h => hheld ((hheld' π (not_prefix_concat π i [])).mp h))
    ((hhome' id n hn).trans hhome) hid'
    (by rw [Node.container_toNode]; exact Container.shape_put hshape segment i t a) fun j s u hs hu => ?_
  rw [Node.container_toNode, Container.getElem?_parts_put hle] at hs
  rw [Container.getElem?_parts_put (Container.target?_le htarget)] at hu
  by_cases hj : j = i
  · subst hj
    rw [if_pos rfl, Option.some.injEq] at hs hu
    rw [← hs, ← hu]
    exact ht
  · rw [if_neg hj] at hs hu
    -- The parts beside the new one have their nodes elsewhere.
    refine (hparts j s u hs hu).congr (fun m k hm hpre hk => ?_) (fun m y hm hy => ?_)
      (fun σ hσ => ?_) hwrote
    · have hmid : m ≠ id := by
        rintro rfl
        rw [hhome] at hpre
        exact not_prefix_concat π j [] hpre
      exact ⟨hshared' ▸ hm, hhome' m k hk, hframe m k hmid hk (.inr (prefix_concat_ne hj hpre))⟩
    · refine ⟨hshared' ▸ hm, hy.of_shared hclosed hm fun l hl => ?_⟩
      obtain ⟨k, hk, -⟩ := hclosed l hl
      have hlid : l ≠ id := by
        rintro rfl
        exact hid hl
      rw [hk, hframe l k hlid hk (.inl hl)]
    · exact hheld' σ (prefix_concat_ne hj hσ)

/-- A write comes to a held place one step down. -/
theorem Entered.here {next : ℕ} {d : Container Value} {s : String} (hid : id ∉ G.shared)
    (hn : G.heap[id]? = some n) (hshape : n.container.shape = c.shape)
    (htarget : c.target? segment = .ok (some i)) (hnext : n.container.parts[i]? = some (.node next))
    (hd : c.parts[i]? = some d.toValue) (hp : Placed G (.node next) d.toValue (π ++ [i]))
    (hshared : next ∈ G.shared) (ha : d.toValue.assignAt w (s :: rest) = .ok a)
    (hplace : a.place? (s :: rest) = some ρ) :
    Entered G id c.toValue (c.put segment i a).toValue w new π (i :: ρ) (segment :: s :: rest) [i] next
      d.toValue a (s :: rest) := by
  obtain ⟨hheld, hwrote, hrep⟩ := hp.shared_inv hshared
  refine ⟨by simp, hheld, hshared, hwrote, hrep,
    Heap.assignAt_of_node hn ((Container.target?_eq hshape segment).trans htarget) hnext, ha, ?_, ?_,
    fun ha => by rw [ha, Container.put_eq_self htarget hd], fun hpre => ?_, by simp, fun h' hh' => ?_⟩
  · rw [Value.part?_cons, Value.parts_toValue, hd]
    rfl
  · rw [Value.part?_put_self htarget]
    rfl
  · obtain ⟨_, _, _, _, -, -, -, -, rfl⟩ := Value.place?_cons_eq_some hplace
    simp at hpre
  · rw [Heap.part?_node (hh' id n hid hn), hnext]
    rfl

theorem Entered.cons {next : ℕ} {d : Container Value} {x : ℕ} {u u' : Value} {rest' : List String}
    {s : String} (hid : id ∉ G.shared) (hn : G.heap[id]? = some n) (hshape : n.container.shape = c.shape)
    (htarget : c.target? segment = .ok (some i)) (hnext : n.container.parts[i]? = some (.node next))
    (hd : c.parts[i]? = some d.toValue)
    (h : Entered G next d.toValue a w new (π ++ [i]) ρ (s :: rest) τ x u u' rest') :
    Entered G id c.toValue (c.put segment i a).toValue w new π (i :: ρ) (segment :: s :: rest)
      (i :: τ) x u u' rest' where
  place_ne_nil := by simp
  held := by simpa using h.held
  shared := h.shared
  wrote := h.wrote
  represents := h.represents
  heap := by
    rw [Heap.assignAt_of_node hn ((Container.target?_eq hshape segment).trans htarget) hnext, h.heap]
  value := h.value
  before := by rw [Value.part?_cons, Value.parts_toValue, hd]; exact h.before
  after := by rw [Value.part?_put_self htarget]; exact h.after
  same hu := by rw [h.same hu, Container.put_eq_self htarget hd]
  inside := by simpa using h.inside
  above := by simpa using h.above
  way h' hh' := by
    rw [Heap.part?_node (hh' id n hid hn), hnext]
    exact h.way h' hh'

theorem eq_or_prefix_of_prefix_concat {σ : List ℕ} (h₁ : π <+: σ) (h₂ : σ <+: π ++ i :: ρ) :
    σ = π ∨ π ++ [i] <+: σ := by
  obtain ⟨τ, rfl⟩ := h₁
  rw [List.prefix_append_right_inj] at h₂
  cases τ with
  | nil => exact .inl (by simp)
  | cons j τ =>
    rw [List.cons_prefix_cons] at h₂
    refine .inr ⟨τ, ?_⟩
    simp [h₂.1]

variable (hhome : G.home id = π) (hid : id ∉ G.shared) (hheld : π ∉ G.held) (hn : G.heap[id]? = some n)
  (hshape : n.container.shape = c.shape)
  (hparts : ∀ (i : ℕ) (s : Slot) (u : Value), n.container.parts[i]? = some s → c.parts[i]? = some u →
    Placed G s u (π ++ [i]))
  (htarget : c.target? segment = .ok (some i)) (hclosed : Closed G.heap G.shared)
  (hwrote : G.wrote ⊆ wrote)
include hhome hid hheld hn hshape hparts htarget hclosed hwrote

/-- At the end of its path, a write puts the new slot among the parts of an own node. -/
theorem Stayed.last (hnew : Represents G.heap new w) (hin : new.In G.shared)
    (hnode : ∀ x, new = .node x → (x, w) ∈ wrote) :
    Stayed G id (c.put segment i w).toValue w π [i]
      (G.heap.set! id (n.container.put segment i new).toNode) wrote G.home := by
  have hset (m : ℕ) := Heap.getElem?_set hn (n.container.put segment i new).toNode m
  have hother {m : ℕ} {k : Node} (hm : m ≠ id) (hk : G.heap[m]? = some k) :
      (G.heap.set! id (n.container.put segment i new).toNode)[m]? = some k := by
    rw [hset, if_neg hm, hk]
  have hshared {m : ℕ} (hm : m ∈ G.shared) : m ≠ id := by
    rintro rfl
    exact hid hm
  refine ⟨.put hhome hid hheld hn hshape hparts htarget ?_ (by rw [hset, if_pos rfl]) rfl
    (fun _ _ _ => rfl) (fun m k hm hk _ => hother hm hk) (fun σ hσ => mem_heldAfter_of_not_below hσ)
    hwrote hclosed, fun _ _ _ => rfl, fun m k hk hm => hother ?_ hk, fun σ hσ h₁ h₂ => ?_⟩
  · have hsame : ∀ m ∈ G.shared,
        (G.heap.set! id (n.container.put segment i new).toNode)[m]? = G.heap[m]? := by
      intro m hm
      obtain ⟨k, hk, -⟩ := hclosed m hm
      rw [hk, hother (hshared hm) hk]
    have hnew' := hnew.of_shared hclosed hin hsame
    cases new with
    | leaf u => cases hnew with | leaf hv => exact .leaf hv
    | node x =>
      obtain ⟨_, d, rfl, -⟩ := hnew.node_inv
      exact .shared hin (.inr ⟨rfl, Value.isContainer_toValue d⟩) (hnode x rfl) hnew'
  · rintro rfl
    rcases hm with hm | hm
    · exact hid hm
    · exact hm (by rw [hhome])
  · rcases eq_or_prefix_of_prefix_concat h₁ h₂ with rfl | h
    · exact absurd hσ hheld
    · exact h

/-- A write further down stays among own nodes here when it does there. -/
theorem Stayed.cons {next : ℕ} (hnext : n.container.parts[i]? = some (.node next))
    (h : Stayed G next a w (π ++ [i]) ρ h' wrote home) :
    Stayed G id (c.put segment i a).toValue w π (i :: ρ) h' wrote home := by
  have hplace : π ++ [i] ++ ρ = π ++ i :: ρ := by simp
  have hhere : h'[id]? = some n := h.frame id n hn (.inr (hhome ▸ not_prefix_concat π i []))
  have hplaced := h.placed
  rw [hplace] at hplaced
  refine ⟨.put hhome hid hheld hn hshape hparts htarget hplaced ?_ rfl h.home_eq
    (fun m k _ hk hm => h.frame m k hk hm) (fun σ hσ => ?_) hwrote hclosed, h.home_eq,
    fun m k hk hm =>
      h.frame m k hk (hm.imp_right fun hpre h => hpre ((List.prefix_append π [i]).trans h)),
    fun σ hσ h₁ h₂ => ?_⟩
  · rw [Container.put_eq_self ((Container.target?_eq hshape segment).trans htarget) hnext,
      Node.toNode_container, hhere]
  · refine mem_heldAfter_of_not_below fun hpre => hσ ?_
    rw [← hplace] at hpre
    exact (List.prefix_append _ ρ).trans hpre
  · rcases eq_or_prefix_of_prefix_concat h₁ h₂ with rfl | hσ'
    · exact absurd hσ hheld
    · rw [← hplace] at h₂ ⊢
      exact h.inside σ hσ hσ' h₂

theorem Stayed.opened
    (h : Stayed { G with
        heap := G.heap.opened id n.container segment i
        home := Function.update G.home G.heap.size (π ++ [i]) }
      G.heap.size a w (π ++ [i]) ρ h' wrote home) :
    Stayed G id (c.put segment i a).toValue w π (i :: ρ) h' wrote home := by
  have hplace : π ++ [i] ++ ρ = π ++ i :: ρ := by simp
  have hlt {m : ℕ} {k : Node} (hk : G.heap[m]? = some k) : m ≠ G.heap.size := by
    have := (Array.getElem?_eq_some_iff.mp hk).1
    omega
  have hopened (m : ℕ) := Heap.getElem?_opened hn n.container segment i m
  have hother {m : ℕ} {k : Node} (hm : m ≠ id) (hk : G.heap[m]? = some k) :
      (G.heap.opened id n.container segment i)[m]? = some k := by
    rw [hopened, if_neg hm, if_neg (hlt hk), hk]
  have hupdate {m : ℕ} {k : Node} (hk : G.heap[m]? = some k) :
      Function.update G.home G.heap.size (π ++ [i]) m = G.home m :=
    Function.update_of_ne (hlt hk) _ _
  have hhome' {m : ℕ} {k : Node} (hk : G.heap[m]? = some k) : home m = G.home m := by
    by_cases hm : m = id
    · subst hm
      exact (h.home_eq m _ ((hopened m).trans (if_pos rfl))).trans (hupdate hk)
    · exact (h.home_eq m k (hother hm hk)).trans (hupdate hk)
  have hframe {m : ℕ} {k : Node} (hmid : m ≠ id) (hk : G.heap[m]? = some k)
      (hm : m ∈ G.shared ∨ ¬π ++ [i] <+: G.home m) : h'[m]? = some k :=
    h.frame m k (hother hmid hk) (hm.imp_right fun hpre h => hpre ((hupdate hk).symm ▸ h))
  have hhere : h'[id]? = some (n.container.put segment i (.node G.heap.size)).toNode := by
    refine h.frame id _ ((hopened id).trans (if_pos rfl)) (.inr fun hpre => ?_)
    simp only [hupdate hn, hhome] at hpre
    exact not_prefix_concat π i [] hpre
  have hplaced := h.placed
  rw [hplace] at hplaced
  refine ⟨.put hhome hid hheld hn hshape hparts htarget hplaced hhere rfl (fun m k hk => hhome' hk)
    (fun m k hmid hk hm => hframe hmid hk hm) (fun σ hσ => ?_) hwrote hclosed,
    fun m k hk => hhome' hk, fun m k hk hm => ?_, fun σ hσ h₁ h₂ => ?_⟩
  · refine mem_heldAfter_of_not_below fun hpre => hσ ?_
    rw [← hplace] at hpre
    exact (List.prefix_append _ ρ).trans hpre
  · refine hframe ?_ hk (hm.imp_right fun hpre h => hpre ((List.prefix_append π [i]).trans h))
    rintro rfl
    rcases hm with hm | hm
    · exact hid hm
    · exact hm (by rw [hhome])
  · rcases eq_or_prefix_of_prefix_concat h₁ h₂ with rfl | hσ'
    · exact absurd hσ hheld
    · rw [← hplace] at h₂ ⊢
      exact h.inside σ hσ hσ' h₂

end

/-- A new object is an own node at home at its place. -/
theorem Placed.opened {G : Sharing} {id i : ℕ} {n : Node} {π : List ℕ} (segment : String)
    (hid : id ∉ G.shared) (hn : G.heap[id]? = some n) (hclosed : Closed G.heap G.shared)
    (hheld : π ++ [i] ∉ G.held) :
    let G' : Sharing := { G with
      heap := G.heap.opened id n.container segment i
      home := Function.update G.home G.heap.size (π ++ [i]) }
    Placed G' (.node G.heap.size) (Container.object []).toValue (π ++ [i]) ∧ G.heap.size ∉ G'.shared ∧
      Closed G'.heap G'.shared ∧ ∀ m ∈ G.shared, G'.heap[m]? = G.heap[m]? := by
  intro G'
  have hlt {m : ℕ} {k : Node} (hk : G.heap[m]? = some k) : m < G.heap.size :=
    (Array.getElem?_eq_some_iff.mp hk).1
  have hopened (m : ℕ) : G'.heap[m]? = _ := Heap.getElem?_opened hn n.container segment i m
  have hfresh : G.heap.size ∉ G.shared := by
    intro h
    obtain ⟨k, hk, -⟩ := hclosed _ h
    exact absurd (hlt hk) (by omega)
  have hsame : ∀ m ∈ G.shared, G'.heap[m]? = G.heap[m]? := by
    intro m hm
    obtain ⟨k, hk, -⟩ := hclosed m hm
    have hmid : m ≠ id := by
      rintro rfl
      exact hid hm
    rw [hopened, if_neg hmid, if_neg (by have := hlt hk; omega)]
  refine ⟨.own (n := .object []) hfresh hheld (Function.update_self _ _ _) ?_ rfl fun j s u hs => ?_,
    hfresh, fun m hm => ?_, hsame⟩
  · rw [hopened, if_neg (by have := hlt hn; omega), if_pos rfl]
  · simp [Node.container, Container.parts] at hs
  · obtain ⟨k, hk, hbelow⟩ := hclosed m hm
    exact ⟨k, (hsame m hm).trans hk, hbelow⟩

/-- A write in the record stays among its own nodes, or it comes to a held place on its way. -/
theorem Placed.assignAt {G : Sharing} {id : ℕ} {v w v' : Value} {new : Slot} {π ρ : List ℕ}
    {segs : List String} {h' : Heap} {wrote : Set (ℕ × Value)} (hp : Placed G (.node id) v π)
    (hid : id ∉ G.shared) (hclosed : Closed G.heap G.shared) (hnew : Represents G.heap new w)
    (hin : new.In G.shared) (hwrote : G.wrote ⊆ wrote) (hnode : ∀ x, new = .node x → (x, w) ∈ wrote)
    (hheld : ∀ σ, π ++ σ ∈ G.held → ∃ u, v.part? σ = some u ∧ u.isContainer = true)
    (hsegs : segs ≠ []) (hassign : G.heap.assignAt id new segs = .ok h')
    (hv : v.assignAt w segs = .ok v') (hplace : v'.place? segs = some ρ) :
    (∃ home, Stayed G id v' w π ρ h' wrote home) ∨
      ∃ τ x u u' rest, Entered G id v v' w new π ρ segs τ x u u' rest := by
  induction segs generalizing G id v v' π ρ with
  | nil => exact absurd rfl hsegs
  | cons segment rest ih =>
    cases hp with
    | shared hshared => exact absurd hshared hid
    | @own _ n c _ _ hπ hhome hn hshape hparts =>
      have htarget := Container.target?_eq hshape segment
      obtain ⟨hc, rfl⟩ | ⟨i, a, hc, ha, rfl⟩ := Value.assignAt_cons_cases hv
      · rw [Value.place?_of_target_none hc] at hplace
        simp at hplace
      · rw [Value.place?_put hc, Option.map_eq_some_iff] at hplace
        obtain ⟨ρ', hρ', rfl⟩ := hplace
        cases rest with
        | nil =>
          obtain rfl := Except.ok.inj ha
          obtain rfl := Option.some.inj hρ'
          rw [Heap.assignAt_of_last hn (htarget.trans hc)] at hassign
          obtain rfl := Except.ok.inj hassign
          exact .inl ⟨G.home, .last hhome hid hπ hn hshape hparts hc hclosed hwrote hnew hin hnode⟩
        | cons s rest =>
          rw [Value.assignIn_cons] at ha
          have hbelow : ∀ σ, π ++ [i] ++ σ ∈ G.held →
              ∃ y u, c.parts[i]? = some y ∧ y.part? σ = some u ∧ u.isContainer = true := by
            intro σ hσ
            obtain ⟨u, hu, hcontainer⟩ := hheld (i :: σ) (by simpa using hσ)
            rw [Value.part?_cons, Value.parts_toValue, Option.bind_eq_some_iff] at hu
            obtain ⟨y, hy, hu⟩ := hu
            exact ⟨y, u, hy, hu, hcontainer⟩
          rcases Represents.part_cases (i := i) hshape
              (fun j s u hs hu => (hparts j s u hs hu).represents) with
            ⟨next, d, hnext, hd, hrep, hcont⟩ | ⟨hnext, hleaf, hcont⟩
          · rw [hcont] at ha
            rw [Heap.assignAt_of_node hn (htarget.trans hc) hnext] at hassign
            have hchild := hparts i _ _ hnext hd
            by_cases hshared : next ∈ G.shared
            · exact .inr ⟨[i], next, d.toValue, a, s :: rest,
                .here hid hn hshape hc hnext hd hchild hshared ha hρ'⟩
            · have hbelow' : ∀ σ, π ++ [i] ++ σ ∈ G.held →
                  ∃ u, d.toValue.part? σ = some u ∧ u.isContainer = true := by
                intro σ hσ
                obtain ⟨y, u, hy, hu⟩ := hbelow σ hσ
                obtain rfl := Option.some.inj (hd.symm.trans hy)
                exact ⟨u, hu⟩
              rcases ih hchild hshared hclosed hnew hin hwrote hbelow' (by simp) hassign ha hρ' with
                ⟨home, hstay⟩ | ⟨τ, x, u, u', rest', henter⟩
              · exact .inl ⟨home, .cons hhome hid hπ hn hshape hparts hc hclosed hwrote hnext hstay⟩
              · exact .inr ⟨i :: τ, x, u, u', rest', .cons hid hn hshape hc hnext hd henter⟩
          · rw [hcont] at ha
            rw [Heap.assignAt_of_not_node hn (htarget.trans hc) hnext] at hassign
            have hnone (σ : List ℕ) : π ++ [i] ++ σ ∉ G.held := by
              intro hσ
              obtain ⟨y, u, hy, hu, hcontainer⟩ := hbelow σ hσ
              have hy' := Value.isContainer_of_part? hu hcontainer
              simp [hleaf y hy] at hy'
            obtain ⟨hplaced, hfresh, hclosed', hsame⟩ := Placed.opened segment hid hn hclosed
              (show π ++ [i] ∉ G.held by simpa using hnone [])
            have hnew' := hnew.of_shared hclosed hin hsame
            rcases ih hplaced hfresh hclosed' hnew' hin hwrote
              (fun σ hσ => absurd hσ (hnone σ)) (by simp) hassign ha hρ' with
              ⟨home, hstay⟩ | ⟨τ, x, u, u', rest', henter⟩
            · exact .inl ⟨home, .opened hhome hid hπ hn hshape hparts hc hclosed hwrote hstay⟩
            · have := henter.before
              rw [Value.part?_object_nil henter.place_ne_nil] at this
              simp at this

end Pagewright
