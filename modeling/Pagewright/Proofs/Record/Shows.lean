import Pagewright.Proofs.Record.Home

/-!
# Reading through own nodes

`Shows h home s segs o` says that the slot `s` reads as `o` along `segs`, by way of own nodes and down to
own nodes. What is read so depends on the own nodes at the place of `s` and below only (`Shows.congr`).
-/

namespace Pagewright

theorem Heap.child_rel {h : Heap} {id d : ℕ} {v : Value} (hv : h.toValueWithin d (.node id) = some v) (segment : String) :
    ∃ (e : ℕ) (c : Container Value), v = c.toValue ∧
      Outcome.Rel (fun t u => h.toValueWithin e t = some u) (h.child (.node id) segment)
        (v.child segment) := by
  cases d with
  | zero => simp [toValueWithin] at hv
  | succ d =>
    obtain ⟨n, c, hn, rfl, hshape, hparts⟩ := toValueWithin_node.mp hv
    refine ⟨d, c, rfl, ?_⟩
    rw [child_node hn, Value.child_toValue, Container.target?_eq hshape]
    refine Outcome.Rel.bind (Outcome.Rel.refl _) fun target _ htarget => ?_
    subst htarget
    cases target with
    | none => exact .ok (toValueWithin_leaf h d .null)
    | some i =>
      rcases Represents.exists_part hshape (i := i) with ⟨s, u, hs, hu⟩ | ⟨hs, hu⟩
      · simp only [hs, hu]
        exact .ok (hparts i s u hs hu)
      · simp only [hs, hu]
        exact .ok (toValueWithin_leaf h d .null)

/-- A slot reads as `o` along some segments, by way of own nodes and down to own nodes. -/
inductive Shows (h : Heap) (home : Homes) : Slot → List String → Outcome Value → Prop where
  | here {s : Slot} {v : Value} (hv : Represents h s v) (hown : ∀ m, Reach h s m → home m ≠ none) :
      Shows h home s [] (.ok v)
  | leaf {v : Value} {segment : String} {rest : List String} (hv : v.isContainer = false) :
      Shows h home (.leaf v) (segment :: rest) (.ok .null)
  | child {id : ℕ} {n : Node} {segment : String} {rest : List String} {t : Slot} {o : Outcome Value}
      (hid : home id ≠ none) (hn : h[id]? = some n) (hchild : h.child (.node id) segment = .ok t)
      (ht : Shows h home t rest o) : Shows h home (.node id) (segment :: rest) o
  | error {id : ℕ} {n : Node} {segment : String} {rest : List String} {e : Failure}
      (hid : home id ≠ none) (hn : h[id]? = some n) (hchild : h.child (.node id) segment = .error e) :
      Shows h home (.node id) (segment :: rest) (.error e)

namespace Shows

variable {h h' : Heap} {home home' : Homes} {s : Slot} {v : Value} {segs : List String} {o : Outcome Value}
variable {π : List ℕ}

/-- A tree of own nodes reads along segments as the tree does. -/
theorem of_represents (hv : Represents h s v) (hown : ∀ m, Reach h s m → home m ≠ none)
    (segs : List String) : Shows h home s segs (v.walk segs) := by
  induction segs generalizing s v with
  | nil => exact .here hv hown
  | cons segment rest ih =>
    cases hv with
    | leaf hv =>
      have hwalk : v.walk (segment :: rest) = .ok .null := by
        cases v <;> simp_all [Value.isContainer, Value.walk, Value.isNull, Value.child, Value.walk_null]
      rw [hwalk]
      exact .leaf hv
    | @node id n c hn hshape hparts =>
      have hnode : Represents h (.node id) c.toValue := .node hn hshape hparts
      rw [Value.walk_cons]
      cases hchild : h.child (.node id) segment with
      | error e =>
        have hrel := hnode.child segment
        rw [hchild] at hrel
        generalize c.toValue.child segment = u at hrel
        cases hrel
        exact .error (hown id .here) hn hchild
      | ok t =>
        obtain ⟨u, hu, ht⟩ := (hnode.child segment).of_ok_left hchild
        rw [hu, Outcome.ok_bind]
        refine .child (hown id .here) hn hchild (ih ht fun m hm => hown m ?_)
        cases t with
        | leaf => cases hm
        | node k =>
          obtain ⟨i, -, hpart⟩ := Heap.target_of_child hn hchild
          exact .part hn (List.mem_of_getElem? hpart) hm

theorem walk_leaf (h : Heap) (v : Value) (segment : String) (rest : List String) :
    h.walk (.leaf v) (segment :: rest) = .ok .null := by
  have hnull (segs : List String) : h.walk .null segs = .ok .null := by
    cases segs <;> rfl
  rw [Heap.walk]
  split
  · rfl
  · exact hnull rest

theorem walk_rel (hs : Shows h home s segs o) : Outcome.Rel (Represents h) (h.walk s segs) o := by
  induction hs with
  | here hv => exact .ok hv
  | leaf => exact walk_leaf h _ _ _ ▸ .ok .null
  | child _ _ hchild _ ih =>
    rw [Heap.walk, Slot.isNull, if_neg Bool.false_ne_true, hchild, Outcome.ok_bind]
    exact ih
  | error _ _ hchild =>
    rw [Heap.walk, Slot.isNull, if_neg Bool.false_ne_true, hchild, Outcome.error_bind]
    exact .error _

theorem walk_eq (hs : Shows h home s segs o) {d : ℕ} (hv : h.toValueWithin d s = some v) :
    v.walk segs = o := by
  induction hs generalizing d v with
  | here hu =>
    rw [Value.walk, Heap.toValueWithin_unique hv (hu.toValueWithin_eq (Nat.le_refl _))]
  | @leaf u segment rest hu =>
    rw [Heap.toValueWithin_leaf, Option.some.injEq] at hv
    subst hv
    cases u <;> simp_all [Value.isContainer, Value.walk, Value.isNull, Value.child, Value.walk_null]
  | @child id n segment rest t o _ hn hchild _ ih =>
    obtain ⟨e, c, rfl, hrel⟩ := Heap.child_rel hv segment
    obtain ⟨u, hu, ht⟩ := hrel.of_ok_left hchild
    rw [Value.walk_cons, hu, Outcome.ok_bind, ih ht]
  | @error id n segment rest e _ hn hchild =>
    obtain ⟨_, c, rfl, hrel⟩ := Heap.child_rel hv segment
    rw [hchild] at hrel
    rw [Value.walk_cons]
    generalize c.toValue.child segment = u at hrel
    cases hrel
    rfl

theorem of_leaf (hs : Shows h home (.leaf v) segs o) : Shows h' home' (.leaf v) segs o := by
  cases hs with
  | here hv =>
    cases hv with
    | leaf hv => exact .here (.leaf hv) fun m hm => nomatch hm
  | leaf hv => exact .leaf hv

theorem home_ne_none {id : ℕ} (hs : Shows h home (.node id) segs o) : home id ≠ none := by
  cases hs with
  | here _ hown => exact hown id .here
  | child hid => exact hid
  | error hid => exact hid

end Shows

/-- The nodes below an own slot that has own nodes only are at home below it. -/
theorem Homed.prefix_of_reach {h : Heap} {home : Homes} {s : Slot} {m : ℕ} {π : List ℕ}
    (hh : Homed h home) (hm : Reach h s m) (hown : ∀ k, Reach h s k → home k ≠ none)
    (hat : ∀ k σ, s = .node k → home k = some σ → π <+: σ) : ∃ σ, home m = some σ ∧ π <+: σ := by
  induction hm with
  | @here id =>
    obtain ⟨σ, hσ⟩ := Option.ne_none_iff_exists'.mp (hown id .here)
    exact ⟨σ, hσ, hat id σ rfl hσ⟩
  | @part id m n s hn hs hm ih =>
    refine ih (fun k hk => hown k (.part hn hs hk)) fun k σ heq hσ => ?_
    subst heq
    obtain ⟨i, hi⟩ := List.getElem?_of_mem hs
    obtain ⟨τ, hτ, rfl⟩ := hh.above id n i k σ hn hi hσ
    exact (hat id τ rfl hτ).trans (List.prefix_append τ [i])

namespace Shows

variable {h h' : Heap} {home home' : Homes} {s : Slot} {v : Value} {segs : List String} {o : Outcome Value}
variable {π : List ℕ}

theorem eq_null {part : Option Slot} {segment : String} {rest : List String}
    (hs : Shows h home (part.getD .null) (segment :: rest) o) (hpart : ∀ k, part ≠ some (.node k)) :
    o = .ok .null := by
  match part, hpart with
  | none, _ =>
    cases hs
    rfl
  | some (.leaf v), _ =>
    cases hs
    rfl
  | some (.node k), hpart => exact absurd rfl (hpart k)

theorem of_empty {id : ℕ} (hn : h[id]? = some (.object [])) (hid : home id ≠ none) (segment : String)
    (rest : List String) : Shows h home (.node id) (segment :: rest) (.ok .null) := by
  refine .child (t := .null) hid hn (by rw [Heap.child_eq_get hn]; rfl) ?_
  cases rest with
  | nil => exact .here .null fun m hm => nomatch hm
  | cons => exact .leaf rfl

/-- What a slot at some place shows depends on the own nodes at that place and below. -/
theorem congr (hs : Shows h home s segs o) (hh : Homed h home)
    (hat : ∀ k σ, s = .node k → home k = some σ → π <+: σ)
    (hsame : ∀ m σ, home m = some σ → π <+: σ → h'[m]? = h[m]? ∧ home' m = home m) :
    Shows h' home' s segs o := by
  have hnode {id : ℕ} (hid : home id ≠ none) (hat : ∀ σ, home id = some σ → π <+: σ) :
      h'[id]? = h[id]? ∧ home' id ≠ none := by
    obtain ⟨σ, hσ⟩ := Option.ne_none_iff_exists'.mp hid
    obtain ⟨heap, hhome⟩ := hsame id σ hσ (hat σ hσ)
    exact ⟨heap, hhome ▸ hid⟩
  have hchild {id : ℕ} {n : Node} (hn : h[id]? = some n) (heap : h'[id]? = h[id]?) (segment : String) :
      h'.child (.node id) segment = h.child (.node id) segment := by
    rw [Heap.child_eq_get hn, Heap.child_eq_get (heap.trans hn)]
  induction hs with
  | @here s v hv hown =>
    have hbelow (m : ℕ) (hm : Reach h s m) : h'[m]? = h[m]? ∧ home' m ≠ none := by
      obtain ⟨σ, hσ, hpre⟩ := hh.prefix_of_reach hm hown hat
      exact hnode (hown m hm) fun τ hτ => Option.some.inj (hσ.symm.trans hτ) ▸ hpre
    have hempty : Closed h ∅ := fun m hm => absurd hm (Set.notMem_empty m)
    refine .here (hv.of_shared (hempty.union hv) ?_ ?_) fun m hm => ?_
    · cases s with
      | leaf => trivial
      | node id => exact .inr .here
    · rintro m (hm | hm)
      · exact absurd hm (Set.notMem_empty m)
      · exact (hbelow m hm).1
    · exact (hbelow m (hm.of_same fun k hk => (hbelow k hk).1)).2
  | leaf hv => exact .leaf hv
  | @child id n segment rest t o hid hn hread ht ih =>
    obtain ⟨heap, hid'⟩ := hnode hid fun σ hσ => hat id σ rfl hσ
    refine .child hid' (heap.trans hn) ((hchild hn heap segment).trans hread) (ih fun k σ heq hσ => ?_)
    subst heq
    obtain ⟨i, -, hpart⟩ := Heap.target_of_child hn hread
    obtain ⟨τ, hτ, rfl⟩ := hh.above id n i k σ hn hpart hσ
    exact (hat id τ rfl hτ).trans (List.prefix_append τ [i])
  | @error id n segment rest e hid hn hread =>
    obtain ⟨heap, hid'⟩ := hnode hid fun σ hσ => hat id σ rfl hσ
    exact .error hid' (heap.trans hn) ((hchild hn heap segment).trans hread)

/-- What is read below a node in another part than the one that changes stays as it was. -/
theorem beside {id i : ℕ} {n n' : Node} {other : String} {rest : List String} (hh : Homed h home)
    (hs : Shows h home (.node id) (other :: rest) o) (hid : home id = some π) (hn : h[id]? = some n)
    (hn' : h'[id]? = some n') (hid' : home' id = home id)
    (hchild : h'.child (.node id) other = h.child (.node id) other)
    (hnot : ∀ k, home k ≠ none → h.child (.node id) other = .ok (.node k) →
      n.container.parts[i]? ≠ some (.node k))
    (hsame : ∀ m σ, home m = some σ → σ ≠ π → ¬π ++ [i] <+: σ → h'[m]? = h[m]? ∧ home' m = home m) :
    Shows h' home' (.node id) (other :: rest) o := by
  have hne : home' id ≠ none := by simp [hid', hid]
  cases hs with
  | error _ hm hread => exact .error hne hn' (hchild.trans hread)
  | @child _ _ _ _ t _ _ hm hread ht =>
    refine .child hne hn' (hchild.trans hread) ?_
    cases t with
    | leaf => exact ht.of_leaf
    | node k =>
      obtain ⟨j, -, hpart⟩ := Heap.target_of_child hn hread
      have hji : j ≠ i := fun hji => hnot k ht.home_ne_none hread (hji ▸ hpart)
      refine ht.congr (π := π ++ [j]) hh (fun l σ hl hσ => ?_) fun m σ hσ hpre => ?_
      · obtain rfl := Slot.node.inj hl
        obtain ⟨τ, hτ, rfl⟩ := hh.above id n j k σ hn hpart hσ
        rw [Option.some.inj (hid.symm.trans hτ)]
      · refine hsame m σ hσ ?_ (prefix_concat_ne hji hpre)
        rintro rfl
        exact not_prefix_concat _ _ _ hpre

end Shows

theorem Shows.grow {h h' : Heap} {home : Homes} {s : Slot} {segs : List String} {o : Outcome Value}
    (hs : Shows h home s segs o) (hh : Homed h home) (hg : h.Grows h') : Shows h' home s segs o := by
  refine hs.congr (π := []) hh (fun _ _ _ _ => List.nil_prefix) fun m σ hσ _ => ⟨?_, rfl⟩
  have hm := Array.getElem?_eq_getElem (hh.lt m σ hσ)
  rw [hm, hg.keeps m _ hm]

end Pagewright
