import Pagewright.Proofs.Record.Shows

/-!
# Reading beside a write

A write along one path reaches the own nodes at that path and below, and no others, however much is shared
besides. So what is read along a path that diverges from it stays as it was (`Homed.assignAt`).
-/

namespace Pagewright

/-- What a write at the node `id` does: own nodes stay at home, those that are not at or below `id` stay as
they are, and so does what is read at `id` along segments that diverge from the written ones. -/
structure Homed.Wrote (h : Heap) (home : Homes) (id : ℕ) (segs : List String) (h' : Heap)
    (home' : Homes) : Prop where
  homed : Homed h' home'
  size_le : h.size ≤ h'.size
  home_eq : ∀ m < h.size, home' m = home m
  frame : ∀ m σ, home m = some σ → (∀ π, home id = some π → ¬π <+: σ) → h'[m]? = h[m]?
  shows : ∀ others o, Path.Diverge segs others → Shows h home (.node id) others o →
    Shows h' home' (.node id) others o

namespace Homed.Wrote

variable {h h' : Heap} {home home' : Homes} {id i : ℕ} {n : Node} {segment : String}
variable {rest segs : List String} {new : Slot}

theorem refl (hh : Homed h home) (id : ℕ) (segs : List String) : Wrote h home id segs h home where
  homed := hh
  size_le := Nat.le_refl _
  home_eq _ _ := rfl
  frame _ _ _ _ := rfl
  shows _ _ _ hs := hs

/-- A write of a part of its own node. -/
theorem last (hh : Homed h home) (hn : h[id]? = some n)
    (htarget : n.container.target? segment = .ok (some i)) (hnew : new.Foreign h home) :
    Wrote h home id [segment] (h.set! id (n.container.put segment i new).toNode) home := by
  have hset := Heap.getElem?_set hn (n.container.put segment i new).toNode
  have hother {m : ℕ} (hm : m ≠ id) :
      (h.set! id (n.container.put segment i new).toNode)[m]? = h[m]? := by rw [hset, if_neg hm]
  have hn' := (hset id).trans (if_pos rfl)
  refine ⟨hh.put hn htarget (hnew.fits id i), by simp, fun _ _ => rfl, fun m σ hσ hnot => hother ?_,
    fun others o hdiverge hs => ?_⟩
  · rintro rfl
    exact hnot σ hσ (List.prefix_refl σ)
  · obtain ⟨k, a, b, ha, hb, hab⟩ := hdiverge
    cases k with
    | succ k => simp at ha
    | zero =>
      obtain rfl : segment = a := by simpa using ha
      cases others with
      | nil => simp at hb
      | cons other others =>
        obtain rfl : other = b := by simpa using hb
        obtain ⟨π, hπ⟩ := Option.ne_none_iff_exists'.mp hs.home_ne_none
        refine hs.beside (i := i) hh hπ hn hn' rfl ?_ (fun k hk hread hpart => ?_) fun m σ hσ hne _ => ?_
        · rcases Container.get_put htarget new other with ⟨hagree, -⟩ | hsame
          · exact absurd hagree hab
          · rw [Heap.child_eq_get hn', Node.container_toNode, hsame, Heap.child_eq_get hn]
        · obtain ⟨j, hj, hpart'⟩ := Heap.target_of_child hn hread
          obtain rfl : i = j := hh.part_unique hn hk hpart hpart'
          exact hab (Container.agree_of_target htarget hj hpart)
        · refine ⟨hother ?_, rfl⟩
          rintro rfl
          exact hne (Option.some.inj (hσ.symm.trans hπ))

/-- A write that goes on in the node of a part. -/
theorem next {next : ℕ} (hh : Homed h home) (hn : h[id]? = some n)
    (htarget : n.container.target? segment = .ok (some i))
    (hpart : n.container.parts[i]? = some (.node next)) (hw : Wrote h home next rest h' home') :
    Wrote h home id (segment :: rest) h' home' := by
  have hbelow {π τ : List ℕ} (hπ : home id = some π) (hτ : home next = some τ) : τ = π ++ [i] := by
    obtain ⟨π', hπ', rfl⟩ := hh.above id n i next τ hn hpart hτ
    rw [Option.some.inj (hπ.symm.trans hπ')]
  have hframe {m : ℕ} {σ : List ℕ} (hσ : home m = some σ) (hnot : ∀ π, home id = some π → ¬π ++ [i] <+: σ) :
      h'[m]? = h[m]? := by
    refine hw.frame m σ hσ fun τ hτ hpre => ?_
    obtain ⟨π, hπ, rfl⟩ := hh.above id n i next τ hn hpart hτ
    exact hnot π hπ hpre
  refine ⟨hw.homed, hw.size_le, hw.home_eq, fun m σ hσ hnot => hframe hσ fun π hπ hpre => ?_,
    fun others o hdiverge hs => ?_⟩
  · exact hnot π hπ ((List.prefix_append π [i]).trans hpre)
  · obtain ⟨other, others, rfl⟩ := hdiverge.exists_cons
    obtain ⟨π, hπ⟩ := Option.ne_none_iff_exists'.mp hs.home_ne_none
    have hn' : h'[id]? = some n := by
      rw [hframe hπ fun τ hτ => Option.some.inj (hπ.symm.trans hτ) ▸ not_prefix_concat _ _ _, hn]
    have hchild : h'.child (.node id) other = h.child (.node id) other := by
      rw [Heap.child_eq_get hn, Heap.child_eq_get hn']
    have hid' : home' id = home id := hw.home_eq id (hh.lt id π hπ)
    by_cases hread : h.child (.node id) other = .ok (.node next)
    · -- The two paths go on in one node, so they diverge further down.
      cases hs with
      | error _ _ herror => simp [hread] at herror
      | child _ _ hread' ht =>
        obtain rfl := Except.ok.inj (hread'.symm.trans hread)
        obtain ⟨j, hj, hpart'⟩ := Heap.target_of_child hn hread
        obtain rfl : i = j := hh.part_unique hn ht.home_ne_none hpart hpart'
        have hagree := Container.agree_of_target htarget hj hpart
        exact .child (by simp [hid', hπ]) hn' (hchild.trans hread) (hw.shows _ _ (hdiverge.tail hagree) ht)
    · refine hs.beside (i := i) hh hπ hn hn' hid' hchild (fun k _ hk hpart' => hread ?_)
        fun m σ hσ _ hnot => ⟨hframe hσ fun τ hτ => ?_, hw.home_eq m (hh.lt m σ hσ)⟩
      · rw [hk, Option.some.inj (hpart'.symm.trans hpart)]
      · rwa [Option.some.inj (hτ.symm.trans hπ)]

/-! ### A write that goes on in a new object

The new object stands in the place of a part that was no node, and its home is below the one of `id`. -/

section opened

variable (hh : Homed h home) (hn : h[id]? = some n)
variable (hw : Wrote (h.opened id n.container segment i)
  (Function.update home h.size ((home id).map (· ++ [i]))) h.size rest h' home')

include hh hw in
theorem opened_getElem? {m : ℕ} {σ : List ℕ} (hσ : home m = some σ)
    (hnot : ∀ π, home id = some π → ¬π ++ [i] <+: σ) :
    h'[m]? = (h.opened id n.container segment i)[m]? := by
  have hm : m ≠ h.size := Nat.ne_of_lt (hh.lt m σ hσ)
  refine hw.frame m σ (by rw [Function.update_of_ne hm, hσ]) fun τ hτ hpre => ?_
  rw [Function.update_self, Option.map_eq_some_iff] at hτ
  obtain ⟨π, hπ, rfl⟩ := hτ
  exact hnot π hπ hpre

include hh hn hw in
theorem opened_frame {m : ℕ} {σ : List ℕ} (hσ : home m = some σ) (hm : m ≠ id)
    (hnot : ∀ π, home id = some π → ¬π ++ [i] <+: σ) : h'[m]? = h[m]? := by
  have hlt := hh.lt m σ hσ
  rw [opened_getElem? hh hw hσ hnot, Heap.getElem?_opened hn, if_neg hm, if_neg (by omega)]

include hh hn hw in
theorem opened_node {π : List ℕ} (hπ : home id = some π) :
    h'[id]? = some (n.container.put segment i (.node h.size)).toNode := by
  rw [opened_getElem? hh hw hπ fun τ hτ => Option.some.inj (hπ.symm.trans hτ) ▸ not_prefix_concat _ _ _,
    Heap.getElem?_opened hn, if_pos rfl]

include hw in
theorem opened_size_lt : h.size < h'.size := by
  have hle := hw.size_le
  rwa [Heap.size_opened] at hle

include hw in
theorem opened_home {m : ℕ} (hm : m < h.size) : home' m = home m := by
  have hm' : m < (h.opened id n.container segment i).size := by
    rw [Heap.size_opened]
    omega
  rw [hw.home_eq m hm', Function.update_of_ne (by omega)]

include hh hn hw in
theorem opened_shows (htarget : n.container.target? segment = .ok (some i))
    (hpart : ∀ next, n.container.parts[i]? ≠ some (.node next)) {others : List String} {o : Outcome Value}
    (hdiverge : Path.Diverge (segment :: rest) others) (hs : Shows h home (.node id) others o) :
    Shows h' home' (.node id) others o := by
  have hlt : id < h.size := (Array.getElem?_eq_some_iff.mp hn).1
  obtain ⟨other, others, rfl⟩ := hdiverge.exists_cons
  obtain ⟨π, hπ⟩ := Option.ne_none_iff_exists'.mp hs.home_ne_none
  have hid' : home' id = home id := opened_home hw hlt
  have hn' := opened_node hh hn hw hπ
  have hread : h'.child (.node id) other =
      (n.container.put segment i (.node h.size)).get other >>= fun a => .ok (a.getD .null) := by
    rw [Heap.child_eq_get hn', Node.container_toNode]
  rcases Container.get_put htarget (.node h.size) other with ⟨hagree, hget, hget'⟩ | hsame
  · -- The part was no node, so that nothing was read below it; nor is anything in the new object.
    have hdiverge' := hdiverge.tail hagree
    obtain ⟨other', others, rfl⟩ := hdiverge'.exists_cons
    have hold : h.child (.node id) other = .ok (n.container.parts[i]?.getD .null) := by
      rw [Heap.child_eq_get hn, hget']
      rfl
    obtain rfl : o = .ok .null := by
      cases hs with
      | error _ _ herror => simp [hold] at herror
      | child _ _ hread' ht =>
        obtain rfl := Except.ok.inj (hold.symm.trans hread')
        exact ht.eq_null hpart
    have hnew : (h.opened id n.container segment i)[h.size]? = some (.object []) := by
      rw [Heap.getElem?_opened hn, if_neg (by omega), if_pos rfl]
    refine .child (by simp [hid', hπ]) hn' (by rw [hread, hget]; rfl) (hw.shows _ _ hdiverge' ?_)
    exact .of_empty hnew (by simp [hπ]) other' others
  · refine hs.beside (i := i) hh hπ hn hn' hid' ?_ (fun k _ _ => hpart k)
      fun m σ hσ hm hnot => ⟨opened_frame hh hn hw hσ ?_ fun τ hτ => ?_, opened_home hw (hh.lt m σ hσ)⟩
    · rw [hread, hsame, Heap.child_eq_get hn]
    · rintro rfl
      exact hm (Option.some.inj (hσ.symm.trans hπ))
    · rwa [Option.some.inj (hτ.symm.trans hπ)]

include hh hn hw in
theorem opened (htarget : n.container.target? segment = .ok (some i))
    (hpart : ∀ next, n.container.parts[i]? ≠ some (.node next)) :
    Wrote h home id (segment :: rest) h' home' where
  homed := hw.homed
  size_le := (opened_size_lt hw).le
  home_eq _ := opened_home hw
  frame m σ hσ hnot := by
    refine opened_frame hh hn hw hσ ?_ fun π hπ hpre => hnot π hπ ((List.prefix_append π [i]).trans hpre)
    rintro rfl
    exact hnot σ hσ (List.prefix_refl σ)
  shows _ _ := opened_shows hh hn hw htarget hpart

end opened

end Homed.Wrote

/-- A write of a foreign slot leaves alone what is read along segments that diverge from its own. -/
theorem Homed.assignAt {h h' : Heap} {home : Homes} {id : ℕ} {new : Slot} {segs : List String}
    (hh : Homed h home) (hnew : new.Foreign h home) (hassign : h.assignAt id new segs = .ok h') :
    ∃ home', Wrote h home id segs h' home' := by
  induction segs generalizing h home id with
  | nil =>
    obtain rfl := Except.ok.inj hassign
    exact ⟨home, .refl hh id []⟩
  | cons segment rest ih =>
    cases hn : h[id]? with
    | none =>
      rw [Heap.assignAt_of_missing hn] at hassign
      obtain rfl := Except.ok.inj hassign
      exact ⟨home, .refl hh id _⟩
    | some n =>
      cases htarget : n.container.target? segment with
      | error e => simp [Heap.assignAt_of_error hn htarget] at hassign
      | ok target =>
        cases target with
        | none =>
          rw [Heap.assignAt_of_refused hn htarget] at hassign
          obtain rfl := Except.ok.inj hassign
          exact ⟨home, .refl hh id _⟩
        | some i =>
          cases rest with
          | nil =>
            rw [Heap.assignAt_of_last hn htarget] at hassign
            obtain rfl := Except.ok.inj hassign
            exact ⟨home, .last hh hn htarget hnew⟩
          | cons s rest =>
            by_cases hpart : ∃ next, n.container.parts[i]? = some (.node next)
            · obtain ⟨next, hnext⟩ := hpart
              rw [Heap.assignAt_of_node hn htarget hnext] at hassign
              obtain ⟨home', hw⟩ := ih hh hnew hassign
              exact ⟨home', hw.next hh hn htarget hnext⟩
            · rw [Heap.assignAt_of_not_node hn htarget fun next hnext => hpart ⟨next, hnext⟩] at hassign
              have hlt : id < h.size := (Array.getElem?_eq_some_iff.mp hn).1
              obtain ⟨home', hw⟩ := ih (hh.opened hn htarget) (hnew.mono (by simp)
                fun m hm => Function.update_of_ne (by omega) _ _) hassign
              exact ⟨home', .opened hh hn hw htarget fun next hnext => hpart ⟨next, hnext⟩⟩

theorem Heap.assignAt_of_walk {h : Heap} {id x : ℕ} {segs : List String} (hsegs : segs ≠ [])
    (hwalk : h.walk (.node id) segs = .ok (.node x)) : h.assignAt id (.node x) segs = .ok h := by
  induction segs generalizing id with
  | nil => exact absurd rfl hsegs
  | cons segment rest ih =>
    rw [Heap.walk, Slot.isNull, if_neg Bool.false_ne_true, Outcome.bind_eq_ok] at hwalk
    obtain ⟨t, hchild, hwalk⟩ := hwalk
    obtain ⟨k, rfl⟩ : ∃ k, t = .node k := by
      cases t with
      | node k => exact ⟨k, rfl⟩
      | leaf v =>
        cases rest with
        | nil => simp [Heap.walk] at hwalk
        | cons => simp [Shows.walk_leaf, Slot.null] at hwalk
    obtain ⟨_, n, i, heq, hn, -⟩ := exists_of_child hchild
    obtain rfl := Slot.node.inj heq
    obtain ⟨i, htarget, hpart⟩ := target_of_child hn hchild
    cases rest with
    | nil =>
      obtain rfl := Slot.node.inj (Except.ok.inj hwalk)
      rw [assignAt_of_last hn htarget, Container.put_eq_self htarget hpart, Node.toNode_container]
      refine congrArg _ (Array.ext_getElem? fun m => ?_)
      rw [getElem?_set hn]
      split
      · rename_i hm
        rw [hm, hn]
      · rfl
    | cons s rest =>
      rw [assignAt_of_node hn htarget hpart]
      exact ih (by simp) hwalk

end Pagewright
