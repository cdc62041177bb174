import Pagewright.Proofs.Record.Sharing

/-!
# New nodes for a value

A value that is added gets nodes of its own. What was there before stays, and the new nodes are at home
at their places (`Heap.inserted_insert`).
-/

namespace Pagewright

/-- A slot is among the nodes that `h'` has and `h` has not. -/
def Slot.IsNew (h h' : Heap) (s : Slot) : Prop := s.In {m | h.size ≤ m ∧ m < h'.size}

/-- The nodes of `h` are in `h'`, and what is new refers to new nodes only. -/
structure Heap.Grows (h h' : Heap) : Prop where
  size_le : h.size ≤ h'.size
  keeps : ∀ (m : ℕ) (n : Node), h[m]? = some n → h'[m]? = some n
  new : ∀ (m : ℕ) (n : Node), h.size ≤ m → h'[m]? = some n → ∀ s ∈ n.container.parts, s.IsNew h h'

namespace Slot.IsNew

variable {h h₁ h' : Heap} {s : Slot}

theorem mono_left (hs : s.IsNew h₁ h') (hle : h.size ≤ h₁.size) : s.IsNew h h' := by
  cases s with
  | leaf => trivial
  | node id => exact ⟨hle.trans hs.1, hs.2⟩

theorem mono_right (hs : s.IsNew h h₁) (hle : h₁.size ≤ h'.size) : s.IsNew h h' := by
  cases s with
  | leaf => trivial
  | node id => exact ⟨hs.1, Nat.lt_of_lt_of_le hs.2 hle⟩

end Slot.IsNew

namespace Heap

theorem getElem?_push_of_some {h : Heap} {m : ℕ} {k : Node} (n : Node) (hk : h[m]? = some k) :
    (h.push n)[m]? = some k := by
  have := (Array.getElem?_eq_some_iff.mp hk).1
  rw [Array.getElem?_push, if_neg (by omega), hk]

namespace Grows

variable {h h₁ h₂ : Heap}

theorem refl (h : Heap) : Grows h h where
  size_le := Nat.le_refl _
  keeps _ _ hn := hn
  new m n hle hn := by
    have := (Array.getElem?_eq_some_iff.mp hn).1
    omega

theorem trans (h₁₂ : Grows h h₁) (h₂₃ : Grows h₁ h₂) : Grows h h₂ where
  size_le := h₁₂.size_le.trans h₂₃.size_le
  keeps m n hn := h₂₃.keeps m n (h₁₂.keeps m n hn)
  new m n hle hn s hs := by
    by_cases hm : h₁.size ≤ m
    · exact (h₂₃.new m n hm hn s hs).mono_left h₁₂.size_le
    · have hn₁ : h₁[m]? = some h₁[m] := Array.getElem?_eq_getElem (by omega)
      obtain rfl := Option.some.inj ((h₂₃.keeps m _ hn₁).symm.trans hn)
      exact (h₁₂.new m _ hle hn₁ s hs).mono_right h₂₃.size_le

theorem push (hg : Grows h h₁) {n : Node} (hn : ∀ s ∈ n.container.parts, s.IsNew h h₁) :
    Grows h (h₁.push n) where
  size_le := by
    have := hg.size_le
    simp only [Array.size_push]
    omega
  keeps m k hk := getElem?_push_of_some n (hg.keeps m k hk)
  new m k hle hk s hs := by
    have hnew : s.IsNew h h₁ := by
      rw [Array.getElem?_push] at hk
      split at hk
      · obtain rfl := Option.some.inj hk
        exact hn s hs
      · exact hg.new m k hle hk s hs
    exact hnew.mono_right (by simp)

/-- New nodes are closed under going to parts, together with closed ones. -/
theorem closed (hg : Grows h h₁) {shared : Set ℕ} (hclosed : Closed h shared) :
    Closed h₁ (shared ∪ {m | h.size ≤ m ∧ m < h₁.size}) := by
  rintro m (hm | ⟨hle, hlt⟩)
  · obtain ⟨n, hn, hbelow⟩ := hclosed m hm
    exact ⟨n, hg.keeps m n hn, fun k hk => .inl (hbelow k hk)⟩
  · have hn : h₁[m]? = some h₁[m] := Array.getElem?_eq_getElem hlt
    exact ⟨_, hn, fun k hk => .inr (hg.new m _ hle hn _ hk)⟩

end Grows

/-- A slot was made for a value: its nodes are new, and at home where it is put. -/
structure Inserted (h : Heap) (s : Slot) (h' : Heap) (v : Value) : Prop where
  grows : Grows h h'
  isNew : s.IsNew h h'
  reach : ∀ m, h.size ≤ m → m < h'.size → Reach h' s m
  placed : ∀ (shared : Set ℕ) (home : ℕ → List ℕ) (π : List ℕ), (∀ m ∈ shared, m < h.size) →
    ∃ home', (∀ m < h.size, home' m = home m) ∧ Placed ⟨h', shared, home', ∅, ∅⟩ s v π

/-- Slots were made for values, one by one. -/
structure InsertedAll (h : Heap) (slots : List Slot) (h' : Heap) (vs : List Value) : Prop where
  grows : Grows h h'
  length_eq : slots.length = vs.length
  isNew : ∀ s ∈ slots, s.IsNew h h'
  reach : ∀ m, h.size ≤ m → m < h'.size → ∃ s ∈ slots, Reach h' s m
  placed : ∀ (shared : Set ℕ) (home : ℕ → List ℕ) (π : List ℕ) (k : ℕ), (∀ m ∈ shared, m < h.size) →
    ∃ home', (∀ m < h.size, home' m = home m) ∧
      ∀ (i : ℕ) (s : Slot) (u : Value), slots[i]? = some s → vs[i]? = some u →
        Placed ⟨h', shared, home', ∅, ∅⟩ s u (π ++ [k + i])

theorem insertedAll_nil (h : Heap) : InsertedAll h [] h [] where
  grows := .refl h
  length_eq := rfl
  isNew := by simp
  reach m hle hlt := by omega
  placed _ home _ _ _ := ⟨home, fun _ _ => rfl, by simp⟩

/-- What stands at a place stays there when other nodes are added. -/
theorem placed_of_keeps {h h₁ : Heap} {shared : Set ℕ} {home home' : ℕ → List ℕ} {s : Slot} {v : Value}
    {π : List ℕ} (hp : Placed ⟨h, shared, home, ∅, ∅⟩ s v π)
    (hkeeps : ∀ (m : ℕ) (n : Node), h[m]? = some n → h₁[m]? = some n)
    (hhome : ∀ m < h.size, home' m = home m) : Placed ⟨h₁, shared, home', ∅, ∅⟩ s v π := by
  refine hp.congr (fun m n hm _ hn => ?_) (fun m u hm hu => ⟨hm, hu.mono hkeeps⟩) (fun _ _ => Iff.rfl)
    (Set.Subset.refl _)
  exact ⟨hm, hhome m (Array.getElem?_eq_some_iff.mp hn).1, hkeeps m n hn⟩

theorem InsertedAll.cons {h h₁ h₂ : Heap} {s : Slot} {v : Value} {slots : List Slot} {vs : List Value}
    (hv : Inserted h s h₁ v) (hvs : InsertedAll h₁ slots h₂ vs) :
    InsertedAll h (s :: slots) h₂ (v :: vs) where
  grows := hv.grows.trans hvs.grows
  length_eq := by simp [hvs.length_eq]
  isNew t ht := by
    rcases List.mem_cons.mp ht with rfl | ht
    · exact hv.isNew.mono_right hvs.grows.size_le
    · exact (hvs.isNew t ht).mono_left hv.grows.size_le
  reach m hle hlt := by
    by_cases hm : m < h₁.size
    · exact ⟨s, List.mem_cons_self, (hv.reach m hle hm).mono hvs.grows.keeps⟩
    · obtain ⟨t, ht, hreach⟩ := hvs.reach m (by omega) hlt
      exact ⟨t, List.mem_cons_of_mem s ht, hreach⟩
  placed shared home π k hshared := by
    obtain ⟨home₁, hhome₁, hplaced₁⟩ := hv.placed shared home (π ++ [k]) hshared
    obtain ⟨home₂, hhome₂, hplaced₂⟩ := hvs.placed shared home₁ π (k + 1) fun m hm =>
      Nat.lt_of_lt_of_le (hshared m hm) hv.grows.size_le
    refine ⟨home₂, fun m hm => ?_, fun i t u ht hu => ?_⟩
    · rw [hhome₂ m (Nat.lt_of_lt_of_le hm hv.grows.size_le), hhome₁ m hm]
    · cases i with
      | zero =>
        simp only [List.getElem?_cons_zero, Option.some.injEq] at ht hu
        rw [← ht, ← hu]
        exact placed_of_keeps hplaced₁ hvs.grows.keeps hhome₂
      | succ i =>
        have hk : k + (i + 1) = k + 1 + i := by omega
        rw [hk]
        exact hplaced₂ i t u (by simpa using ht) (by simpa using hu)

theorem Inserted.add {h h₁ : Heap} {n : Node} {c : Container Value}
    (hvs : InsertedAll h n.container.parts h₁ c.parts) (hshape : n.container.shape = c.shape) :
    Inserted h (h₁.add n).1 (h₁.add n).2 c.toValue where
  grows := hvs.grows.push hvs.isNew
  isNew := ⟨hvs.grows.size_le, by simp [Heap.add]⟩
  reach m hle hlt := by
    by_cases hm : m = h₁.size
    · subst hm
      exact .here
    · simp only [Heap.add, Array.size_push] at hlt
      obtain ⟨s, hs, hreach⟩ := hvs.reach m hle (by omega)
      exact .part Array.getElem?_push_size hs (hreach.mono fun _ _ => getElem?_push_of_some n)
  placed shared home π hshared := by
    obtain ⟨home₁, hhome₁, hplaced⟩ := hvs.placed shared home π 0 hshared
    have hkeeps (m : ℕ) (k : Node) : h₁[m]? = some k → (h₁.push n)[m]? = some k := getElem?_push_of_some n
    have hsize := hvs.grows.size_le
    refine ⟨Function.update home₁ h₁.size π, fun m hm => ?_, ?_⟩
    · rw [Function.update_of_ne (by omega), hhome₁ m hm]
    · refine .own (fun hm => ?_) (by simp) (Function.update_self _ _ _) ?_ hshape fun i s u hs hu => ?_
      · have := hshared _ hm
        omega
      · exact Array.getElem?_push_size
      · have hpart := hplaced i s u hs hu
        rw [Nat.zero_add] at hpart
        exact placed_of_keeps hpart hkeeps fun m hm => Function.update_of_ne (by omega) _ _

/-- The slots of the values of entries, added one by one. -/
theorem insertEntries_eq (h : Heap) (entries : Entries) :
    h.insertEntries entries =
      ((entries.map (·.1)).zip (h.insertItems (entries.map (·.2))).1,
        (h.insertItems (entries.map (·.2))).2) := by
  induction entries generalizing h with
  | nil => rfl
  | cons e rest ih =>
    obtain ⟨k, v⟩ := e
    simp only [insertEntries, ih, List.map_cons, insertItems, List.zip_cons_cons]

theorem insert_toValue (h : Heap) (c : Container Value)
    (hlength : (h.insertItems c.parts).1.length = c.parts.length) :
    ∃ n : Node, n.container.shape = c.shape ∧ n.container.parts = (h.insertItems c.parts).1 ∧
      h.insert c.toValue = (h.insertItems c.parts).2.add n := by
  cases c with
  | list items =>
    refine ⟨.list (h.insertItems items).1, ?_, rfl, rfl⟩
    rw [Container.shape_eq_iff]
    exact hlength
  | object entries =>
    simp only [Container.parts, List.length_map] at hlength
    refine ⟨.object ((entries.map (·.1)).zip (h.insertItems (entries.map (·.2))).1), ?_, ?_, ?_⟩
    · rw [Container.shape_eq_iff]
      simp [Node.container, List.map_fst_zip, hlength]
    · simp [Node.container, Container.parts, List.map_snd_zip, hlength]
    · simp only [Container.toValue, insert, insertEntries_eq]
      rfl

theorem inserted_insert (h : Heap) (v : Value) : Inserted h (h.insert v).1 (h.insert v).2 v := by
  induction hsize : sizeOf v using Nat.strong_induction_on generalizing h v with
  | _ size ih =>
    by_cases hv : v.isContainer = true
    · obtain ⟨c, rfl⟩ := Value.exists_toValue hv
      have hparts : ∀ vs : List Value, (∀ u ∈ vs, sizeOf u < size) → ∀ h : Heap,
          InsertedAll h (h.insertItems vs).1 (h.insertItems vs).2 vs := by
        intro vs
        induction vs with
        | nil => exact fun _ h => insertedAll_nil h
        | cons u vs ihvs =>
          intro hlt h
          exact .cons (ih _ (hlt u (by simp)) h u rfl)
            (ihvs (fun w hw => hlt w (List.mem_cons_of_mem _ hw)) _)
      have hall := hparts c.parts (fun u hu => ?_) h
      · obtain ⟨n, hshape, hn, heq⟩ := insert_toValue h c hall.length_eq
        rw [heq]
        exact .add (hn ▸ hall) hshape
      · obtain ⟨i, hi, rfl⟩ := List.mem_iff_getElem.mp hu
        rw [← hsize]
        exact Represents.sizeOf_part (List.getElem?_eq_getElem hi)
    · have hleaf : h.insert v = (.leaf v, h) := by
        cases v <;> simp_all [Value.isContainer, insert]
      rw [hleaf]
      exact ⟨.refl h, trivial, fun m hle hlt => absurd hle (Nat.not_le.mpr hlt),
        fun _ home _ _ => ⟨home, fun _ _ => rfl, .leaf (by simpa using hv)⟩⟩

theorem Inserted.represents {h h' : Heap} {s : Slot} {v : Value} (hs : Inserted h s h' v) :
    Represents h' s v := by
  obtain ⟨home, -, hplaced⟩ := hs.placed ∅ (fun _ => []) [] (by simp)
  exact hplaced.represents

end Heap

end Pagewright
