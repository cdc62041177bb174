import Pagewright.Proofs.Record.Insert
import Pagewright.Proofs.Record.Write

/-!
# The record under way

`Linked G id record` says that the node `id` owns a record that stands for the tree `record`. A write at a
path, of a slot that is shared or comes from that very path, is then in one of two cases (`Linked.write`).
If it leaves the held places as they are, the record stands for the written tree. If not, a shared node no
longer stands for what was written there, or the record not for the tree, and this can be read off the
heap.
-/

namespace Pagewright

/-- A node owns a record that stands for a tree, which has lists or objects at the held places. -/
structure Linked (G : Sharing) (id : ℕ) (record : Value) : Prop where
  closed : Closed G.heap G.shared
  own : id ∉ G.shared
  placed : Placed G (.node id) record []
  held : ∀ σ ∈ G.held, ∃ u, record.part? σ = some u ∧ u.isContainer = true

/-- What is shared stays shared and keeps its tree. -/
structure Sharing.Leads (G G' : Sharing) : Prop where
  represents : ∀ (s : Slot) (v : Value), s.In G.shared → Represents G.heap s v →
    s.In G'.shared ∧ Represents G'.heap s v

namespace Sharing.Leads

variable {G G₁ G₂ : Sharing}

theorem trans (h₁ : G.Leads G₁) (h₂ : G₁.Leads G₂) : G.Leads G₂ where
  represents s v hs hv :=
    have ⟨hs', hv'⟩ := h₁.represents s v hs hv
    h₂.represents s v hs' hv'

theorem refl (G : Sharing) : G.Leads G where
  represents _ _ hs hv := ⟨hs, hv⟩

end Sharing.Leads

namespace Linked

variable {G : Sharing} {id x : ℕ} {record record' u : Value} {new : Slot} {ρ : List ℕ}
variable {segs : List String} {h' : Heap} {wrote : Set (ℕ × Value)}

theorem exists_container (hl : Linked G id record) : ∃ c : Container Value, record = c.toValue := by
  obtain ⟨n, c, rfl, -⟩ := hl.placed.represents.node_inv
  exact ⟨c, rfl⟩

/-- A payload and a copy of it: the payload is shared from the start, and the copy is the record. -/
theorem start {c : Container Value} {h₁ h₂ : Heap} {s t : Slot} (hs : Heap.Inserted #[] s h₁ c.toValue)
    (ht : Heap.Inserted h₁ t h₂ c.toValue) : ∃ (id : ℕ) (G : Sharing), t = .node id ∧ G.heap = h₂ ∧
      Linked G id c.toValue ∧ s.In G.shared ∧ Represents h₂ s c.toValue ∧ G.held = ∅ ∧ G.wrote = ∅ := by
  obtain ⟨id, n, rfl, hn, -⟩ := ht.represents.toValue_inv
  let shared : Set ℕ := {m | (#[] : Heap).size ≤ m ∧ m < h₁.size}
  obtain ⟨home, -, hplaced⟩ := ht.placed shared (fun _ => []) [] fun m hm => hm.2
  have hclosed : Closed h₁ shared := by
    have hempty : Closed #[] ∅ := fun m hm => absurd hm (Set.notMem_empty m)
    have := hs.grows.closed hempty
    rwa [Set.empty_union] at this
  refine ⟨id, ⟨h₂, shared, home, ∅, ∅⟩, rfl, rfl, ⟨fun m hm => ?_, ?_, hplaced, by simp⟩, hs.isNew,
    hs.represents.mono ht.grows.keeps, rfl, rfl⟩
  · obtain ⟨k, hk, hbelow⟩ := hclosed m hm
    exact ⟨k, ht.grows.keeps m k hk, hbelow⟩
  · rintro ⟨-, hlt⟩
    exact absurd ht.isNew.1 (by omega)

/-- A value that is added is shared. -/
theorem grow {v : Value} (hl : Linked G id record) (hs : Heap.Inserted G.heap new h' v) :
    ∃ G' : Sharing, G'.heap = h' ∧ Linked G' id record ∧ G.Leads G' ∧ new.In G'.shared ∧
      G'.held = G.held ∧ G'.wrote = G.wrote := by
  let shared : Set ℕ := G.shared ∪ {m | G.heap.size ≤ m ∧ m < h'.size}
  have hlt {m : ℕ} {n : Node} (hn : G.heap[m]? = some n) : ¬(G.heap.size ≤ m ∧ m < h'.size) := by
    have := (Array.getElem?_eq_some_iff.mp hn).1
    omega
  obtain ⟨n, -, -, hn, -⟩ := hl.placed.represents.node_inv
  refine ⟨⟨h', shared, G.home, G.held, G.wrote⟩, rfl, ⟨hs.grows.closed hl.closed, ?_, ?_, hl.held⟩,
    ⟨fun s w hs' hw => ⟨?_, hw.mono hs.grows.keeps⟩⟩, ?_, rfl, rfl⟩
  · rintro (h | h)
    · exact hl.own h
    · exact hlt hn h
  · refine hl.placed.congr (fun m k hm _ hk => ⟨?_, rfl, hs.grows.keeps m k hk⟩)
      (fun m w hm hw => ⟨.inl hm, hw.mono hs.grows.keeps⟩) (fun _ _ => Iff.rfl) (Set.Subset.refl _)
    rintro (h | h)
    · exact hm h
    · exact hlt hk h
  · cases s with
    | leaf => trivial
    | node k => exact .inl hs'
  · cases new with
    | leaf => trivial
    | node k => exact .inr hs.isNew

/-- The node at a place of the record becomes shared, with all nodes below it. -/
theorem share (hl : Linked G id record) (hu : Represents G.heap (.node x) u) (hx : x ∉ G.shared)
    (hpart : G.heap.part? (.node id) ρ = some (.node x)) (hrecord : record.part? ρ = some u)
    (hρ : ρ ≠ []) :
    Linked { G with
      shared := G.shared ∪ {m | Reach G.heap (.node x) m}
      held := heldAfter G.held ρ u
      wrote := insert (x, u) G.wrote } id record := by
  have hplaced : Placed G (.node x) u ρ := by
    rcases hl.placed.part? hl.closed hpart hrecord with h | h
    · simpa using h
    · exact absurd h hx
  have hreach {m : ℕ} (hm : Reach G.heap (.node x) m) : m ∈ G.shared ∨ ρ <+: G.home m :=
    hplaced.mem_or_prefix_of_reach hl.closed hm
  have hcontainer : u.isContainer = true := by
    obtain ⟨_, c, rfl, -⟩ := hu.node_inv
    exact Value.isContainer_toValue c
  have hhome : G.home id = [] := by
    cases hl.placed with
    | shared hid => exact absurd hid hl.own
    | own _ _ hhome => exact hhome
  refine ⟨hl.closed.union hu, ?_, ?_, fun σ hσ => ?_⟩
  · rintro (h | h)
    · exact hl.own h
    · rcases hreach h with h | h
      · exact hl.own h
      · rw [hhome] at h
        exact hρ (List.prefix_nil.mp h)
  · refine hl.placed.share (ρ := ρ) (fun h => List.prefix_nil.mp h) (fun σ hσ => ?_)
      (fun m n hm hpre hn => ⟨?_, rfl, hn⟩) (fun m v hm hv => ⟨.inl hm, hv⟩)
      (fun σ hσ => mem_heldAfter_of_not_below hσ) (.inr ⟨rfl, hcontainer⟩) (Set.subset_insert _ _)
    · rw [List.nil_append] at hσ
      subst hσ
      exact ⟨x, u, hpart, hrecord, .inr .here, Set.mem_insert _ _, hu⟩
    · rintro (h | h)
      · exact hm h
      · exact (hreach h).elim hm hpre
  · rcases hσ with ⟨hσ, -⟩ | ⟨rfl, -⟩
    · exact hl.held σ hσ
    · exact ⟨u, hrecord, hcontainer⟩

/-- A write among own nodes keeps the record linked. -/
theorem of_stayed {home : ℕ → List ℕ} (hl : Linked G id record)
    (hstay : Stayed G id record' u [] ρ h' wrote home) (hnew : record'.part? ρ = some u)
    (hframe : ∀ σ, ¬ρ <+: σ → ¬σ <+: ρ → record'.part? σ = record.part? σ) :
    Linked ⟨h', G.shared, home, heldAfter G.held ρ u, wrote⟩ id record' ∧
      G.Leads ⟨h', G.shared, home, heldAfter G.held ρ u, wrote⟩ ∧
      ∀ σ ∈ G.held, ¬ρ <+: σ → record'.part? σ = record.part? σ := by
  have hsame : ∀ m ∈ G.shared, h'[m]? = G.heap[m]? := by
    intro m hm
    obtain ⟨n, hn, -⟩ := hl.closed m hm
    rw [hn, hstay.frame m n hn (.inl hm)]
  have hbeside : ∀ σ ∈ G.held, ¬ρ <+: σ → record'.part? σ = record.part? σ := by
    intro σ hσ hpre
    exact hframe σ hpre fun h => hpre (hstay.inside σ hσ List.nil_prefix h)
  refine ⟨⟨fun m hm => ?_, hl.own, hstay.placed, fun σ hσ => ?_⟩, ⟨fun s v hs hv =>
    ⟨hs, hv.of_shared hl.closed hs hsame⟩⟩, hbeside⟩
  · obtain ⟨n, hn, hbelow⟩ := hl.closed m hm
    exact ⟨n, (hsame m hm).trans hn, hbelow⟩
  · rcases hσ with ⟨hσ, hpre⟩ | ⟨rfl, hcontainer⟩
    · obtain ⟨w, hw, hcontainer⟩ := hl.held σ hσ
      exact ⟨w, (hbeside σ hσ hpre).trans hw, hcontainer⟩
    · exact ⟨u, hnew, hcontainer⟩

/-- A write that goes on in shared nodes and leaves their tree as it is keeps the record linked. -/
theorem of_entered {τ : List ℕ} {y : ℕ} {w : Value} {rest : List String} (hl : Linked G id record)
    (hnew : Represents G.heap new u) (hin : new.In G.shared)
    (henter : Entered G id record record u new [] ρ segs τ y w w rest)
    (hpart : record.part? ρ = some u) (hassign : G.heap.assignAt id new segs = .ok h')
    (hwrote : G.wrote ⊆ wrote) :
    Linked ⟨h', G.shared, G.home, heldAfter G.held ρ u, wrote⟩ id record ∧
      G.Leads ⟨h', G.shared, G.home, heldAfter G.held ρ u, wrote⟩ := by
  have hassign' : G.heap.assignAt y new rest = .ok h' := henter.heap.symm.trans hassign
  obtain ⟨hclosed, hkeep⟩ :=
    Represents.of_same hl.closed henter.shared henter.represents hnew hin henter.value hassign'
  have hown {m : ℕ} {n : Node} (hm : m ∉ G.shared) (hn : G.heap[m]? = some n) : h'[m]? = some n :=
    hl.closed.assignAt henter.shared hassign' hm hn
  have hbelow {σ : List ℕ} (hσ : ¬τ <+: σ) : ¬ρ <+: σ := fun h => hσ (henter.above.trans h)
  refine ⟨⟨hclosed, hl.own, ?_, fun σ hσ => ?_⟩, ⟨fun s v hs hv => ⟨hs, hkeep s v hv⟩⟩⟩
  · refine hl.placed.share (ρ := τ) (fun h => List.prefix_nil.mp h) (fun σ hσ => ?_)
      (fun m n hm _ hn => ⟨hm, rfl, hown hm hn⟩) (fun m v hm hv => ⟨hm, hkeep _ v hv⟩)
      (fun σ hσ => mem_heldAfter_of_not_below (hbelow hσ)) (.inl ⟨henter.held, henter.inside⟩) hwrote
    rw [List.nil_append] at hσ
    subst hσ
    exact ⟨y, w, henter.way G.heap fun _ _ _ hn => hn, henter.before, henter.shared,
      hwrote henter.wrote, hkeep _ w henter.represents⟩
  · rcases hσ with ⟨hσ, -⟩ | ⟨rfl, hcontainer⟩
    · exact hl.held σ hσ
    · exact ⟨u, hpart, hcontainer⟩

/-- A write that goes on in shared nodes and changes their tree can be read off the heap. -/
theorem disturbed_of_entered {τ : List ℕ} {y : ℕ} {w w' : Value} {rest : List String}
    (hl : Linked G id record) (henter : Entered G id record record' u new [] ρ segs τ y w w' rest)
    (hne : w' ≠ w) (hassign : G.heap.assignAt id new segs = .ok h') :
    ¬(h'.toValue (.node id) = .ok record' ∧ h'.toValue (.node y) = .ok w) := by
  rintro ⟨hrecord, hnode⟩
  have hassign' : G.heap.assignAt y new rest = .ok h' := henter.heap.symm.trans hassign
  have hway := henter.way h' fun m n hm hn => hl.closed.assignAt henter.shared hassign' hm hn
  obtain ⟨e, v, hv, hpart⟩ := Heap.toValueWithin_part? (Heap.toValueWithin_of_toValue hrecord) hway
  obtain rfl := Heap.toValueWithin_unique hv (Heap.toValueWithin_of_toValue hnode)
  exact hne (Option.some.inj (henter.after.symm.trans hpart))

/-- A write has kept the record linked, and what was written is shared from now on. -/
structure Kept (G G' : Sharing) (id : ℕ) (record' : Value) (path : String) (new : Slot) (u : Value) :
    Prop where
  linked : Linked G' id record'
  leads : G.Leads G'
  new_in : new.In G'.shared
  represents : Represents G'.heap new u
  held : G'.held = heldAlong G.held record' path u
  wrote : ∀ (y : ℕ) (w : Value), (y, w) ∈ G'.wrote → (y, w) ∈ G.wrote ∨ (new = .node y ∧ w = u)

/-- A write has changed what a shared node stands for, or the record no longer stands for its tree. -/
def Disturbed (G : Sharing) (id : ℕ) (record' : Value) (h' : Heap) : Prop :=
  ∃ (y : ℕ) (w : Value), (y, w) ∈ G.wrote ∧
    ¬(h'.toValue (.node id) = .ok record' ∧ h'.toValue (.node y) = .ok w)

/-- A write of a shared slot keeps the record linked just when it is quiet. -/
theorem write_shared {path : String} (hl : Linked G id record) (hu : Represents G.heap new u)
    (hin : new.In G.shared) (hv : record.assign path u = .ok record')
    (hassign : G.heap.assign id path new = .ok h') :
    (Quiet G.held record record' path ∧
      ∃ G' : Sharing, G'.heap = h' ∧ Kept G G' id record' path new u) ∨
    (¬Quiet G.held record record' path ∧ Disturbed G id record' h') := by
  obtain ⟨c, rfl⟩ := hl.exists_container
  have hnowhere (hplace : record'.placeOf? path = none) (heq : record' = c.toValue) (hh : h' = G.heap) :
      Quiet G.held c.toValue record' path ∧
        ∃ G' : Sharing, G'.heap = h' ∧ Kept G G' id record' path new u := by
    subst heq hh
    exact ⟨Quiet.refl _ _ _, G, rfl, hl, .refl G, hin, hu, by simp [heldAlong, hplace],
      fun _ _ h => .inl h⟩
  by_cases hsegs : Path.segments path = []
  · rw [Value.assign, hsegs] at hv
    rw [Heap.assign, hsegs] at hassign
    exact .inl (hnowhere (by rw [Value.placeOf?, hsegs]) (Except.ok.inj hv).symm
      (Except.ok.inj hassign).symm)
  have hplaceOf := Value.placeOf?_eq hsegs
  cases hwritten : Value.written_of_assignAt hsegs hv with
  | refused heq hnone _ =>
    obtain ⟨w, hw, hsame⟩ := (hl.placed.represents.assignAt new u hsegs).of_ok_left hassign
    obtain rfl := Except.ok.inj (hw.symm.trans hv)
    exact .inl (hnowhere ((hplaceOf w).trans hnone) heq (hsame hnone))
  | placed ρ hplace hne hnew hframe =>
    have hheld : heldAlong G.held record' path u = heldAfter G.held ρ u := by
      rw [heldAlong, hplaceOf, hplace]
    have hquiet (h : ∀ σ ∈ G.held, ¬ρ <+: σ → record'.part? σ = c.toValue.part? σ) :
        Quiet G.held c.toValue record' path := by
      intro ρ' hρ'
      rw [hplaceOf, hplace] at hρ'
      exact Option.some.inj hρ' ▸ h
    let wrote : Set (ℕ × Value) := G.wrote ∪ {p | new = .node p.1 ∧ p.2 = u}
    have hwrote : G.wrote ⊆ wrote := Set.subset_union_left
    rcases hl.placed.assignAt hl.own hl.closed hu hin hwrote (fun x hx => .inr ⟨hx, rfl⟩) hl.held hsegs
        hassign hv hplace with
      ⟨home, hstay⟩ | ⟨τ, y, w, w', rest, henter⟩
    · obtain ⟨hlinked, hleads, hbeside⟩ := hl.of_stayed hstay hnew hframe
      obtain ⟨hin', hu'⟩ := hleads.represents new u hin hu
      exact .inl ⟨hquiet hbeside, _, rfl, hlinked, hleads, hin', hu', hheld.symm, fun _ _ h => h⟩
    · by_cases hw : w' = w
      · subst hw
        obtain rfl := henter.same rfl
        obtain ⟨hlinked, hleads⟩ := hl.of_entered hu hin henter hnew hassign hwrote
        obtain ⟨hin', hu'⟩ := hleads.represents new u hin hu
        exact .inl ⟨Quiet.refl _ _ _, _, rfl, hlinked, hleads, hin', hu', hheld.symm, fun _ _ h => h⟩
      · refine .inr ⟨fun hq => hw ?_, y, w, henter.wrote, hl.disturbed_of_entered henter hw hassign⟩
        have hsame := hq ρ (by rw [hplaceOf, hplace]) τ henter.held henter.inside
        rw [henter.before, henter.after] at hsame
        exact Option.some.inj hsame

/-- A write at a path keeps the record linked just when it is quiet. What is written is shared, or it is
what the record has at that path. -/
theorem write {path : String} (hl : Linked G id record) (hu : Represents G.heap new u)
    (hpresent : u.isPresent = true)
    (hsource : new.In G.shared ∨
      (record.find path = .ok u ∧ G.heap.find (.node id) path = .ok new))
    (hv : record.assign path u = .ok record') (hassign : G.heap.assign id path new = .ok h') :
    (Quiet G.held record record' path ∧
      ∃ G' : Sharing, G'.heap = h' ∧ Kept G G' id record' path new u) ∨
    (¬Quiet G.held record record' path ∧ Disturbed G id record' h') := by
  by_cases hin : new.In G.shared
  · exact hl.write_shared hu hin hv hassign
  · obtain ⟨hfind, hfind'⟩ := hsource.resolve_left hin
    have hsegs : Path.segments path ≠ [] := by
      intro h
      simp only [Value.find, h, Except.ok.injEq] at hfind
      simp [← hfind, Value.isPresent] at hpresent
    have hwalk : record.walk (Path.segments path) = .ok u := by
      rw [← Value.find_eq_walk hsegs, hfind]
    have hwalk' : G.heap.walk (.node id) (Path.segments path) = .ok new := by
      rw [← hfind', Heap.find]
      split <;> simp_all
    have hnull : u.isNull = false := by
      cases u <;> simp_all [Value.isPresent, Value.isNull]
    obtain ⟨ρ, hplace, hpart⟩ := Value.place?_of_walk hwalk hnull
    obtain rfl : record = record' := Except.ok.inj ((Value.assignAt_of_place? hplace hpart).symm.trans hv)
    refine .inl ⟨Quiet.refl _ _ _, ?_⟩
    cases new with
    | leaf => exact absurd trivial hin
    | node x =>
      have hρ : ρ ≠ [] := by
        rintro rfl
        obtain ⟨segment, rest, hcons⟩ := List.exists_cons_of_ne_nil hsegs
        rw [hcons] at hplace
        obtain ⟨_, _, _, _, -, -, -, -, h⟩ := Value.place?_cons_eq_some hplace
        simp at h
      have hl₁ := hl.share hu hin (hl.placed.represents.part?_of_walk hplace hwalk') hpart hρ
      rcases hl₁.write_shared hu (.inr .here) hv hassign with ⟨-, G', hheap, hkept⟩ | ⟨hquiet, -⟩
      · refine ⟨G', hheap, hkept.linked, ⟨fun s v hs hw => ?_⟩, hkept.new_in, hkept.represents, ?_,
          fun y w hw => ?_⟩
        · exact hkept.leads.represents s v (by cases s <;> simp_all [Slot.In]) hw
        · rw [hkept.held, heldAlong, heldAlong, Value.placeOf?_eq hsegs, hplace]
          exact heldAfter_heldAfter _ _ _ _
        · rcases hkept.wrote y w hw with (h | h) | h
          · obtain ⟨rfl, rfl⟩ := Prod.mk.inj h
            exact .inr ⟨rfl, rfl⟩
          · exact .inl h
          · exact .inr h
      · exact absurd (Quiet.refl _ _ _) hquiet

end Linked

end Pagewright
