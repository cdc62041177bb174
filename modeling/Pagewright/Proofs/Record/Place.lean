import Mathlib.Data.Set.Basic
import Pagewright.Proofs.Record.Container

/-!
# Places

A path leads to a place of a value: the numbers of the parts on the way there (`Value.place?`). Two paths
can lead to one place, such as `rows.0` and `rows.00` into a list; places tell them apart exactly.

A write is either refused by a list, and changes nothing, or its path leads to a place of the new value,
where the new part stands, and no place beside it has changed (`Value.written_of_assignAt`). For paths
this says that paths which diverge from the written one read what they read before
(`Value.find_assign_of_diverge`).
-/

namespace Pagewright

namespace Path

/-- Whether two segments are the same or stand for one position of a list. -/
def Agree (a b : String) : Prop := a = b ∨ ∃ n, index? a = .ok (some n) ∧ index? b = .ok (some n)

/-- Whether two paths have segments at one position that do not agree. -/
def Diverge (p q : List String) : Prop :=
  ∃ (i : ℕ) (a b : String), p[i]? = some a ∧ q[i]? = some b ∧ ¬Agree a b

instance (a b : String) : Decidable (Agree a b) :=
  decidable_of_iff (a = b ∨ ∃ m, index? a = .ok m ∧ m.isSome = true ∧ index? b = .ok m) <| by
    refine or_congr_right ⟨fun ⟨m, ha, hm, hb⟩ => ?_, fun ⟨n, ha, hb⟩ => ⟨some n, ha, rfl, hb⟩⟩
    obtain ⟨n, rfl⟩ := Option.isSome_iff_exists.mp hm
    exact ⟨n, ha, hb⟩

theorem diverge_iff {p q : List String} : Diverge p q ↔ ∃ x ∈ p.zip q, ¬Agree x.1 x.2 := by
  simp only [Diverge, List.mem_iff_getElem?, List.getElem?_zip_eq_some]
  constructor
  · rintro ⟨i, a, b, ha, hb, hab⟩
    exact ⟨(a, b), ⟨i, ha, hb⟩, hab⟩
  · rintro ⟨⟨a, b⟩, ⟨i, ha, hb⟩, hab⟩
    exact ⟨i, a, b, ha, hb, hab⟩

instance (p q : List String) : Decidable (Diverge p q) := decidable_of_iff _ diverge_iff.symm

theorem Agree.symm {a b : String} (h : Agree a b) : Agree b a :=
  h.imp Eq.symm fun ⟨n, ha, hb⟩ => ⟨n, hb, ha⟩

theorem Diverge.symm {p q : List String} (h : Diverge p q) : Diverge q p := by
  obtain ⟨i, a, b, ha, hb, hab⟩ := h
  exact ⟨i, b, a, hb, ha, fun h => hab h.symm⟩

theorem Diverge.exists_cons {p q : List String} (h : Diverge p q) : ∃ b rest, q = b :: rest := by
  obtain ⟨i, _, _, -, hb, -⟩ := h
  cases q with
  | nil => simp at hb
  | cons b rest => exact ⟨b, rest, rfl⟩

theorem Diverge.tail {a b : String} {p q : List String} (h : Diverge (a :: p) (b :: q)) (hab : Agree a b) :
    Diverge p q := by
  obtain ⟨i, x, y, hx, hy, hxy⟩ := h
  cases i with
  | zero =>
    simp only [List.getElem?_cons_zero, Option.some.injEq] at hx hy
    exact absurd (hx ▸ hy ▸ hab) hxy
  | succ i => exact ⟨i, x, y, by simpa using hx, by simpa using hy, hxy⟩

end Path

namespace Container

/-- The part under one segment. -/
def get (c : Container α) (segment : String) : Outcome (Option α) := do
  match ← c.target? segment with
  | some i => return c.parts[i]?
  | none => return none

variable {c : Container α} {p q segment : String} {i : ℕ} {a u : α}

theorem get_of_target (h : c.target? segment = .ok (some i)) : c.get segment = .ok c.parts[i]? := by
  rw [get, h]
  rfl

theorem target_of_get (h : c.get segment = .ok (some u)) :
    ∃ i, c.target? segment = .ok (some i) ∧ c.parts[i]? = some u := by
  obtain ⟨_ | i, htarget, h⟩ := Outcome.bind_eq_ok.mp h
  · simp at h
  · exact ⟨i, htarget, Except.ok.inj h⟩

theorem agree_of_target (hp : c.target? p = .ok (some i)) (hq : c.target? q = .ok (some i))
    (hi : c.parts[i]? = some u) : Path.Agree p q := by
  have hlt : i < c.parts.length := (List.getElem?_eq_some_iff.mp hi).1
  cases c with
  | list items =>
    have hindex {s : String} (hs : (list items).target? s = .ok (some i)) :
        Path.index? s = .ok (some i) := by
      simp only [target?, Outcome.bind_eq_ok] at hs
      obtain ⟨n, hn, hs⟩ := hs
      cases n with
      | none => simp at hs
      | some n =>
        simp only [Outcome.pure_eq_ok, Except.ok.injEq, Option.ite_none_right_eq_some,
          Option.some.injEq] at hs
        rw [hn, hs.2]
    exact .inr ⟨i, hindex hp, hindex hq⟩
  | object entries =>
    simp only [parts, List.length_map] at hlt
    have hkey {s : String} (hs : (object entries).target? s = .ok (some i)) : entries[i].1 = s := by
      simp only [target?, Except.ok.injEq, Option.some.injEq] at hs
      subst hs
      simpa using List.findIdx_getElem (p := fun e : String × α => e.1 == s) (w := hlt)
    exact .inl ((hkey hp).symm.trans (hkey hq))

theorem lookup_put_of_ne {key other : String} (h : key ≠ other) (entries : List (String × α)) (a : α) :
    (entries.take (entries.findIdx fun e => e.1 == key) ++
        (key, a) :: entries.drop ((entries.findIdx fun e => e.1 == key) + 1)).lookup other =
      entries.lookup other := by
  have hother : (other == key) = false := by simpa using h.symm
  induction entries with
  | nil => simp [List.lookup_cons, hother]
  | cons e rest ih =>
    obtain ⟨k, u⟩ := e
    by_cases hk : k = key
    · subst hk
      simp [List.findIdx_cons, List.lookup_cons, hother]
    · have hkey : (k == key) = false := by simpa using hk
      simp only [List.findIdx_cons, hkey, cond_false, List.take_succ_cons, List.drop_succ_cons,
        List.cons_append, List.lookup_cons, ih]

/-- After a part is put under one segment, another finds the new part or what it found before. It finds the
new part only if the two agree. -/
theorem get_put (htarget : c.target? segment = .ok (some i)) (a : α) (other : String) :
    (Path.Agree segment other ∧ (c.put segment i a).get other = .ok (some a) ∧
      c.get other = .ok c.parts[i]?) ∨
    (c.put segment i a).get other = c.get other := by
  have hput (j : ℕ) : (c.put segment i a).parts[j]? = if j = i then some a else c.parts[j]? :=
    getElem?_parts_put (target?_le htarget) a j
  have hself : (c.put segment i a).get segment = .ok (some a) := by
    rw [get_of_target (target?_put htarget a), hput, if_pos rfl]
  cases c with
  | list items =>
    simp only [target?, Outcome.bind_eq_ok] at htarget
    obtain ⟨n, hn, htarget⟩ := htarget
    cases n with
    | none => simp at htarget
    | some n =>
      simp only [Outcome.pure_eq_ok, Except.ok.injEq, Option.ite_none_right_eq_some,
        Option.some.injEq] at htarget
      obtain ⟨hlt, rfl⟩ := htarget
      have hlength : (items.take n ++ a :: items.drop (n + 1)).length = items.length := by
        simp
        omega
      simp only [get, target?, put, parts] at hput ⊢
      rw [hlength]
      cases hother : Path.index? other with
      | error e => exact .inr rfl
      | ok m =>
        cases m with
        | none => exact .inr rfl
        | some m =>
          by_cases hm : m = n
          · subst hm
            exact .inl ⟨.inr ⟨m, hn, hother⟩, by simp [hlt, hput], by simp [hlt]⟩
          · refine .inr ?_
            by_cases hlt : m < items.length <;> simp [hlt, hput, hm]
  | object entries =>
    by_cases h : segment = other
    · subst h
      exact .inl ⟨.inl rfl, hself, get_of_target htarget⟩
    · obtain rfl := Option.some.inj (Except.ok.inj htarget)
      refine .inr ?_
      rw [put, get_of_target rfl, ← lookup_eq, lookup_put_of_ne h, lookup_eq, get_of_target rfl]

end Container

namespace Value

/-- The parts of a value in order. -/
def parts (v : Value) : List Value := (v.container?.map Container.parts).getD []

/-- The number of the part that a segment leads to. -/
def position? (v : Value) (segment : String) : Option ℕ :=
  match v.container? with
  | some c =>
    match c.target? segment with
    | .ok (some i) => if i < c.parts.length then some i else none
    | _ => none
  | none => none

/-- The place that a sequence of segments leads to. -/
def place? (v : Value) : List String → Option (List ℕ)
  | [] => some []
  | segment :: rest => do
    let i ← v.position? segment
    let u ← v.parts[i]?
    return i :: (← u.place? rest)

/-- The part of a value at a place. -/
def part? (v : Value) : List ℕ → Option Value
  | [] => some v
  | i :: rest => do (← v.parts[i]?).part? rest

/-- The place that a path leads to; a path without segments leads nowhere. -/
def placeOf? (v : Value) (path : String) : Option (List ℕ) :=
  match Path.segments path with
  | [] => none
  | segs => v.place? segs

theorem placeOf?_eq {path : String} (h : Path.segments path ≠ []) (v : Value) :
    v.placeOf? path = v.place? (Path.segments path) := by
  unfold placeOf?
  split
  · contradiction
  · rfl

theorem find_eq_walk {path : String} (hsegs : Path.segments path ≠ []) (v : Value) :
    v.find path = v.walk (Path.segments path) := by
  unfold find
  split
  · contradiction
  · rfl

@[simp] theorem parts_toValue (c : Container Value) : c.toValue.parts = c.parts := by
  simp [parts]

theorem part?_cons (v : Value) (i : ℕ) (rest : List ℕ) :
    v.part? (i :: rest) = v.parts[i]?.bind fun u => u.part? rest := rfl

theorem place?_toValue_cons {c : Container Value} {segment : String} {i : ℕ}
    (h : c.target? segment = .ok (some i)) (rest : List String) :
    c.toValue.place? (segment :: rest) =
      c.parts[i]?.bind fun u => (u.place? rest).map (i :: ·) := by
  by_cases hi : i < c.parts.length
  · simp only [place?, position?, container?_toValue, h, if_pos hi, parts_toValue,
      List.getElem?_eq_getElem hi, Option.bind_eq_bind, Option.bind_some]
    cases (c.parts[i]).place? rest <;> rfl
  · simp [place?, position?, h, hi]

theorem place?_of_target_none {c : Container Value} {segment : String}
    (h : c.target? segment = .ok none) (rest : List String) :
    c.toValue.place? (segment :: rest) = none := by
  simp [place?, position?, h]

theorem eq_toValue_of_container? {v : Value} {c : Container Value} (h : v.container? = some c) :
    v = c.toValue := by
  cases v <;> simp only [container?, reduceCtorEq, Option.some.injEq] at h <;> subst h <;> rfl

/-- What it takes that a segment leads on. -/
theorem place?_cons_eq_some {v : Value} {segment : String} {rest : List String} {ρ : List ℕ}
    (h : v.place? (segment :: rest) = some ρ) :
    ∃ (c : Container Value) (i : ℕ) (u : Value) (σ : List ℕ), v = c.toValue ∧
      c.target? segment = .ok (some i) ∧ c.parts[i]? = some u ∧ u.place? rest = some σ ∧ ρ = i :: σ := by
  simp only [place?, Option.bind_eq_bind, Option.bind_eq_some_iff, Option.pure_def,
    Option.some.injEq] at h
  obtain ⟨i, hi, u, hu, σ, hσ, rfl⟩ := h
  unfold position? at hi
  split at hi
  · rename_i c hc
    obtain rfl := eq_toValue_of_container? hc
    split at hi
    · rename_i k hk
      simp only [Option.ite_none_right_eq_some, Option.some.injEq] at hi
      obtain ⟨-, rfl⟩ := hi
      exact ⟨c, k, u, σ, rfl, hk, by simpa using hu, hσ, rfl⟩
    · simp at hi
  · simp at hi

theorem part?_of_not_isContainer {v : Value} (h : v.isContainer = false) {ρ : List ℕ} (hρ : ρ ≠ []) :
    v.part? ρ = none := by
  obtain ⟨i, ρ, rfl⟩ := List.exists_cons_of_ne_nil hρ
  cases v <;> simp_all [isContainer, part?_cons, parts, container?]

theorem isContainer_of_part? {v u : Value} {ρ : List ℕ} (h : v.part? ρ = some u)
    (hu : u.isContainer = true) : v.isContainer = true := by
  by_cases hρ : ρ = []
  · subst hρ
    rwa [Option.some.inj h]
  · cases hv : v.isContainer with
    | true => rfl
    | false => simp [part?_of_not_isContainer hv hρ] at h

theorem part?_object_nil {ρ : List ℕ} (hρ : ρ ≠ []) : (Container.object []).toValue.part? ρ = none := by
  obtain ⟨i, ρ, rfl⟩ := List.exists_cons_of_ne_nil hρ
  simp [part?_cons, Container.parts]

/-- Below a value nothing is lost when a write goes on there. -/
theorem part?_asContainer (v : Value) {ρ : List ℕ} (hρ : ρ ≠ []) : v.asContainer.part? ρ = v.part? ρ := by
  rcases asContainer_cases v with ⟨c, rfl, h⟩ | ⟨hv, h⟩
  · rw [h]
  · rw [h, part?_of_not_isContainer hv hρ, part?_object_nil hρ]

/-! ## Writing -/

variable {c : Container Value} {v v' new : Value} {segs : List String} {segment : String} {i j : ℕ}

theorem part?_put_self (htarget : c.target? segment = .ok (some i)) (a : Value) (σ : List ℕ) :
    (c.put segment i a).toValue.part? (i :: σ) = a.part? σ := by
  rw [part?_cons, parts_toValue, Container.getElem?_parts_put (Container.target?_le htarget), if_pos rfl]
  rfl

theorem part?_put_of_ne (htarget : c.target? segment = .ok (some i)) (a : Value) (hj : j ≠ i)
    (σ : List ℕ) : (c.put segment i a).toValue.part? (j :: σ) = c.toValue.part? (j :: σ) := by
  rw [part?_cons, parts_toValue, Container.getElem?_parts_put (Container.target?_le htarget), if_neg hj,
    part?_cons, parts_toValue]

theorem place?_put (htarget : c.target? segment = .ok (some i)) (a : Value) (rest : List String) :
    (c.put segment i a).toValue.place? (segment :: rest) = (a.place? rest).map (i :: ·) := by
  rw [place?_toValue_cons (Container.target?_put htarget a),
    Container.getElem?_parts_put (Container.target?_le htarget), if_pos rfl]
  rfl

theorem assignAt_of_target (htarget : c.target? segment = .ok (some i)) (w : Value) (rest : List String) :
    c.toValue.assignAt w (segment :: rest) =
      assignIn ((c.parts[i]?).getD .null) w rest >>= fun a => .ok (c.put segment i a).toValue := by
  rw [assignAt_cons, htarget]
  rfl

theorem assignAt_of_refused (htarget : c.target? segment = .ok none) (w : Value) (rest : List String) :
    c.toValue.assignAt w (segment :: rest) = .ok c.toValue := by
  rw [assignAt_cons, htarget]
  rfl

theorem assignAt_of_error {e : Failure} (htarget : c.target? segment = .error e) (w : Value)
    (rest : List String) : c.toValue.assignAt w (segment :: rest) = .error e := by
  rw [assignAt_cons, htarget]
  rfl

theorem exists_toValue_of_assignAt (h : c.toValue.assignAt new segs = .ok v') :
    ∃ d : Container Value, v' = d.toValue := by
  cases segs with
  | nil => exact ⟨c, (Except.ok.inj h).symm⟩
  | cons segment rest =>
    obtain ⟨-, rfl⟩ | ⟨i, a, -, -, rfl⟩ := assignAt_cons_cases h
    · exact ⟨c, rfl⟩
    · exact ⟨_, rfl⟩

/-- What became of a container written to: a list refused the write and nothing has changed, or the new
part stands at its place and nothing has changed beside it. -/
inductive Written (c : Container Value) (new : Value) (segs : List String) (v' : Value) : Prop where
  | refused (heq : v' = c.toValue) (hplace : v'.place? segs = none) (hne : c ≠ .object [])
  | placed (ρ : List ℕ) (hplace : v'.place? segs = some ρ) (hne : ρ ≠ []) (hnew : v'.part? ρ = some new)
      (hframe : ∀ σ, ¬ρ <+: σ → ¬σ <+: ρ → v'.part? σ = c.toValue.part? σ)

theorem Written.of_target (htarget : c.target? segment = .ok (some i)) :
    Written c new [segment] (c.put segment i new).toValue := by
  refine .placed [i] (by rw [place?_put htarget]; rfl) (by simp) (part?_put_self htarget new []) ?_
  intro σ hpre hpost
  cases σ with
  | nil => simp at hpost
  | cons j σ =>
    refine part?_put_of_ne htarget new (fun hj => hpre ?_) σ
    simp [hj]

theorem Written.put {rest : List String} {d : Container Value} {a : Value}
    (htarget : c.target? segment = .ok (some i))
    (hd : ((c.parts[i]?).getD .null).asContainer = d.toValue) (h : Written d new rest a) :
    Written c new (segment :: rest) (c.put segment i a).toValue := by
  cases h with
  | refused heq hplace hne =>
    subst heq
    have hpart : c.parts[i]? = some d.toValue := by
      rcases asContainer_cases ((c.parts[i]?).getD .null) with ⟨d', hd', hd''⟩ | ⟨-, hd'⟩
      · rw [hd] at hd''
        cases hi : c.parts[i]? with
        | none =>
          rw [hi] at hd'
          cases d' <;> cases hd'
        | some u =>
          rw [hi] at hd'
          rw [hd'', ← hd']
          rfl
      · exact absurd (toValue_injective (hd.symm.trans hd')) hne
    have hself := Container.put_eq_self htarget hpart
    have hplace' := place?_put htarget d.toValue rest
    rw [hplace] at hplace'
    refine .refused (by rw [hself]) hplace' ?_
    rintro rfl
    simp [Container.parts] at hpart
  | placed ρ hplace hne hnew hframe =>
    refine .placed (i :: ρ) (by rw [place?_put htarget, hplace]; rfl) (by simp)
      (by rw [part?_put_self htarget, hnew]) ?_
    intro σ hpre hpost
    cases σ with
    | nil => simp at hpost
    | cons j σ =>
      by_cases hj : j = i
      · subst hj
        simp only [List.cons_prefix_cons, true_and] at hpre hpost
        have hσ : σ ≠ [] := by
          rintro rfl
          simp at hpost
        rw [part?_put_self htarget, hframe σ hpre hpost, ← hd, part?_asContainer _ hσ, part?_cons,
          parts_toValue]
        cases c.parts[j]? with
        | none => exact part?_of_not_isContainer rfl hσ
        | some u => rfl
      · exact part?_put_of_ne htarget a hj σ

theorem written_of_assignAt (hsegs : segs ≠ []) (h : c.toValue.assignAt new segs = .ok v') :
    Written c new segs v' := by
  induction segs generalizing c v' with
  | nil => exact absurd rfl hsegs
  | cons segment rest ih =>
    obtain ⟨htarget, rfl⟩ | ⟨i, a, htarget, ha, rfl⟩ := assignAt_cons_cases h
    · refine .refused rfl (place?_of_target_none htarget rest) ?_
      rintro rfl
      simp [Container.target?] at htarget
    · cases rest with
      | nil =>
        obtain rfl := Except.ok.inj ha
        exact .of_target htarget
      | cons s rest =>
        obtain ⟨d, hd⟩ := exists_asContainer ((c.parts[i]?).getD .null)
        simp only [assignIn, hd] at ha
        exact .put htarget hd (ih (by simp) ha)

/-! ## Reading what was not written -/

theorem assignAt_of_place? {ρ : List ℕ} {u : Value} (hplace : v.place? segs = some ρ)
    (hpart : v.part? ρ = some u) : v.assignAt u segs = .ok v := by
  induction segs generalizing v ρ with
  | nil => rfl
  | cons segment rest ih =>
    obtain ⟨c, i, w, σ, rfl, htarget, hw, hσ, rfl⟩ := place?_cons_eq_some hplace
    rw [part?_cons, parts_toValue, hw, Option.bind_some] at hpart
    rw [assignAt_cons, htarget]
    have hin : assignIn w u rest = .ok w := by
      cases rest with
      | nil =>
        obtain rfl := Option.some.inj hσ
        rw [Option.some.inj hpart]
        rfl
      | cons s rest =>
        obtain ⟨d, _, _, _, rfl, -⟩ := place?_cons_eq_some hσ
        rw [assignIn_cons, asContainer_toValue]
        exact ih hσ hpart
    simp only [Outcome.ok_bind, hw, Option.getD_some, hin, Outcome.pure_eq_ok,
      Container.put_eq_self htarget hw]

theorem child_eq_get (c : Container Value) (segment : String) :
    c.toValue.child segment = c.get segment >>= fun a => .ok (a.getD .null) := by
  rw [child_toValue, Container.get]
  cases c.target? segment with
  | error e => rfl
  | ok target => cases target <;> rfl

/-- After a write under one segment, another reads the new part or what it read before. It reads the new
part only if the two agree. -/
theorem child_put (htarget : c.target? segment = .ok (some i)) (a : Value) (other : String) :
    (Path.Agree segment other ∧ (c.put segment i a).toValue.child other = .ok a ∧
      c.toValue.child other = .ok ((c.parts[i]?).getD .null)) ∨
    (c.put segment i a).toValue.child other = c.toValue.child other := by
  rw [child_eq_get, child_eq_get]
  rcases Container.get_put htarget a other with ⟨hagree, hnew, hold⟩ | hsame
  · exact .inl ⟨hagree, by rw [hnew]; rfl, by rw [hold]; rfl⟩
  · exact .inr (by rw [hsame])

theorem child_of_not_isContainer (hv : v.isContainer = false) (segment : String) :
    v.child segment = .ok .null := by
  cases v with
  | list _ | object _ => cases hv
  | _ => rfl

theorem walk_null (segs : List String) : Value.null.walk segs = .ok .null := by
  cases segs <;> simp [walk, isNull]

theorem walk_cons (v : Value) (segment : String) (rest : List String) :
    v.walk (segment :: rest) = v.child segment >>= fun u => u.walk rest := by
  cases v with
  | null =>
    rw [walk_null]
    exact (walk_null rest).symm
  | _ => simp [walk, isNull]

theorem walk_cons_of_not_isContainer (hv : v.isContainer = false) (segment : String) (rest : List String) :
    v.walk (segment :: rest) = .ok .null := by
  rw [walk_cons, child_of_not_isContainer hv]
  exact walk_null rest

theorem walk_of_place? {ρ : List ℕ} {u : Value} (hplace : v.place? segs = some ρ)
    (hpart : v.part? ρ = some u) : v.walk segs = .ok u := by
  induction segs generalizing v ρ with
  | nil =>
    simp only [place?, Option.some.injEq] at hplace
    subst hplace
    rw [walk, ← Option.some.inj hpart]
  | cons segment rest ih =>
    obtain ⟨c, i, w, σ, rfl, htarget, hw, hσ, rfl⟩ := place?_cons_eq_some hplace
    rw [part?_cons, parts_toValue, hw] at hpart
    rw [walk_cons, child_toValue, htarget]
    simp only [Outcome.ok_bind, Outcome.pure_eq_ok, hw, Option.getD_some]
    exact ih hσ hpart

theorem place?_of_walk {u : Value} (h : v.walk segs = .ok u) (hu : u.isNull = false) :
    ∃ ρ, v.place? segs = some ρ ∧ v.part? ρ = some u := by
  induction segs generalizing v with
  | nil =>
    obtain rfl := Except.ok.inj h
    exact ⟨[], rfl, rfl⟩
  | cons segment rest ih =>
    have hnull {w : Value} (hw : w = .null) (h : w.walk rest = .ok u) : False := by
      rw [hw, walk_null] at h
      rw [← Except.ok.inj h] at hu
      simp [isNull] at hu
    by_cases hv : v.isContainer = true
    · obtain ⟨c, rfl⟩ := exists_toValue hv
      rw [walk_cons, child_toValue] at h
      simp only [Outcome.bind_eq_ok] at h
      obtain ⟨w, ⟨target, htarget, hw⟩, hrest⟩ := h
      cases target with
      | none => exact (hnull (Except.ok.inj hw).symm hrest).elim
      | some i =>
        obtain rfl := Except.ok.inj hw
        cases hi : c.parts[i]? with
        | none =>
          rw [hi] at hrest
          exact (hnull rfl hrest).elim
        | some w =>
          rw [hi, Option.getD_some] at hrest
          obtain ⟨ρ, hρ, hpart⟩ := ih hrest
          refine ⟨i :: ρ, ?_, by rw [part?_cons, parts_toValue, hi]; exact hpart⟩
          rw [place?_toValue_cons htarget, hi, Option.bind_some, hρ]
          rfl
    · rw [walk_cons_of_not_isContainer (by simpa using hv)] at h
      rw [← Except.ok.inj h] at hu
      simp [isNull] at hu

theorem assign_of_find {path : String} {u : Value} (h : v.find path = .ok u) (hu : u.isNull = false) :
    v.assign path u = .ok v := by
  by_cases hsegs : Path.segments path = []
  · rw [assign, hsegs]
    rfl
  · rw [find_eq_walk hsegs] at h
    obtain ⟨ρ, hplace, hpart⟩ := place?_of_walk h hu
    exact assignAt_of_place? hplace hpart

/-- Below a value without parts nothing is read, nor in the object that a write puts there. -/
theorem walk_asContainer (v : Value) (hsegs : segs ≠ []) : v.asContainer.walk segs = v.walk segs := by
  rcases asContainer_cases v with ⟨c, rfl, h⟩ | ⟨hv, h⟩
  · rw [h]
  · rw [h]
    obtain ⟨segment, rest, rfl⟩ := List.exists_cons_of_ne_nil hsegs
    have hempty : (Container.object []).toValue.walk (segment :: rest) = .ok .null := by
      rw [walk_cons]
      exact walk_null rest
    rw [hempty, walk_cons_of_not_isContainer hv]

theorem walk_assignAt_of_diverge {others : List String} (hdiverge : Path.Diverge segs others)
    (h : c.toValue.assignAt new segs = .ok v') : v'.walk others = c.toValue.walk others := by
  induction segs generalizing c v' others with
  | nil =>
    obtain ⟨_, _, _, hnil, -⟩ := hdiverge
    simp at hnil
  | cons segment rest ih =>
    obtain ⟨other, others, rfl⟩ := hdiverge.exists_cons
    obtain ⟨-, rfl⟩ | ⟨i, a, htarget, ha, rfl⟩ := assignAt_cons_cases h
    · rfl
    · rw [walk_cons, walk_cons]
      rcases child_put htarget a other with ⟨hagree, hnew, hold⟩ | hsame
      · rw [hnew, hold, Outcome.ok_bind, Outcome.ok_bind]
        -- The two paths agree so far, so they diverge further down.
        have hrest : Path.Diverge rest others := hdiverge.tail hagree
        have hothers : others ≠ [] := by
          obtain ⟨_, _, rfl⟩ := hrest.exists_cons
          simp
        cases rest with
        | nil =>
          obtain ⟨_, _, _, hnil, -⟩ := hrest
          simp at hnil
        | cons s rest =>
          obtain ⟨d, hd⟩ := exists_asContainer ((c.parts[i]?).getD .null)
          simp only [assignIn, hd] at ha
          rw [ih hrest ha, ← hd, walk_asContainer _ hothers]
      · rw [hsame]

theorem find_assign_of_diverge {path other : String}
    (hdiverge : Path.Diverge (Path.segments path) (Path.segments other))
    (h : c.toValue.assign path new = .ok v') : v'.find other = c.toValue.find other := by
  have hwalk := walk_assignAt_of_diverge hdiverge h
  unfold find
  split
  · rfl
  · exact hwalk

end Value

/-! ## Held places -/

/-- The held places after a write at place `ρ`: what was held there or below is gone, and the place itself
is held if a list or object was written. -/
def heldAfter (held : Set (List ℕ)) (ρ : List ℕ) (w : Value) : Set (List ℕ) :=
  {σ | (σ ∈ held ∧ ¬ρ <+: σ) ∨ (σ = ρ ∧ w.isContainer = true)}

theorem mem_heldAfter_of_not_below {held : Set (List ℕ)} {ρ σ : List ℕ} {w : Value} (h : ¬ρ <+: σ) :
    σ ∈ heldAfter held ρ w ↔ σ ∈ held := by
  simp only [heldAfter, Set.mem_ofPred_eq, h, not_false_eq_true, and_true, or_iff_left_iff_imp]
  rintro ⟨rfl, -⟩
  exact absurd (List.prefix_refl σ) h

theorem heldAfter_heldAfter (held : Set (List ℕ)) (ρ : List ℕ) (u w : Value) :
    heldAfter (heldAfter held ρ u) ρ w = heldAfter held ρ w := by
  ext σ
  simp only [heldAfter, Set.mem_ofPred_eq]
  constructor
  · rintro (⟨⟨h, -⟩ | ⟨rfl, -⟩, hpre⟩ | h)
    · exact .inl ⟨h, hpre⟩
    · exact absurd (List.prefix_refl _) hpre
    · exact .inr h
  · rintro (⟨h, hpre⟩ | h)
    · exact .inl ⟨.inl ⟨h, hpre⟩, hpre⟩
    · exact .inr h

/-- The held places after a write along a path that has led to `record`. -/
def heldAlong (held : Set (List ℕ)) (record : Value) (path : String) (w : Value) : Set (List ℕ) :=
  match record.placeOf? path with
  | some ρ => heldAfter held ρ w
  | none => held

/-- A step from `record` to `record'` has left the held places as they were, those aside that it has
written or that were below. -/
def Quiet (held : Set (List ℕ)) (record record' : Value) (path : String) : Prop :=
  ∀ ρ, record'.placeOf? path = some ρ → ∀ σ ∈ held, ¬ρ <+: σ → record'.part? σ = record.part? σ

theorem Quiet.refl (held : Set (List ℕ)) (record : Value) (path : String) :
    Quiet held record record path :=
  fun _ _ _ _ _ => rfl

end Pagewright
