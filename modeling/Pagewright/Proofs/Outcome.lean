import Mathlib.Data.List.Forall2
import Pagewright.Log

/-!
# Sequences of outcomes

When a sequence of operations has a result, each of them has one (`Outcome.bind_eq_ok`,
`Outcome.mapM_eq_ok`). Two outcomes correspond (`Outcome.Rel`) when both have results and these are
related, or both fail alike; corresponding sequences are built from corresponding parts.
-/

namespace Pagewright

/-! ## Lists that are related item by item -/

theorem exists_of_mem_right {α β : Type*} {R : α → β → Prop} {l : List α} {u : List β} {b : β}
    (h : List.Forall₂ R l u) (hb : b ∈ u) : ∃ a ∈ l, R a b := by
  induction h with
  | nil => exact absurd hb List.not_mem_nil
  | @cons a b' l u hab hrest ih =>
    rcases List.mem_cons.mp hb with rfl | hb
    · exact ⟨a, by simp, hab⟩
    · obtain ⟨a', ha', hR⟩ := ih hb
      exact ⟨a', List.mem_cons_of_mem _ ha', hR⟩

theorem exists_of_mem_left {α β : Type*} {R : α → β → Prop} {l : List α} {u : List β} {a : α}
    (h : List.Forall₂ R l u) (ha : a ∈ l) : ∃ b ∈ u, R a b :=
  exists_of_mem_right (R := flip R) h.flip ha

namespace Outcome

theorem bind_eq_ok {x : Outcome α} {f : α → Outcome β} {b : β} :
    (x >>= f) = .ok b ↔ ∃ a, x = .ok a ∧ f a = .ok b := by
  cases x <;> simp [bind, Except.bind]

theorem map_eq_ok {x : Outcome α} {g : α → β} {b : β} :
    (g <$> x) = .ok b ↔ ∃ a, x = .ok a ∧ g a = b := by
  cases x <;> simp [Functor.map, Except.map]

@[simp] theorem ok_bind (a : α) (f : α → Outcome β) : (Except.ok a >>= f) = f a := rfl

@[simp] theorem error_bind (e : Failure) (f : α → Outcome β) :
    ((Except.error e : Outcome α) >>= f) = .error e := rfl

@[simp] theorem pure_eq_ok (a : α) : (pure a : Outcome α) = .ok a := rfl

theorem exists_of_isOk {x : Outcome α} (h : x.isOk = true) : ∃ a, x = .ok a := by
  cases x with
  | ok a => exact ⟨a, rfl⟩
  | error e => simp [Except.isOk, Except.toBool] at h

instance [DecidableEq α] (x : Outcome α) (a : α) : Decidable (x = .ok a) :=
  match x with
  | .ok b => decidable_of_iff (b = a) (by simp)
  | .error _ => isFalse (by simp)

/-- What is said of the result of an operation is decided by running it. -/
instance {x : Outcome α} {P : α → Prop} [∀ a, Decidable (P a)] : Decidable (∃ a, x = .ok a ∧ P a) :=
  match x with
  | .ok a => decidable_of_iff (P a) (by simp)
  | .error _ => isFalse (by simp)

instance {x : Outcome α} {P : α → Prop} [∀ a, Decidable (P a)] : Decidable (∀ a, x = .ok a → P a) :=
  match x with
  | .ok a => decidable_of_iff (P a) (by simp)
  | .error _ => isTrue (by simp)

/-! ## Lists gone through -/

theorem mapM_eq_ok {f : α → Outcome β} {xs : List α} {ys : List β} :
    xs.mapM f = .ok ys ↔ List.Forall₂ (fun x y => f x = .ok y) xs ys := by
  induction xs generalizing ys with
  | nil => simp [eq_comm]
  | cons x xs ih =>
    rw [List.mapM_cons, bind_eq_ok]
    simp only [bind_eq_ok, ih, pure_eq_ok, Except.ok.injEq]
    constructor
    · rintro ⟨y, hy, ys, hys, rfl⟩
      exact .cons hy hys
    · rintro (_ | ⟨hy, hys⟩)
      exact ⟨_, hy, _, hys, rfl⟩

theorem getElem?_of_mapM {f : α → Outcome β} {xs : List α} {ys : List β} (h : xs.mapM f = .ok ys)
    {i : ℕ} {x : α} (hx : xs[i]? = some x) : ∃ y, ys[i]? = some y ∧ f x = .ok y := by
  rw [mapM_eq_ok] at h
  obtain ⟨hi, rfl⟩ := List.getElem?_eq_some_iff.mp hx
  have hi' : i < ys.length := h.length_eq ▸ hi
  exact ⟨ys[i], List.getElem?_eq_getElem hi', (List.forall₂_iff_get.mp h).2 i hi hi'⟩

theorem length_of_mapM {f : α → Outcome β} {xs : List α} {ys : List β} (h : xs.mapM f = .ok ys) :
    ys.length = xs.length := by
  rw [mapM_eq_ok] at h
  exact h.length_eq.symm

/-- What each result has in common with its item, the results have in common with the items. -/
theorem map_of_mapM {f : α → Outcome β} {xs : List α} {ys : List β} (h : xs.mapM f = .ok ys)
    {g : β → γ} {k : α → γ} (hgk : ∀ x y, f x = .ok y → g y = k x) : ys.map g = xs.map k := by
  rw [mapM_eq_ok] at h
  induction h with
  | nil => rfl
  | cons hy hys ih => rw [List.map_cons, List.map_cons, hgk _ _ hy, ih]

theorem exists_of_mem_of_mapM {f : α → Outcome β} {xs : List α} {ys : List β} (h : xs.mapM f = .ok ys)
    {y : β} (hy : y ∈ ys) : ∃ x ∈ xs, f x = .ok y := by
  rw [mapM_eq_ok] at h
  exact exists_of_mem_right (R := fun x y => f x = .ok y) h hy

theorem mapM_append_eq_ok {f : α → Outcome β} {xs ys : List α} {zs : List β} :
    (xs ++ ys).mapM f = .ok zs ↔ ∃ us vs, xs.mapM f = .ok us ∧ ys.mapM f = .ok vs ∧ zs = us ++ vs := by
  rw [List.mapM_append, bind_eq_ok]
  simp only [bind_eq_ok, pure_eq_ok, Except.ok.injEq]
  constructor
  · rintro ⟨us, hus, vs, hvs, rfl⟩
    exact ⟨us, vs, hus, hvs, rfl⟩
  · rintro ⟨us, vs, hus, hvs, rfl⟩
    exact ⟨us, hus, vs, hvs, rfl⟩

theorem mapM_eq_map {f : α → Outcome β} {g : α → β} {xs : List α} (h : ∀ x ∈ xs, f x = .ok (g x)) :
    xs.mapM f = .ok (xs.map g) := by
  induction xs with
  | nil => rfl
  | cons x xs ih =>
    rw [List.mapM_cons, h x (by simp), ok_bind, ih fun y hy => h y (List.mem_cons_of_mem _ hy)]
    rfl

/-- Of the results, those of the items that are kept are the results of these items. -/
theorem mapM_filter {f : α → Outcome β} {xs : List α} {ys : List β} (h : xs.mapM f = .ok ys)
    (keep : α → Bool) :
    (xs.filter keep).mapM f = .ok (((ys.zip xs).filter fun p => keep p.2).map Prod.fst) := by
  rw [mapM_eq_ok] at h
  induction h with
  | nil => rfl
  | @cons x y xs ys hy hys ih =>
    rw [List.zip_cons_cons, List.filter_cons, List.filter_cons]
    cases keep x with
    | false => exact ih
    | true =>
      rw [if_pos rfl, if_pos rfl, List.mapM_cons, hy, ok_bind, ih, ok_bind]
      rfl

/-- Lists that are gone through one by one may as well be gone through as one list. -/
theorem mapM_flatten {f : α → Outcome β} {xss : List (List α)} {yss : List (List β)}
    (h : xss.mapM (fun xs => xs.mapM f) = .ok yss) : xss.flatten.mapM f = .ok yss.flatten := by
  induction xss generalizing yss with
  | nil =>
    simp only [List.mapM_nil, pure_eq_ok, Except.ok.injEq] at h
    simp [← h]
  | cons xs xss ih =>
    rw [List.mapM_cons, bind_eq_ok] at h
    obtain ⟨ys, hys, h⟩ := h
    rw [bind_eq_ok] at h
    obtain ⟨yss', hyss, h⟩ := h
    simp only [pure_eq_ok, Except.ok.injEq] at h
    subst h
    simp [hys, ih hyss]

theorem allM_eq_all {f : α → Outcome Bool} {g : α → Bool} {xs : List α}
    (h : ∀ x ∈ xs, f x = .ok (g x)) : xs.allM f = .ok (xs.all g) := by
  induction xs with
  | nil => rfl
  | cons x xs ih =>
    have hrest := ih fun y hy => h y (List.mem_cons_of_mem _ hy)
    rw [List.allM, h x (by simp), ok_bind, List.all_cons]
    cases g x with
    | true => exact hrest
    | false => rfl

theorem anyM_eq_any {f : α → Outcome Bool} {g : α → Bool} {xs : List α}
    (h : ∀ x ∈ xs, f x = .ok (g x)) : xs.anyM f = .ok (xs.any g) := by
  induction xs with
  | nil => rfl
  | cons x xs ih =>
    have hrest := ih fun y hy => h y (List.mem_cons_of_mem _ hy)
    rw [List.anyM, h x (by simp), ok_bind, List.any_cons]
    cases g x with
    | true => rfl
    | false => exact hrest

theorem filterM_eq_filter {f : α → Outcome Bool} {g : α → Bool} {xs : List α}
    (h : ∀ x ∈ xs, f x = .ok (g x)) : xs.filterM f = .ok (xs.filter g) := by
  -- The loop gathers the chosen items in front of those it has, the last one first.
  have haux (chosen : List α) : List.filterAuxM f xs chosen = .ok ((xs.filter g).reverse ++ chosen) := by
    induction xs generalizing chosen with
    | nil => rfl
    | cons x xs ih =>
      rw [List.filterAuxM, h x List.mem_cons_self, ok_bind, ih fun y hy => h y (List.mem_cons_of_mem x hy),
        List.filter_cons]
      cases g x with
      | false => rfl
      | true => simp
  rw [List.filterM, haux, ok_bind, pure_eq_ok, List.append_nil, List.reverse_reverse]

/-! ## Operations that return -/

/-- An operation has a result. -/
def Returns (x : Outcome α) : Prop := ∃ a, x = .ok a

theorem returns_iff_isOk {x : Outcome α} : Returns x ↔ x.isOk = true := by
  cases x <;> simp [Returns, Except.isOk, Except.toBool]

instance (x : Outcome α) : Decidable (Returns x) := decidable_of_iff _ returns_iff_isOk.symm

@[simp] theorem returns_ok (a : α) : Returns (.ok a : Outcome α) := ⟨a, rfl⟩

@[simp] theorem returns_pure (a : α) : Returns (pure a : Outcome α) := ⟨a, rfl⟩

@[simp] theorem not_returns_error (e : Failure) : ¬Returns (.error e : Outcome α) := by simp [Returns]

theorem Returns.bind {x : Outcome α} {f : α → Outcome β} (hx : Returns x)
    (hf : ∀ a, x = .ok a → Returns (f a)) : Returns (x >>= f) := by
  obtain ⟨a, ha⟩ := hx
  rw [ha]
  exact hf a ha

theorem returns_bind_iff {x : Outcome α} {f : α → Outcome β} :
    Returns (x >>= f) ↔ ∃ a, x = .ok a ∧ Returns (f a) := by
  constructor
  · rintro ⟨b, hb⟩
    obtain ⟨a, ha, hf⟩ := bind_eq_ok.mp hb
    exact ⟨a, ha, b, hf⟩
  · rintro ⟨a, ha, hf⟩
    rw [ha]
    exact hf

theorem Returns.of_bind {x : Outcome α} {f : α → Outcome β} (h : Returns (x >>= f)) : Returns x := by
  obtain ⟨a, ha, -⟩ := returns_bind_iff.mp h
  exact ⟨a, ha⟩

theorem returns_mapM_iff {f : α → Outcome β} {xs : List α} :
    Returns (xs.mapM f) ↔ ∀ x ∈ xs, Returns (f x) := by
  constructor
  · rintro ⟨ys, hys⟩ x hx
    obtain ⟨i, hi⟩ := List.getElem?_of_mem hx
    obtain ⟨y, -, hy⟩ := getElem?_of_mapM hys hi
    exact ⟨y, hy⟩
  · intro h
    induction xs with
    | nil => exact returns_pure []
    | cons x xs ih =>
      rw [List.mapM_cons]
      refine (h x List.mem_cons_self).bind fun y _ => ?_
      exact (ih fun z hz => h z (List.mem_cons_of_mem x hz)).bind fun ys _ => returns_pure _

theorem mapM_eq_ok_iff_map [Inhabited β] {f : α → Outcome β} {xs : List α} {ys : List β} :
    xs.mapM f = .ok ys ↔
      (∀ x ∈ xs, Returns (f x)) ∧ ys = xs.map fun x => (f x).toOption.getD default := by
  have hmap (h : ∀ x ∈ xs, Returns (f x)) :
      xs.mapM f = .ok (xs.map fun x => (f x).toOption.getD default) := by
    refine mapM_eq_map fun x hx => ?_
    obtain ⟨y, hy⟩ := h x hx
    rw [hy]
    rfl
  constructor
  · intro h
    have hall := returns_mapM_iff.mp ⟨ys, h⟩
    exact ⟨hall, Except.ok.inj (h.symm.trans (hmap hall))⟩
  · rintro ⟨hall, rfl⟩
    exact hmap hall

theorem returns_filterM_iff {f : α → Outcome Bool} {xs : List α} :
    Returns (xs.filterM f) ↔ ∀ x ∈ xs, Returns (f x) := by
  have haux (chosen : List α) (h : Returns (List.filterAuxM f xs chosen)) : ∀ x ∈ xs, Returns (f x) := by
    induction xs generalizing chosen with
    | nil => simp
    | cons x xs ih =>
      rw [List.filterAuxM] at h
      obtain ⟨b, hb⟩ := h.of_bind
      rw [hb, ok_bind] at h
      exact List.forall_mem_cons.mpr ⟨⟨b, hb⟩, ih _ h⟩
  constructor
  · intro h
    exact haux [] h.of_bind
  · intro h
    choose! g hg using h
    exact ⟨_, filterM_eq_filter hg⟩

theorem mem_filterM_iff {f : α → Outcome Bool} {xs ys : List α} (h : xs.filterM f = .ok ys) {y : α} :
    y ∈ ys ↔ y ∈ xs ∧ f y = .ok true := by
  have hall := returns_filterM_iff.mp ⟨ys, h⟩
  choose! g hg using hall
  rw [filterM_eq_filter hg] at h
  rw [← Except.ok.inj h, List.mem_filter]
  refine and_congr_right fun hy => ?_
  rw [hg y hy, Except.ok.injEq]

/-! ## Outcomes that correspond -/

/-- Two outcomes correspond: both have results, which are related, or both fail alike. -/
inductive Rel (R : α → β → Prop) : Outcome α → Outcome β → Prop where
  | ok {a : α} {b : β} (h : R a b) : Rel R (.ok a) (.ok b)
  | error (e : Failure) : Rel R (.error e) (.error e)

namespace Rel

variable {R : α → β → Prop} {S : γ → δ → Prop} {x : Outcome α} {y : Outcome β}

theorem bind (hxy : Rel R x y) {f : α → Outcome γ} {g : β → Outcome δ}
    (hfg : ∀ a b, R a b → Rel S (f a) (g b)) : Rel S (x >>= f) (y >>= g) := by
  cases hxy with
  | ok h => exact hfg _ _ h
  | error e => exact .error e

theorem bind_right {T : α → γ → Prop} (hxy : Rel R x y) {g : β → γ} (hg : ∀ a b, R a b → T a (g b)) :
    Rel T x (y >>= fun b => .ok (g b)) := by
  cases hxy with
  | ok h => exact .ok (hg _ _ h)
  | error e => exact .error e

theorem map_eq (hxy : Rel R x y) {f : α → γ} {g : β → γ} (hfg : ∀ a b, R a b → f a = g b) :
    f <$> x = g <$> y := by
  cases hxy with
  | ok h => exact congrArg Except.ok (hfg _ _ h)
  | error e => rfl

theorem eq {x y : Outcome α} (hxy : Rel Eq x y) : x = y := by
  cases hxy with
  | ok h => rw [h]
  | error e => rfl

theorem imp {T : α → β → Prop} (hxy : Rel R x y) (h : ∀ a b, R a b → T a b) : Rel T x y := by
  cases hxy with
  | ok hab => exact .ok (h _ _ hab)
  | error e => exact .error e

/-- Of corresponding outcomes it is known where the results come from. -/
theorem with_eq (hxy : Rel R x y) : Rel (fun a b => R a b ∧ x = .ok a ∧ y = .ok b) x y := by
  cases hxy with
  | ok h => exact .ok ⟨h, rfl, rfl⟩
  | error e => exact .error e

theorem of_ok_left (hxy : Rel R x y) {a : α} (hx : x = .ok a) : ∃ b, y = .ok b ∧ R a b := by
  cases hxy with
  | ok h =>
    obtain rfl := Except.ok.inj hx
    exact ⟨_, rfl, h⟩
  | error e => simp at hx

theorem of_ok_right (hxy : Rel R x y) {b : β} (hy : y = .ok b) : ∃ a, x = .ok a ∧ R a b := by
  cases hxy with
  | ok h =>
    obtain rfl := Except.ok.inj hy
    exact ⟨_, rfl, h⟩
  | error e => simp at hy

theorem refl (x : Outcome α) : Rel Eq x x := by
  cases x with
  | ok a => exact .ok rfl
  | error e => exact .error e

/-! Lists that are related item by item are gone through alike. -/

section Lists

variable {xs : List α} {ys : List β} (h : List.Forall₂ R xs ys)
include h

theorem mapM {f : α → Outcome γ} {g : β → Outcome δ} (hfg : ∀ x y, R x y → Rel S (f x) (g y)) :
    Rel (List.Forall₂ S) (xs.mapM f) (ys.mapM g) := by
  induction h with
  | nil => exact .ok .nil
  | cons hxy hrest ih =>
    rw [List.mapM_cons, List.mapM_cons]
    exact (hfg _ _ hxy).bind fun _ _ hfirst => ih.bind fun _ _ hlater => .ok (.cons hfirst hlater)

theorem mapM_eq {f : α → Outcome γ} {g : β → Outcome γ} (hfg : ∀ x y, R x y → f x = g y) :
    xs.mapM f = ys.mapM g := by
  have hrel : Rel (List.Forall₂ Eq) (xs.mapM f) (ys.mapM g) :=
    mapM h fun x y hxy => hfg x y hxy ▸ refl (f x)
  exact (List.forall₂_eq_eq_eq ▸ hrel).eq

theorem filterM {f : α → Outcome Bool} {g : β → Outcome Bool} (hfg : ∀ x y, R x y → f x = g y) :
    Rel (List.Forall₂ R) (xs.filterM f) (ys.filterM g) := by
  -- The loop gathers the chosen items in front of those it has.
  have haux {chosen : List α} {chosen' : List β} (hchosen : List.Forall₂ R chosen chosen') :
      Rel (List.Forall₂ R) (List.filterAuxM f xs chosen) (List.filterAuxM g ys chosen') := by
    induction h generalizing chosen chosen' with
    | nil => exact .ok hchosen
    | cons hxy hrest ih =>
      rw [List.filterAuxM, List.filterAuxM, hfg _ _ hxy]
      refine (refl _).bind fun keep keep' hkeep => ?_
      subst hkeep
      cases keep with
      | false => exact ih hchosen
      | true => exact ih (.cons hxy hchosen)
  exact (haux .nil).bind fun _ _ hchosen => .ok (List.rel_reverse hchosen)

end Lists

end Rel

end Outcome

namespace Logged

theorem pure_bind (a : α) (f : α → Logged β) : (pure a >>= f) = f a := rfl

theorem bind_assoc (x : Logged α) (f : α → Logged β) (g : β → Logged γ) :
    x >>= f >>= g = x >>= fun a => f a >>= g := by
  obtain ⟨messages, outcome⟩ := x
  cases outcome with
  | error e => rfl
  | ok a =>
    simp only [bind]
    cases (f a).outcome <;> simp [List.append_assoc]

instance : LawfulMonad Logged :=
  LawfulMonad.mk' Logged
    (fun ⟨messages, outcome⟩ => by cases outcome <;> simp [Functor.map]) pure_bind bind_assoc

@[simp] theorem outcome_mapM (f : α → Logged β) (xs : List α) :
    (xs.mapM f).outcome = xs.mapM fun x => (f x).outcome := by
  induction xs with
  | nil => rfl
  | cons x xs ih =>
    simp only [List.mapM_cons, outcome_bind, ih]
    rfl

theorem outcome_forIn {f : α → PUnit → Logged (ForInStep PUnit)} {xs : List α}
    (h : ∀ x ∈ xs, (f x ⟨⟩).outcome = .ok (.yield ⟨⟩)) : (forIn xs ⟨⟩ f).outcome = .ok ⟨⟩ := by
  induction xs with
  | nil => rfl
  | cons x xs ih =>
    rw [List.forIn_cons, outcome_bind, h x List.mem_cons_self]
    exact ih fun y hy => h y (List.mem_cons_of_mem x hy)

end Logged

end Pagewright
