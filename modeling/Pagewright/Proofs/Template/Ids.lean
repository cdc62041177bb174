import Mathlib.Data.List.Nodup
import Pagewright.Proofs.Template.Checks
import Pagewright.Proofs.Template.Discovery

/-!
# The ids of a document

In the place of an inclusion stand copies of the elements of a partial, each named after the inclusion and its
original (`Template.namesOf`). Validation counts the ids of each scope, but two things get past it
(`Validation.nodup_ids`). It counts ids as they are written, and they are read as texts, so `1` and `"1"` are
two ids for it and one afterwards. And the two underscores that join the names of a copy may stand in an id
as well, so that an element has the name of a copy, or two inclusions have copies with one name.
-/

namespace Pagewright

namespace Validation

open Outcome

variable {v w : Value} {raw partials : Entries} {vs items : List Value} {cs : List (Value × ℕ)}
  {es : List Element} {t : Template} {place location : String}

/-! ## Counting -/

/-- A value is counted with the first one that it equals, or on its own. -/
theorem count_cases (v : Value) (cs : List (Value × ℕ)) :
    (∃ w n, (w, n) ∈ cs ∧ (w, n + 1) ∈ count v cs) ∨
      ((∀ p ∈ cs, p.1.same v = false) ∧ count v cs = cs ++ [(v, 1)]) := by
  induction cs with
  | nil => exact .inr ⟨by simp, rfl⟩
  | cons p rest ih =>
    obtain ⟨w, n⟩ := p
    unfold count
    split
    · exact .inl ⟨w, n, List.mem_cons_self, List.mem_cons_self⟩
    · rename_i hsame
      rcases ih with ⟨u, m, hold, hnew⟩ | ⟨hother, hlast⟩
      · exact .inl ⟨u, m, List.mem_cons_of_mem _ hold, List.mem_cons_of_mem _ hnew⟩
      · refine .inr ⟨List.forall_mem_cons.mpr ⟨by simpa using hsame, hother⟩, ?_⟩
        rw [hlast, List.cons_append]

theorem exists_le_of_mem_count {p : Value × ℕ} (v : Value) (hp : p ∈ cs) : ∃ q ∈ count v cs, p.2 ≤ q.2 := by
  induction cs with
  | nil => cases hp
  | cons r rest ih =>
    unfold count
    rcases List.mem_cons.mp hp with rfl | hp
    · split
      · exact ⟨_, List.mem_cons_self, Nat.le_succ _⟩
      · exact ⟨_, List.mem_cons_self, Nat.le_refl _⟩
    · split
      · exact ⟨p, List.mem_cons_of_mem _ hp, Nat.le_refl _⟩
      · obtain ⟨q, hq, hle⟩ := ih hp
        exact ⟨q, List.mem_cons_of_mem _ hq, hle⟩

theorem exists_le_of_mem_foldl_count {p : Value × ℕ} (vs : List Value) (hp : p ∈ cs) :
    ∃ q ∈ vs.foldl (fun cs v => count v cs) cs, p.2 ≤ q.2 := by
  induction vs generalizing cs p with
  | nil => exact ⟨p, hp, Nat.le_refl _⟩
  | cons v vs ih =>
    obtain ⟨q, hq, hle⟩ := exists_le_of_mem_count v hp
    obtain ⟨r, hr, hle'⟩ := ih hq
    exact ⟨r, hr, hle.trans hle'⟩

/-- Where no count is above one, no value equals one before it. -/
theorem pairwise_of_foldl_count (hpos : ∀ p ∈ cs, 0 < p.2)
    (hone : ∀ p ∈ vs.foldl (fun cs v => count v cs) cs, p.2 ≤ 1) :
    vs.Pairwise (fun v w => v.same w = false) ∧ ∀ p ∈ cs, ∀ v ∈ vs, p.1.same v = false := by
  induction vs generalizing cs with
  | nil => exact ⟨.nil, by simp⟩
  | cons v vs ih =>
    rw [List.foldl_cons] at hone
    rcases count_cases v cs with ⟨w, n, hold, hnew⟩ | ⟨hother, hlast⟩
    · obtain ⟨q, hq, hle⟩ := exists_le_of_mem_foldl_count vs hnew
      have hn : 0 < n := hpos _ hold
      have hq := hone q hq
      have hle : n + 1 ≤ q.2 := hle
      omega
    · rw [hlast] at hone
      obtain ⟨hpair, hnew⟩ := ih (by simpa [or_imp, forall_and] using hpos) hone
      refine ⟨List.pairwise_cons.mpr ⟨hnew (v, 1) (by simp), hpair⟩, fun p hp => ?_⟩
      exact List.forall_mem_cons.mpr ⟨hother p hp, hnew p (List.mem_append_left _ hp)⟩

theorem pairwise_of_counts (h : counts vs = .ok cs) (hone : ∀ p ∈ cs, p.2 ≤ 1) :
    vs.Pairwise fun v w => v.same w = false := by
  unfold counts at h
  split at h
  · cases h
  · obtain rfl := Except.ok.inj h
    exact (pairwise_of_foldl_count (by simp) hone).1

/-! ## The ids of a scope -/

/-- The id that an element is written with. -/
def idOf (v : Value) : Value := Entries.get (v.object?.getD []) "id"

theorem isGiven_idOf (h : checkElement partials place v = .ok []) :
    v.object?.isSome = true ∧ (idOf v).isGiven = true := by
  cases v with
  | object raw => exact ⟨rfl, (checkElement_eq_nil h).1⟩
  | _ => simp [checkElement] at h

theorem pairwise_ids_of_checkScope (h : checkScope partials location (.list items) = .ok []) :
    idsOf items = items.map idOf ∧ (idsOf items).Pairwise fun v w => v.same w = false := by
  constructor
  · obtain ⟨_, heq, hitems⟩ := checkScope_eq_nil h
    obtain rfl := Value.list.inj heq
    rw [idsOf, ← List.filterMap_eq_map]
    refine List.filterMap_congr fun item hitem => ?_
    obtain ⟨place, hnone⟩ := hitems item hitem
    obtain ⟨hobject, hgiven⟩ := isGiven_idOf hnone
    obtain ⟨raw, hraw⟩ := Option.isSome_iff_exists.mp hobject
    have hid : idOf item = Entries.get raw "id" := by rw [idOf, hraw, Option.getD_some]
    rw [hid] at hgiven
    simp [hraw, hid, Value.given?, hgiven]
  · unfold checkScope at h
    simp only [bind_eq_ok] at h
    obtain ⟨counted, hcounted, issues, -, h⟩ := h
    have hnone := (List.append_eq_nil_iff.mp (Except.ok.inj h)).1
    refine pairwise_of_counts hcounted fun p hp => ?_
    have := List.filterMap_eq_nil_iff.mp hnone p hp
    by_contra hlt
    simp [Nat.lt_of_not_le hlt] at this

theorem id_of_element {e : Element} (h : Reading.element v location = .ok e) :
    e.id = Reading.textOf (idOf v) := by
  cases v with
  | object raw =>
    unfold Reading.element at h
    simp only [bind_eq_ok] at h
    obtain ⟨kind, -, x, -, y, -, w, -, height, -, page, -, content, -, h⟩ := h
    rw [← Except.ok.inj h]
    rfl
  | _ => cases h

theorem map_id_of_elements (h : Reading.elements (.list items) place = .ok es) :
    es.map (·.id) = (items.map idOf).map Reading.textOf := by
  unfold Reading.elements at h
  dsimp only at h
  rw [Reading.each_eq_mapM] at h
  rw [map_of_mapM h (k := (Reading.textOf ∘ idOf) ∘ Prod.fst) fun p e hread => id_of_element hread,
    ← List.map_map, List.zipIdx_map_fst, List.map_map]

/-- The ids of a scope without issues are read as different texts, unless two that are not equal read
alike. -/
theorem nodup_ids_of_checkScope (hcheck : checkScope partials location v = .ok [])
    (h : Reading.elements v place = .ok es)
    (hapart : ∀ a ∈ idsOf (v.list?.getD []), ∀ b ∈ idsOf (v.list?.getD []),
      Reading.textOf a = Reading.textOf b → a.same b = true) : (es.map (·.id)).Nodup := by
  obtain ⟨items, rfl, -⟩ := checkScope_eq_nil hcheck
  obtain ⟨hids, hpair⟩ := pairwise_ids_of_checkScope hcheck
  rw [map_id_of_elements h, ← hids]
  refine List.pairwise_map.mpr (hpair.imp_of_mem fun {a b} ha hb hother htext => ?_)
  rw [hapart a ha b hb htext] at hother
  cases hother

/-! ## Documents -/

/-- The ids of the scopes of a document: those of its elements, and those of each partial. -/
def scopes (v : Value) : List (List Value) :=
  let raw := v.object?.getD []
  idsOf (((Entries.find? raw "elements").getD (.list [])).list?.getD []) ::
    (partialsOf (Entries.get raw "partials")).1.map fun p => idsOf ((scopeOf p.2).list?.getD [])

/-- No two ids of a scope are read as one text, unless they are equal. -/
def ReadsApart (v : Value) : Prop :=
  ∀ ids ∈ scopes v, ∀ a ∈ ids, ∀ b ∈ ids, Reading.textOf a = Reading.textOf b → a.same b = true

instance (v : Value) : Decidable (ReadsApart v) :=
  inferInstanceAs (Decidable (∀ ids ∈ scopes v, ∀ a ∈ ids, ∀ b ∈ ids, _ → _))

/-- The elements of a valid document, and those of each of its partials, are read with different ids unless
two of a scope that are not equal read alike. -/
theorem nodup_ids_of_readsApart (hvalid : issues v = .ok []) (ht : Template.ofValue v = .ok t)
    (hapart : ReadsApart v) :
    (t.elements.map (·.id)).Nodup ∧ ∀ p ∈ t.partials, (p.2.map (·.id)).Nodup := by
  cases v with
  | object raw =>
    obtain ⟨hparts, -⟩ := issuesOf_eq_nil_iff.mp hvalid
    obtain ⟨-, helements, -⟩ := ofValue_eq_ok ht
    refine ⟨nodup_ids_of_checkScope hparts.elements (elements_getD helements) (hapart _ List.mem_cons_self),
      fun p hp => ?_⟩
    obtain ⟨q, hq, hread⟩ := exists_scope_of_mem_partials hparts ht hp
    exact nodup_ids_of_checkScope (hparts.inside q hq) hread
      (hapart _ (List.mem_cons_of_mem _ (List.mem_map.mpr ⟨q, hq, rfl⟩)))
  | _ => simp [issues] at hvalid

end Validation

namespace Template

open Outcome

variable {t : Template} {e i child clone : Element} {es : List Element} {a b x y name : String}

/-! ## Names of copies -/

/-- The ids in the place of an element: its own, or those of the copies that stand for an inclusion. -/
def namesOf (t : Template) (e : Element) : List String :=
  match e.content.inclusion? with
  | none => [e.id]
  | some ref =>
    match t.partial? ref with
    | .ok (some children) => children.map fun child => e.id ++ "__" ++ child.id
    | _ => []

theorem id_of_cloneChild (h : cloneChild i child = .ok clone) : clone.id = i.id ++ "__" ++ child.id := by
  obtain ⟨condition, -, h⟩ := bind_eq_ok.mp h
  rw [← Except.ok.inj h]

theorem map_id_expandElement (h : t.expandElement e = .ok es) : es.map (·.id) = t.namesOf e := by
  unfold expandElement at h
  unfold namesOf
  cases href : e.content.inclusion? with
  | none =>
    rw [href] at h
    rw [← Except.ok.inj h]
    rfl
  | some ref =>
    rw [href] at h
    obtain ⟨found, hfound, h⟩ := bind_eq_ok.mp h
    cases found with
    | none =>
      rw [← Except.ok.inj h]
      simp [hfound]
    | some children =>
      rw [map_of_mapM h (k := fun child => e.id ++ "__" ++ child.id) fun _ _ hclone => id_of_cloneChild hclone]
      simp [hfound]

theorem map_id_expand (h : t.expand = .ok es) : es.map (·.id) = t.elements.flatMap t.namesOf := by
  obtain ⟨cycle, -, h⟩ := bind_eq_ok.mp h
  cases cycle with
  | some names => simp at h
  | none =>
    obtain ⟨parts, hparts, h⟩ := bind_eq_ok.mp h
    rw [← Except.ok.inj h, List.map_flatten,
      map_of_mapM hparts (k := t.namesOf) fun _ _ hexpand => map_id_expandElement hexpand, List.flatMap_def]

/-- Names whose two underscores in a row are those that join the names of a copy. -/
structure PlainNames (t : Template) : Prop where
  plain : ∀ e ∈ t.elements, ¬['_', '_'] <:+: e.id.toList
  inclusion : ∀ e ∈ t.elements, e.isInclusion = true → ¬['_'] <:+ e.id.toList

theorem toList_joined (a x : String) : (a ++ "__" ++ x).toList = a.toList ++ '_' :: '_' :: x.toList := by
  simp

theorem ne_joined (ha : ¬['_', '_'] <:+: a.toList) (b x : String) : a ≠ b ++ "__" ++ x := by
  rintro rfl
  exact ha ⟨b.toList, x.toList, by simp⟩

/-- What begins with two underscores, and ends a name without two in a row or one at its end, is nothing. -/
theorem eq_nil_of_underscores {q s rest more : List Char} (hplain : ¬['_', '_'] <:+: q ++ s)
    (hlast : ¬['_'] <:+ q ++ s) (h : '_' :: '_' :: rest = s ++ more) : s = [] := by
  match s with
  | [] => rfl
  | [c] =>
    obtain ⟨rfl, -⟩ := List.cons.inj h
    exact absurd (List.suffix_append q ['_']) hlast
  | c :: d :: s =>
    obtain ⟨rfl, hnext⟩ := List.cons.inj h
    obtain ⟨rfl, -⟩ := List.cons.inj hnext
    exact absurd ⟨q, s, by simp⟩ hplain

/-- The name of a copy tells the name of the inclusion. -/
theorem eq_of_joined (ha : ¬['_', '_'] <:+: a.toList) (ha' : ¬['_'] <:+ a.toList)
    (hb : ¬['_', '_'] <:+: b.toList) (hb' : ¬['_'] <:+ b.toList)
    (h : a ++ "__" ++ x = b ++ "__" ++ y) : a = b := by
  have hlist := congrArg String.toList h
  rw [toList_joined, toList_joined, List.append_eq_append_iff] at hlist
  rcases hlist with ⟨s, hs, hrest⟩ | ⟨s, hs, hrest⟩
  · rw [hs] at hb hb'
    obtain rfl := eq_nil_of_underscores hb hb' hrest
    exact String.toList_injective (by simpa using hs.symm)
  · rw [hs] at ha ha'
    obtain rfl := eq_nil_of_underscores ha ha' hrest
    exact String.toList_injective (by simpa using hs)

theorem cases_of_mem_namesOf (h : name ∈ t.namesOf e) :
    (e.isInclusion = false ∧ name = e.id) ∨ (e.isInclusion = true ∧ ∃ x, name = e.id ++ "__" ++ x) := by
  unfold namesOf at h
  unfold Element.isInclusion
  split at h
  · rename_i href
    exact .inl ⟨by rw [href]; rfl, List.mem_singleton.mp h⟩
  · rename_i ref href
    split at h
    · obtain ⟨child, -, rfl⟩ := List.mem_map.mp h
      exact .inr ⟨by rw [href]; rfl, child.id, rfl⟩
    · cases h

/-- Elements with different plain names give no name twice. -/
theorem PlainNames.ne_of_mem (ht : t.PlainNames) (he : e ∈ t.elements) (hi : i ∈ t.elements) (hne : e.id ≠ i.id)
    {other : String} (hname : name ∈ t.namesOf e) (hother : other ∈ t.namesOf i) : name ≠ other := by
  rcases cases_of_mem_namesOf hname with ⟨-, rfl⟩ | ⟨he', x, rfl⟩ <;>
    rcases cases_of_mem_namesOf hother with ⟨-, rfl⟩ | ⟨hi', y, rfl⟩
  · exact hne
  · exact ne_joined (ht.plain e he) _ _
  · exact (ne_joined (ht.plain i hi) _ _).symm
  · exact fun h => hne (eq_of_joined (ht.plain e he) (ht.inclusion e he he') (ht.plain i hi)
      (ht.inclusion i hi hi') h)

theorem nodup_namesOf (hpartials : ∀ p ∈ t.partials, (p.2.map (·.id)).Nodup) (e : Element) :
    (t.namesOf e).Nodup := by
  unfold namesOf
  split
  · exact List.nodup_singleton _
  · split
    · rename_i children hchildren
      obtain ⟨s, -, hlookup⟩ := partial?_eq_some hchildren
      have hnodup := hpartials _ (mem_of_lookup hlookup)
      have hmap : (children.map fun child => e.id ++ "__" ++ child.id) =
          (children.map (·.id)).map (e.id ++ "__" ++ ·) := by simp
      rw [hmap]
      exact hnodup.map fun _ _ h => by simpa using h
    · exact List.nodup_nil

/-- The ids of a document are different just when no element gives a name twice and no two elements give one
name. -/
theorem nodup_map_id_expand_iff (h : t.expand = .ok es) : (es.map (·.id)).Nodup ↔
    (∀ e ∈ t.elements, (t.namesOf e).Nodup) ∧
      t.elements.Pairwise fun e i => ∀ name ∈ t.namesOf e, name ∉ t.namesOf i := by
  rw [map_id_expand h, List.nodup_flatMap]
  rfl

end Template

namespace Validation

open Template

variable {v : Value} {t : Template} {es : List Element}

/-- What keeps the ids of a valid document apart. They are different just when no element gives a name twice
and no two elements give one name. That is so if no two ids of a scope read alike that are not equal, no id of
an element has two underscores in a row, and no id of an inclusion ends in one. -/
theorem nodup_ids (hvalid : issues v = .ok []) (ht : Template.ofValue v = .ok t) (hes : t.expand = .ok es) :
    ((es.map (·.id)).Nodup ↔ (∀ e ∈ t.elements, (t.namesOf e).Nodup) ∧
      t.elements.Pairwise fun e i => ∀ name ∈ t.namesOf e, name ∉ t.namesOf i) ∧
    (ReadsApart v → t.PlainNames → (es.map (·.id)).Nodup) := by
  refine ⟨nodup_map_id_expand_iff hes, fun hapart hplain => (nodup_map_id_expand_iff hes).mpr ?_⟩
  obtain ⟨helements, hpartials⟩ := nodup_ids_of_readsApart hvalid ht hapart
  refine ⟨fun e _ => nodup_namesOf hpartials e, ?_⟩
  exact (List.pairwise_map.mp helements).imp_of_mem fun he hi hne name hname hother =>
    hplain.ne_of_mem he hi hne hname hother rfl

/-- A drawing with a mark, and with an inclusion of a partial that has a mark. -/
def sealedDrawing (first second : Value) : Entries :=
  [("page", .object [("width", .int 100), ("height", .int 100)]),
    ("partials", .object [("seal", .object [("elements",
      .list [.object [("id", .text "mark"), ("type", .text "box")]])])]),
    ("elements", .list [.object [("id", first), ("type", .text "box")],
      .object [("id", second), ("type", .text "box")],
      .object [("id", .text "seal"), ("type", .text "include"), ("ref", .text "seal")]])]

/-- Three names that are kept apart. -/
theorem nodup_ids_sealedDrawing :
    issues (.object (sealedDrawing (.text "mark") (.int 1))) = .ok [] ∧
    ∃ t es, Template.ofValue (.object (sealedDrawing (.text "mark") (.int 1))) = .ok t ∧ t.expand = .ok es ∧
      es.length = 3 ∧ (es.map (·.id)).Nodup := by
  have hvalid : issues (.object (sealedDrawing (.text "mark") (.int 1))) = .ok [] :=
    issues_of_flat (by decide +kernel) (by decide +kernel)
  have hread : ∃ t, Template.ofValue (.object (sealedDrawing (.text "mark") (.int 1))) = .ok t ∧
      (∀ p ∈ t.partials, references p.2 = []) ∧ (∀ e ∈ t.elements, ¬['_', '_'] <:+: e.id.toList) ∧
      (∀ e ∈ t.elements, e.isInclusion = true → ¬['_'] <:+ e.id.toList) ∧
      ∃ parts, t.elements.mapM t.expandElement = .ok parts ∧ parts.flatten.length = 3 := by decide +kernel
  obtain ⟨t, ht, hflat, hplain, hinclusion, parts, hparts, hlength⟩ := hread
  have hes : t.expand = .ok parts.flatten := by
    rw [expand_eq_of_findCycle (findCycle_of_flat hflat), hparts]
    rfl
  exact ⟨hvalid, t, parts.flatten, ht, hes, hlength,
    (nodup_ids hvalid ht hes).2 (by decide +kernel) ⟨hplain, hinclusion⟩⟩

/-- A valid document without inclusions in its partials repeats an id if its elements do, one by one. -/
theorem not_nodup_of_expandElement {raw : Entries} (hparts : HasValidParts raw)
    (h : ∃ t, Template.ofValue (.object raw) = .ok t ∧ (∀ p ∈ t.partials, references p.2 = []) ∧
      ¬t.page.bodyHeight ≤ 0 ∧
      ∃ parts, t.elements.mapM t.expandElement = .ok parts ∧ ¬(parts.flatten.map (·.id)).Nodup) :
    ¬∀ t es, issues (.object raw) = .ok [] → Template.ofValue (.object raw) = .ok t → t.expand = .ok es →
      (es.map (·.id)).Nodup := by
  obtain ⟨t, ht, hflat, hbody, parts, hmap, hrepeats⟩ := h
  intro hall
  refine hrepeats (hall t parts.flatten (issues_of_flat hparts ⟨t, ht, hflat, hbody⟩) ht ?_)
  rw [expand_eq_of_findCycle (findCycle_of_flat hflat), hmap]
  rfl

/-- A number and a text that read alike, and a name that is also that of a copy, are given twice. -/
theorem not_nodup_ids_sealedDrawing :
    (¬∀ t es, issues (.object (sealedDrawing (.int 1) (.text "1"))) = .ok [] →
      Template.ofValue (.object (sealedDrawing (.int 1) (.text "1"))) = .ok t → t.expand = .ok es →
      (es.map (·.id)).Nodup) ∧
    ¬∀ t es, issues (.object (sealedDrawing (.text "mark") (.text "seal__mark"))) = .ok [] →
      Template.ofValue (.object (sealedDrawing (.text "mark") (.text "seal__mark"))) = .ok t →
      t.expand = .ok es → (es.map (·.id)).Nodup :=
  ⟨not_nodup_of_expandElement (by decide +kernel) (by decide +kernel),
    not_nodup_of_expandElement (by decide +kernel) (by decide +kernel)⟩

end Validation

end Pagewright
