import Pagewright.Proofs.Outcome
import Pagewright.Record.Shared

/-!
# Lists and objects alike

To read and write below a path, a list and an object differ only in how a segment finds its part. A
`Container` is either of them over parts of any kind, values or slots. Its parts are numbered in order,
and `Container.target?` is the number that a segment stands for; behind the last part it is where an
object takes a new key. Both `Value.assignAt` and `Heap.assignAt` are steps from target to target
(`Value.assignAt_cons`, `Heap.assignAt_cons`).

What a segment stands for depends on the shape of a container alone, its length or keys, so containers of
one shape are written in step.
-/

namespace Pagewright

/-- A list or an object with parts of some kind. -/
inductive Container (α : Type) where
  | list (items : List α)
  | object (entries : List (String × α))

namespace Container

/-- The parts in order. -/
def parts : Container α → List α
  | list items => items
  | object entries => entries.map (·.2)

/-- The container without its parts. -/
def shape : Container α → Container Unit
  | list items => list (items.map fun _ => ())
  | object entries => object (entries.map fun e => (e.1, ()))

/-- The number of the part that a segment stands for. A list has none for a segment that is not one of
its positions; an object has the number of a new part for a key that it does not have. -/
def target? (c : Container α) (segment : String) : Outcome (Option ℕ) :=
  match c with
  | list items => do
    match ← Path.index? segment with
    | some i => return if i < items.length then some i else none
    | none => return none
  | object entries => .ok (some (entries.findIdx fun e => e.1 == segment))

/-- Put a part in the place of part `i`, which `segment` stands for. -/
def put (c : Container α) (segment : String) (i : ℕ) (a : α) : Container α :=
  match c with
  | list items => list (items.take i ++ a :: items.drop (i + 1))
  | object entries => object (entries.take i ++ (segment, a) :: entries.drop (i + 1))

variable {c : Container α} {c' : Container β} {segment : String} {i j : ℕ} {a : α} {b : β}

theorem ext_of_shape {c c' : Container α} (hshape : c.shape = c'.shape) (hparts : c.parts = c'.parts) :
    c = c' := by
  cases c <;> cases c' <;>
    simp only [shape, reduceCtorEq, list.injEq, object.injEq, parts] at hshape hparts
  · rw [hparts]
  · rename_i xs ys
    have hlength : xs.length = ys.length := by simpa using congrArg List.length hshape
    congr 1
    refine List.ext_getElem hlength fun k hk hk' => Prod.ext ?_ ?_
    · simpa [hk, hk'] using congrArg (fun l => l[k]?.map Prod.fst) hshape
    · simpa [hk, hk'] using congrArg (fun l => l[k]?) hparts

@[simp] theorem length_parts_shape (c : Container α) : c.shape.parts.length = c.parts.length := by
  cases c <;> simp [shape, parts]

theorem length_parts_eq (h : c.shape = c'.shape) : c.parts.length = c'.parts.length := by
  rw [← length_parts_shape c, h, length_parts_shape]

@[simp] theorem target?_shape (c : Container α) (segment : String) :
    c.shape.target? segment = c.target? segment := by
  cases c <;> simp [shape, target?, List.findIdx_map, Function.comp_def]

theorem target?_eq (h : c.shape = c'.shape) (segment : String) :
    c.target? segment = c'.target? segment := by
  rw [← target?_shape c, h, target?_shape]

theorem target?_le (h : c.target? segment = .ok (some i)) : i ≤ c.parts.length := by
  cases c with
  | list items =>
    simp only [target?, Outcome.bind_eq_ok] at h
    obtain ⟨n, -, h⟩ := h
    cases n with
    | none => simp at h
    | some n =>
      simp only [Outcome.pure_eq_ok, Except.ok.injEq, Option.ite_none_right_eq_some,
        Option.some.injEq] at h
      simp only [parts]
      omega
  | object entries =>
    simp only [target?, Except.ok.injEq, Option.some.injEq] at h
    simp only [parts, List.length_map, ← h]
    exact List.findIdx_le_length

theorem parts_put (c : Container α) (segment : String) (i : ℕ) (a : α) :
    (c.put segment i a).parts = c.parts.take i ++ a :: c.parts.drop (i + 1) := by
  cases c <;> simp [put, parts]

theorem getElem?_parts_put (h : i ≤ c.parts.length) (a : α) (j : ℕ) :
    (c.put segment i a).parts[j]? = if j = i then some a else c.parts[j]? := by
  rw [parts_put]
  grind

theorem mem_parts_put {a' : α} (h : a' ∈ (c.put segment i a).parts) : a' = a ∨ a' ∈ c.parts := by
  rw [parts_put] at h
  rcases List.mem_append.mp h with h | h
  · exact .inr (List.mem_of_mem_take h)
  · exact (List.mem_cons.mp h).imp_right List.mem_of_mem_drop

theorem shape_put (h : c.shape = c'.shape) (segment : String) (i : ℕ) (a : α) (b : β) :
    (c.put segment i a).shape = (c'.put segment i b).shape := by
  cases c <;> cases c' <;> simp only [shape, reduceCtorEq, list.injEq, object.injEq] at h
  · simp only [put, shape, List.map_append, List.map_take, List.map_cons, List.map_drop, h]
  · simp only [put, shape, List.map_append, List.map_take, List.map_cons, List.map_drop, h]

theorem target?_put (h : c.target? segment = .ok (some i)) (a : α) :
    (c.put segment i a).target? segment = .ok (some i) := by
  cases c with
  | list items =>
    have hle := target?_le h
    simp only [target?, Outcome.bind_eq_ok] at h
    obtain ⟨n, hn, h⟩ := h
    cases n with
    | none => simp at h
    | some n =>
      simp only [Outcome.pure_eq_ok, Except.ok.injEq, Option.ite_none_right_eq_some,
        Option.some.injEq] at h
      obtain ⟨hlt, rfl⟩ := h
      have : n < (items.take n ++ a :: items.drop (n + 1)).length := by simp; omega
      simp only [put, target?, hn, Outcome.ok_bind, if_pos this, Outcome.pure_eq_ok]
  | object entries =>
    simp only [target?, Except.ok.injEq, Option.some.injEq] at h
    simp only [put, target?, Except.ok.injEq, Option.some.injEq]
    subst h
    have hnone : (entries.take (entries.findIdx fun e => e.1 == segment)).findIdx
        (fun e => e.1 == segment) = (entries.take (entries.findIdx fun e => e.1 == segment)).length := by
      rw [List.findIdx_eq_length]
      intro e he
      obtain ⟨k, hk, rfl⟩ := List.mem_take_iff_getElem.mp he
      simpa using List.not_of_lt_findIdx (by omega : k < entries.findIdx fun e => e.1 == segment)
    rw [List.findIdx_append, hnone, if_neg (by omega)]
    simp [List.findIdx_cons, List.findIdx_le_length]

theorem put_eq_self (h : c.target? segment = .ok (some i)) (hi : c.parts[i]? = some a) :
    c.put segment i a = c := by
  have hlt : i < c.parts.length := (List.getElem?_eq_some_iff.mp hi).1
  cases c with
  | list items =>
    simp only [parts] at hi hlt
    have hpart := (List.getElem?_eq_some_iff.mp hi).2
    simp [put, ← hpart]
  | object entries =>
    simp only [parts, List.length_map] at hlt
    simp only [target?, Except.ok.injEq, Option.some.injEq] at h
    subst h
    have hkey : entries[entries.findIdx fun e => e.1 == segment].1 = segment := by
      simpa using List.findIdx_getElem (p := fun e : String × α => e.1 == segment) (w := hlt)
    have hpart : entries[entries.findIdx fun e => e.1 == segment].2 = a := by
      simpa [parts, hlt] using hi
    have hentry : (segment, a) = entries[entries.findIdx fun e => e.1 == segment] :=
      Prod.ext hkey.symm hpart.symm
    simp only [put, hentry, object.injEq]
    simp

theorem lookup_eq (entries : List (String × α)) (key : String) :
    entries.lookup key = (object entries).parts[entries.findIdx fun e => e.1 == key]? := by
  induction entries with
  | nil => rfl
  | cons e rest ih =>
    obtain ⟨k, a⟩ := e
    by_cases h : k = key
    · subst h
      simp [parts, List.findIdx_cons]
    · have hk : (k == key) = false := by simpa using h
      have hk' : (key == k) = false := by simpa using Ne.symm h
      simp only [parts] at ih
      simp [parts, List.lookup_cons, List.findIdx_cons, hk, hk', ih]

/-- The value of a container of values. -/
def toValue : Container Value → Value
  | list items => .list items
  | object entries => .object entries

/-- The node of a container of slots. -/
def toNode : Container Slot → Node
  | list items => .list items
  | object entries => .object entries

end Container

/-! ## Values -/

namespace Value

/-- The list or object that a value is. -/
def container? : Value → Option (Container Value)
  | list items => some (.list items)
  | object entries => some (.object entries)
  | _ => none

@[simp] theorem container?_toValue (c : Container Value) : c.toValue.container? = some c := by
  cases c <;> rfl

@[simp] theorem isContainer_toValue (c : Container Value) : c.toValue.isContainer = true := by
  cases c <;> rfl

@[simp] theorem isNull_toValue (c : Container Value) : c.toValue.isNull = false := by
  cases c <;> rfl

@[simp] theorem isPresent_toValue (c : Container Value) : c.toValue.isPresent = true := by
  cases c <;> rfl

@[simp] theorem asContainer_toValue (c : Container Value) : c.toValue.asContainer = c.toValue := by
  simp [asContainer]

theorem toValue_injective {c c' : Container Value} (h : c.toValue = c'.toValue) : c = c' := by
  simpa using congrArg container? h

theorem exists_toValue {v : Value} (h : v.isContainer = true) : ∃ c : Container Value, v = c.toValue := by
  cases v <;> simp only [isContainer, Bool.false_eq_true] at h
  · exact ⟨.list _, rfl⟩
  · exact ⟨.object _, rfl⟩

/-- A write goes on in a container itself, and in an empty object where there is none. -/
theorem asContainer_cases (v : Value) :
    (∃ c : Container Value, v = c.toValue ∧ v.asContainer = c.toValue) ∨
      (v.isContainer = false ∧ v.asContainer = (Container.object []).toValue) := by
  cases h : v.isContainer with
  | true =>
    obtain ⟨c, rfl⟩ := exists_toValue h
    exact .inl ⟨c, rfl, asContainer_toValue c⟩
  | false => exact .inr ⟨rfl, by simp only [asContainer, h]; rfl⟩

theorem exists_asContainer (v : Value) : ∃ c : Container Value, v.asContainer = c.toValue := by
  rcases asContainer_cases v with ⟨c, -, h⟩ | ⟨-, h⟩
  · exact ⟨c, h⟩
  · exact ⟨_, h⟩

theorem child_toValue (c : Container Value) (segment : String) :
    c.toValue.child segment = do
      match ← c.target? segment with
      | some i => return (c.parts[i]?).getD .null
      | none => return .null := by
  cases c with
  | list items =>
    simp only [Container.toValue, child, Container.target?]
    cases Path.index? segment with
    | error e => rfl
    | ok n =>
      cases n with
      | none => rfl
      | some n =>
        by_cases h : n < items.length <;> simp [h, Container.parts]
  | object entries =>
    simp [Container.toValue, child, Container.target?, Entries.get, Container.lookup_eq]

/-- Write what is below one segment: the value itself at the end of a path, else further down. -/
def assignIn (old new : Value) : List String → Outcome Value
  | [] => .ok new
  | rest => old.asContainer.assignAt new rest

theorem assignIn_cons (old new : Value) (s : String) (rest : List String) :
    assignIn old new (s :: rest) = old.asContainer.assignAt new (s :: rest) := rfl

theorem entries_set (entries : Entries) (key : String) (v : Value) :
    Container.object (Entries.set entries key v) =
      (Container.object entries).put key (entries.findIdx fun e => e.1 == key) v := by
  simp only [Container.put, Container.object.injEq]
  induction entries with
  | nil => rfl
  | cons e rest ih =>
    by_cases h : e.1 == key
    · obtain rfl : e.1 = key := by simpa using h
      simp [Entries.set, List.findIdx_cons]
    · simp [Entries.set, List.findIdx_cons, h, ih]

theorem assignAt_cons (c : Container Value) (new : Value) (segment : String) (rest : List String) :
    c.toValue.assignAt new (segment :: rest) = do
      match ← c.target? segment with
      | none => return c.toValue
      | some i =>
        return (c.put segment i (← assignIn ((c.parts[i]?).getD .null) new rest)).toValue := by
  cases c with
  | list items =>
    cases rest with
    | nil =>
      simp only [Container.toValue, assignAt, Container.target?]
      cases Path.index? segment with
      | error e => rfl
      | ok n =>
        cases n with
        | none => rfl
        | some n =>
          by_cases h : n < items.length <;>
            simp [h, assignIn, Container.put, List.set_eq_take_append_cons_drop]
    | cons s rest =>
      simp only [Container.toValue, assignAt, Container.target?]
      cases Path.index? segment with
      | error e => rfl
      | ok n =>
        cases n with
        | none => rfl
        | some n =>
          by_cases h : n < items.length <;>
            simp [h, assignIn, Container.put, Container.parts, List.set_eq_take_append_cons_drop]
  | object entries =>
    have hset (v : Value) : Value.object (Entries.set entries segment v) =
        ((Container.object entries).put segment (entries.findIdx fun e => e.1 == segment) v).toValue := by
      rw [← entries_set]
      rfl
    cases rest with
    | nil => simp [Container.toValue, assignAt, Container.target?, assignIn, hset]
    | cons s rest =>
      simp only [Container.toValue, assignAt, Container.target?, assignIn, hset, Entries.get,
        Container.lookup_eq]
      rfl

/-- What a write does in a container: it is refused, or puts a new part there. -/
theorem assignAt_cons_cases {c : Container Value} {new v : Value} {segment : String} {rest : List String}
    (h : c.toValue.assignAt new (segment :: rest) = .ok v) :
    (c.target? segment = .ok none ∧ v = c.toValue) ∨
      ∃ (i : ℕ) (a : Value), c.target? segment = .ok (some i) ∧
        assignIn ((c.parts[i]?).getD .null) new rest = .ok a ∧ v = (c.put segment i a).toValue := by
  rw [assignAt_cons, Outcome.bind_eq_ok] at h
  obtain ⟨_ | i, htarget, h⟩ := h
  · exact .inl ⟨htarget, (Except.ok.inj h).symm⟩
  · obtain ⟨a, ha, h⟩ := Outcome.bind_eq_ok.mp h
    exact .inr ⟨i, a, htarget, ha, (Except.ok.inj h).symm⟩

end Value

/-! ## Nodes -/

namespace Node

/-- The list or object that a node is. -/
def container : Node → Container Slot
  | list items => .list items
  | object entries => .object entries

@[simp] theorem container_toNode (c : Container Slot) : c.toNode.container = c := by cases c <;> rfl

@[simp] theorem toNode_container (n : Node) : n.container.toNode = n := by cases n <;> rfl

end Node

namespace Heap

variable {h : Heap} {id : ℕ} {n : Node}

theorem setEntry_eq (entries : List (String × Slot)) (key : String) (s : Slot) :
    Container.object (Slot.setEntry entries key s) =
      (Container.object entries).put key (entries.findIdx fun e => e.1 == key) s := by
  simp only [Container.put, Container.object.injEq]
  induction entries with
  | nil => rfl
  | cons e rest ih =>
    by_cases h : e.1 == key
    · obtain rfl : e.1 = key := by simpa using h
      simp [Slot.setEntry, List.findIdx_cons]
    · simp [Slot.setEntry, List.findIdx_cons, h, ih]

theorem child_node (hn : h[id]? = some n) (segment : String) :
    h.child (.node id) segment = do
      match ← n.container.target? segment with
      | some i => return (n.container.parts[i]?).getD .null
      | none => return .null := by
  cases n with
  | list items =>
    simp only [child, node?, hn, Node.container, Container.target?]
    cases Path.index? segment with
    | error e => rfl
    | ok k =>
      cases k with
      | none => rfl
      | some k => by_cases hk : k < items.length <;> simp [hk, Container.parts]
  | object entries => simp [child, node?, hn, Node.container, Container.target?, Container.lookup_eq]

/-- The heap with a new object in the place of a part of the node `id`, for a write to go on in. -/
def opened (h : Heap) (id : ℕ) (c : Container Slot) (segment : String) (i : ℕ) : Heap :=
  (h.push (.object [])).set! id (c.put segment i (.node h.size)).toNode

theorem assignAt_singleton (hn : h[id]? = some n) (new : Slot) (segment : String) :
    h.assignAt id new [segment] = do
      match ← n.container.target? segment with
      | none => return h
      | some i => return h.set! id (n.container.put segment i new).toNode := by
  cases n with
  | list items =>
    simp only [assignAt, hn, Node.container, Container.target?]
    cases Path.index? segment with
    | error e => rfl
    | ok k =>
      cases k with
      | none => rfl
      | some k =>
        by_cases hk : k < items.length <;>
          simp [hk, Container.put, Container.toNode, List.set_eq_take_append_cons_drop]
  | object entries =>
    have hset : Node.object (Slot.setEntry entries segment new) =
        ((Container.object entries).put segment (entries.findIdx fun e => e.1 == segment)
          new).toNode := by
      rw [← setEntry_eq]
      rfl
    simp [assignAt, hn, Node.container, Container.target?, hset]

/-- A write goes on in the node of its target, or in a new object where there is none. -/
theorem assignAt_cons (hn : h[id]? = some n) (new : Slot) (segment s : String) (rest : List String) :
    h.assignAt id new (segment :: s :: rest) = (do
      match ← n.container.target? segment with
      | none => return h
      | some i =>
        match n.container.parts[i]? with
        | some (.node next) => h.assignAt next new (s :: rest)
        | _ => (h.opened id n.container segment i).assignAt h.size new (s :: rest)) := by
  cases n with
  | list items =>
    rw [assignAt.eq_3 _ _ _ _ _ (by simp)]
    simp only [hn, Node.container, Container.target?]
    cases Path.index? segment with
    | error e => rfl
    | ok k =>
      cases k with
      | none => rfl
      | some k =>
        by_cases hk : k < items.length
        · simp only [Outcome.ok_bind, hk, if_true, Outcome.pure_eq_ok, Container.parts,
            List.getElem?_eq_getElem]
          cases hi : items[k] with
          | node next => rfl
          | leaf v =>
            simp [opened, Container.put, Container.toNode, hk, List.set_eq_take_append_cons_drop]
        · simp [hk]
  | object entries =>
    have hset (new : Slot) : Node.object (Slot.setEntry entries segment new) =
        ((Container.object entries).put segment (entries.findIdx fun e => e.1 == segment)
          new).toNode := by
      rw [← setEntry_eq]
      rfl
    rw [assignAt.eq_3 _ _ _ _ _ (by simp)]
    cases hpart : (Container.object entries).parts[entries.findIdx fun e => e.1 == segment]? with
    | none => simp [hn, Node.container, Container.target?, Container.lookup_eq, opened, hset, hpart]
    | some t =>
      cases t <;> simp [hn, Node.container, Container.target?, Container.lookup_eq, opened, hset, hpart]

section

variable {new : Slot} {segment s : String} {rest : List String} {i next : ℕ}

theorem assignAt_of_error {e : Failure} (hn : h[id]? = some n)
    (htarget : n.container.target? segment = .error e) :
    h.assignAt id new (segment :: rest) = .error e := by
  cases rest with
  | nil => rw [assignAt_singleton hn, htarget, Outcome.error_bind]
  | cons s rest => rw [assignAt_cons hn, htarget, Outcome.error_bind]

theorem assignAt_of_refused (hn : h[id]? = some n) (htarget : n.container.target? segment = .ok none) :
    h.assignAt id new (segment :: rest) = .ok h := by
  cases rest with
  | nil => rw [assignAt_singleton hn, htarget]; rfl
  | cons s rest => rw [assignAt_cons hn, htarget]; rfl

theorem assignAt_of_last (hn : h[id]? = some n) (htarget : n.container.target? segment = .ok (some i)) :
    h.assignAt id new [segment] = .ok (h.set! id (n.container.put segment i new).toNode) := by
  rw [assignAt_singleton hn, htarget]
  rfl

theorem assignAt_of_node (hn : h[id]? = some n) (htarget : n.container.target? segment = .ok (some i))
    (hpart : n.container.parts[i]? = some (.node next)) :
    h.assignAt id new (segment :: s :: rest) = h.assignAt next new (s :: rest) := by
  rw [assignAt_cons hn, htarget]
  simp only [Outcome.ok_bind, hpart]

theorem assignAt_of_not_node (hn : h[id]? = some n)
    (htarget : n.container.target? segment = .ok (some i))
    (hpart : ∀ next, n.container.parts[i]? ≠ some (.node next)) :
    h.assignAt id new (segment :: s :: rest) =
      (h.opened id n.container segment i).assignAt h.size new (s :: rest) := by
  rw [assignAt_cons hn, htarget]
  simp only [Outcome.ok_bind]

end

theorem getElem?_set (hn : h[id]? = some n) (n' : Node) (m : ℕ) :
    (h.set! id n')[m]? = if m = id then some n' else h[m]? := by
  have hlt := (Array.getElem?_eq_some_iff.mp hn).1
  grind

theorem getElem?_opened (hn : h[id]? = some n) (c : Container Slot) (segment : String) (i m : ℕ) :
    (h.opened id c segment i)[m]? =
      if m = id then some (c.put segment i (.node h.size)).toNode
      else if m = h.size then some (.object []) else h[m]? := by
  have hlt := (Array.getElem?_eq_some_iff.mp hn).1
  have hn' : (h.push (.object []))[id]? = some n := by
    rw [Array.getElem?_push, if_neg (by omega), hn]
  unfold opened
  rw [getElem?_set hn', Array.getElem?_push]

@[simp] theorem size_opened (h : Heap) (id : ℕ) (c : Container Slot) (segment : String) (i : ℕ) :
    (h.opened id c segment i).size = h.size + 1 := by
  simp [opened]

end Heap

end Pagewright
