import Pagewright.Record.Path

/-!
# Records with shared parts

A list or object that is written to a second place of a record is not copied: both places hold the same
one, and a later write inside it is seen at both. `Heap` keeps every list and object as a numbered
node; a `Slot` is a value without parts or the number of a node. Reading and writing along a path are
those of data values, node by node, and `Heap.toValue` gives the tree that a slot stands for.

A write can put a node inside itself. Such a slot has no tree.
-/

namespace Pagewright

/-- What a place holds: a value without parts, or a node. -/
inductive Slot where
  | leaf (value : Value)
  | node (id : Nat)
  deriving Repr, Inhabited

/-- A list or object whose parts are slots. -/
inductive Node where
  | list (items : List Slot)
  | object (entries : List (String × Slot))
  deriving Repr, Inhabited

/-- The nodes by number. -/
abbrev Heap := Array Node

namespace Slot

/-- The slot of null. -/
def null : Slot := leaf .null

/-- Whether a slot holds null. -/
def isNull : Slot → Bool
  | leaf v => v.isNull
  | node _ => false

/-- Whether a slot holds a value worth showing. -/
def isPresent : Slot → Bool
  | leaf v => v.isPresent
  | node _ => true

/-- Put a slot under a key: in place when the key is present, else at the end. -/
def setEntry : List (String × Slot) → String → Slot → List (String × Slot)
  | [], key, slot => [(key, slot)]
  | (k, s) :: rest, key, slot =>
    if k == key then (k, slot) :: rest else (k, s) :: setEntry rest key slot

end Slot

namespace Heap

/-- Add a node. -/
def add (h : Heap) (n : Node) : Slot × Heap := (.node h.size, h.push n)

mutual

/-- Add a value as new nodes. -/
def insert (h : Heap) : Value → Slot × Heap
  | .list items =>
    let (slots, h) := insertItems h items
    add h (.list slots)
  | .object entries =>
    let (slots, h) := insertEntries h entries
    add h (.object slots)
  | v => (.leaf v, h)

/-- Add the items of a list. -/
def insertItems (h : Heap) : List Value → List Slot × Heap
  | [] => ([], h)
  | v :: rest =>
    let (slot, h) := insert h v
    let (slots, h) := insertItems h rest
    (slot :: slots, h)

/-- Add the values of entries. -/
def insertEntries (h : Heap) : List (String × Value) → List (String × Slot) × Heap
  | [] => ([], h)
  | (k, v) :: rest =>
    let (slot, h) := insert h v
    let (slots, h) := insertEntries h rest
    ((k, slot) :: slots, h)

end

/-- The node that a slot refers to. -/
def node? (h : Heap) : Slot → Option Node
  | .leaf _ => none
  | .node id => h[id]?

/-- The tree under a slot, read to a depth of `depth` nodes; none when it goes deeper. -/
def toValueWithin (h : Heap) : Nat → Slot → Option Value
  | _, .leaf v => some v
  | 0, .node _ => none
  | depth + 1, .node id =>
    match h[id]? with
    | some (.list items) => do return .list (← items.mapM (toValueWithin h depth))
    | some (.object entries) => do
      return .object (← entries.mapM fun (k, s) => do return (k, ← toValueWithin h depth s))
    | none => none

/-- The tree that a slot stands for. A node inside itself has none; any other tree is no deeper than
there are nodes. -/
def toValue (h : Heap) (s : Slot) : Outcome Value :=
  match h.toValueWithin h.size s with
  | some v => .ok v
  | none => undefinedOn .endlessValue

/-- The part of a slot under one segment. -/
def child (h : Heap) (s : Slot) (segment : String) : Outcome Slot :=
  match h.node? s with
  | some (.object entries) => .ok ((entries.lookup segment).getD .null)
  | some (.list items) => do
    match ← Path.index? segment with
    | some i => return items.getD i .null
    | none => return .null
  | none => .ok .null

/-- The slot under a sequence of segments. -/
def walk (h : Heap) (s : Slot) : List String → Outcome Slot
  | [] => .ok s
  | segment :: rest =>
    if s.isNull then .ok .null
    else do walk h (← h.child s segment) rest

/-- The slot at a path. -/
def find (h : Heap) (s : Slot) (path : String) : Outcome Slot :=
  match Path.segments path with
  | [] => .ok .null
  | segments => h.walk s segments

/-- A slot to go on writing in: itself if it is a node, else a new object. -/
def asContainer (h : Heap) (s : Slot) : Slot × Heap :=
  match s with
  | .node _ => (s, h)
  | .leaf _ => h.add (.object [])

/-- Write under a sequence of segments, starting at the node `id`. -/
def assignAt (h : Heap) (id : Nat) (new : Slot) : List String → Outcome Heap
  | [] => .ok h
  | [segment] =>
    match h[id]? with
    | some (.list items) => do
      match ← Path.index? segment with
      | some i => return if i < items.length then h.set! id (.list (items.set i new)) else h
      | none => return h
    | some (.object entries) => .ok (h.set! id (.object (Slot.setEntry entries segment new)))
    | none => .ok h
  | segment :: rest =>
    match h[id]? with
    | some (.list items) => do
      match ← Path.index? segment with
      | some i =>
        match items[i]? with
        | some (.node next) => assignAt h next new rest
        | some (.leaf _) =>
          let next := h.size
          assignAt ((h.push (.object [])).set! id (.list (items.set i (.node next)))) next new rest
        | none => return h
      | none => return h
    | some (.object entries) =>
      match entries.lookup segment with
      | some (.node next) => assignAt h next new rest
      | _ =>
        let next := h.size
        let entries := Slot.setEntry entries segment (.node next)
        assignAt ((h.push (.object [])).set! id (.object entries)) next new rest
    | none => .ok h

/-- Write at a path of the record under the node `id`. -/
def assign (h : Heap) (id : Nat) (path : String) (new : Slot) : Outcome Heap :=
  assignAt h id new (Path.segments path)

end Heap

end Pagewright
