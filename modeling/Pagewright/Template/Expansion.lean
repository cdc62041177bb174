import Pagewright.Condition.Reader
import Pagewright.Log
import Pagewright.Template.Basic

/-!
# Partials

An inclusion stands for the elements of a partial. `Template.expand` puts copies of them in its place,
one level deep: an inclusion inside a partial is carried along and shows nothing. Partials that include
each other in a circle are refused; `Template.findCycle` looks for a circle from every partial in turn,
depth first, taking the references of a partial in their order.
-/

namespace Pagewright

namespace Template

/-- The references of the inclusions among elements, empty ones left out. -/
def references (elements : List Element) : List Value :=
  (elements.filterMap (·.content.inclusion?)).filter Value.isGiven

/-- The part of a chain from the first occurrence of a name. -/
def chainFrom (chain : List String) (name : String) : List String := chain.dropWhile (· != name)

/-- Where a search for a circle stands: it is found, or these partials are known to lead to none. -/
inductive Search where
  | circle (names : List String)
  | clear (finished : List String)
  deriving Repr

mutual

/-- Look for a circle from the partial that a reference names. `chain` is the way there, from the first
partial on; it has no repetition, so `depth`, the number of partials not on it, bounds the search. -/
def visit (t : Template) (depth : Nat) (chain finished : List String) (ref : Value) :
    Outcome Search :=
  match ref with
  | .text name =>
    if chain.contains name then .ok (.circle (chainFrom chain name ++ [name]))
    else if finished.contains name then .ok (.clear finished)
    else
      match t.partials.lookup name, depth with
      | some elements, depth + 1 => do
        match ← visitAll t depth (chain ++ [name]) finished (references elements) with
        | .circle names => return .circle names
        | .clear finished => return .clear (name :: finished)
      | _, _ => .ok (.clear finished)
  | v => if v.isContainer then undefinedOn (.notAKey v) else .ok (.clear finished)
termination_by (depth, 0)

/-- Look for a circle from each reference in turn. -/
def visitAll (t : Template) (depth : Nat) (chain finished : List String) (refs : List Value) :
    Outcome Search :=
  match refs with
  | [] => .ok (.clear finished)
  | ref :: rest => do
    match ← visit t depth chain finished ref with
    | .circle names => return .circle names
    | .clear finished => visitAll t depth chain finished rest
termination_by (depth, refs.length + 1)

end

/-- A circle of partials, its first name repeated at the end. -/
def findCycle (t : Template) : Outcome (Option (List String)) := do
  match ← visitAll t t.partials.length [] [] (t.partials.map fun p => .text p.1) with
  | .circle names => return some names
  | .clear _ => return none

/-- An element of a partial as an inclusion shows it: moved by the inclusion's place, named after it,
in its region unless it has one, and shown only if the inclusion is. -/
def cloneChild (inclusion child : Element) : Outcome Element := do
  let condition ← Condition.conjoin inclusion.visibleIf child.visibleIf
  return { child with
    id := inclusion.id ++ "__" ++ child.id
    x := child.x + inclusion.x
    y := child.y + inclusion.y
    region := child.region.orElse inclusion.region
    visibleIf := (Value.text condition).orElse .null }

/-- The elements that stand for one element. -/
def expandElement (t : Template) (e : Element) : Outcome (List Element) :=
  match e.content.inclusion? with
  | none => .ok [e]
  | some ref => do
    match ← t.partial? ref with
    | some children => children.mapM (cloneChild e)
    | none => return []

/-- What the log says about an inclusion of an unknown partial. -/
def unknownPartial? (t : Template) (e : Element) : Option String :=
  match e.content.inclusion? with
  | none => none
  | some ref =>
    match t.partial? ref with
    | .ok none =>
      some ("[template] Include '" ++ e.id ++ "' references unknown partial '" ++ ref.display ++ "'")
    | _ => none

/-- The elements of a template with its inclusions replaced. -/
def expand (t : Template) : Outcome (List Element) := do
  match ← t.findCycle with
  | some cycle => .error (.cyclicPartials cycle)
  | none => return (← t.elements.mapM t.expandElement).flatten

/-- The elements of a template with its inclusions replaced, with a message for each unknown partial
that was met. -/
def expandLogged (t : Template) : Logged (List Element) := do
  match ← liftM t.findCycle with
  | some cycle => throw (.cyclicPartials cycle)
  | none =>
    let parts ← t.elements.mapM fun e => do
      (unknownPartial? t e).forM (Logged.say .debug)
      liftM (t.expandElement e)
    return parts.flatten

end Template

end Pagewright
