import Pagewright.Record.Path

/-!
# Conditions

A condition decides whether an element is shown: alternatives (`||`) of conjunctions (`&&`) of terms,
a term being an atom behind any number of `!`. An atom is a word for a truth value, a comparison of an
operand with a literal, or an operand alone. An operand is a path, `exists(path)` or `len(path)`; it
keeps the text that should be a path, and evaluation fails where that text is none.

Evaluation goes from left to right and no further than it must, so what follows a decided alternative
or conjunction may be malformed.
-/

namespace Pagewright

open Pagewright.Text

namespace Condition

/-- How a comparison relates its sides. `unknown` relates nothing. -/
inductive Relation where
  | eq
  | ne
  | gt
  | lt
  | ge
  | le
  | unknown
  deriving Repr, DecidableEq

/-- What a condition looks up. -/
inductive Operand where
  | path (text : List Char)
  | isPresent (text : List Char)
  | length (text : List Char)
  deriving Repr, DecidableEq

/-- The smallest parts of a condition. -/
inductive Atom where
  | constant (value : Bool)
  | compare (operand : Operand) (relation : Relation) (literal : Value)
  | test (operand : Operand)
  deriving Repr

/-- An atom behind a number of negations. -/
structure Term where
  negations : Nat
  atom : Atom
  deriving Repr

end Condition

/-- A condition as alternatives of conjunctions. -/
abbrev Condition := List (List Condition.Term)

namespace Condition

/-- Characters that a path in a condition may have. -/
def isPathChar (c : Char) : Bool := !(isBlank c || "()!=<>&|'\"".toList.contains c)

/-- The path that a text stands for. -/
def pathOf (text : List Char) : Outcome String :=
  let path := trim text
  if path.isEmpty || !path.all isPathChar then .error (.malformedCondition (String.ofList text))
  else .ok (String.ofList path)

/-- The value of an operand. -/
def Operand.eval (data : Value) : Operand → Outcome Value
  | path text => do data.find (← pathOf text)
  | isPresent text => do return .bool (← data.find (← pathOf text)).isPresent
  | length text => do
    match ← data.find (← pathOf text) with
    | .list items => return .int items.length
    | .text s => return .int s.length
    | _ => return .int 0

/-- A value as a number to be ordered by. Null, booleans, NaN and whatever is no numeral have none. -/
def numberOf : Value → Outcome (Option Float)
  | .int n =>
    match Binary64.ofInt? n with
    | some x => .ok (some x)
    | none => undefinedOn .numberTooLarge
  | .float x => .ok (if Binary64.isNaN x then none else some x)
  | .text s => .ok ((Numeral.float? s.toList).filter fun x => !Binary64.isNaN x)
  | _ => .ok none

/-- Whether a value is a boolean. -/
def isBool : Value → Bool
  | .bool _ => true
  | _ => false

/-- Whether a value is a text. -/
def isText : Value → Bool
  | .text _ => true
  | _ => false

/-- Equality that keeps booleans and texts apart from all else. -/
def equal (left right : Value) : Bool :=
  isBool left == isBool right && isText left == isText right && left.same right

/-- Whether two ordered things stand in a relation. -/
def Relation.holds [LT α] [LE α] [DecidableLT α] [DecidableLE α] (relation : Relation)
    (a b : α) : Bool :=
  match relation with
  | gt => a > b
  | lt => a < b
  | ge => a ≥ b
  | le => a ≤ b
  | _ => false

/-- Whether two values stand in a relation. Two texts are ordered as texts, all else as numbers; where
a side has no number, no order holds. -/
def related (relation : Relation) (left right : Value) : Outcome Bool :=
  match relation with
  | .eq => .ok (equal left right)
  | .ne => .ok (!equal left right)
  | relation =>
    match left, right with
    | .text a, .text b => .ok (relation.holds a b)
    | left, right => do
      let a ← numberOf left
      let b ← numberOf right
      match a, b with
      | some a, some b => return relation.holds a b
      | _, _ => return false

/-- Whether an operand alone counts as true: null, false, zero, NaN and the empty text do not. A number
is asked as a double, so one beyond their range has no answer. -/
def truth : Value → Outcome Bool
  | .null => .ok false
  | .bool b => .ok b
  | .text s => .ok (!s.isEmpty)
  | .int n => if (Binary64.ofInt? n).isSome then .ok (n != 0) else undefinedOn .numberTooLarge
  | .float x => .ok (x != 0 && !Binary64.isNaN x)
  | _ => .ok true

/-- The truth of an atom. -/
def Atom.eval (data : Value) : Atom → Outcome Bool
  | constant value => .ok value
  | compare operand relation literal => do related relation (← operand.eval data) literal
  | test operand => do truth (← operand.eval data)

/-- A truth value after a number of negations. -/
def negated (n : Nat) (b : Bool) : Bool := if n % 2 = 0 then b else !b

/-- The truth of a term. -/
def Term.eval (data : Value) (t : Term) : Outcome Bool := do
  return negated t.negations (← t.atom.eval data)

/-- The truth of a conjunction, decided by its first false term. -/
def evalAll (data : Value) : List Term → Outcome Bool
  | [] => .ok true
  | t :: rest => do
    if ← t.eval data then evalAll data rest else return false

/-- The truth of alternatives, decided by the first true one. -/
def evalAny (data : Value) : List (List Term) → Outcome Bool
  | [] => .ok false
  | ts :: rest => do
    if ← evalAll data ts then return true else evalAny data rest

/-- The truth of a condition; one without alternatives is true. -/
def eval (data : Value) (c : Condition) : Outcome Bool :=
  match c with
  | [] => .ok true
  | c => evalAny data c

end Condition

end Pagewright
