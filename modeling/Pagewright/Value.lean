import Pagewright.Calendar.Date
import Pagewright.Number.Binary64

/-!
# Data values

A data record is a tree of null, booleans, whole numbers of any size, doubles, texts, lists and
objects with ordered keys. Dates and moments occur as values handed in by a caller; no document
contains one.
-/

namespace Pagewright

/-- A data value. The keys of an object are distinct and keep their order. -/
inductive Value where
  | null
  | bool (value : Bool)
  | int (value : Int)
  | float (value : Float)
  | text (value : String)
  | list (items : List Value)
  | object (entries : List (String × Value))
  | date (value : Date)
  | moment (value : DateTime)
  deriving Inhabited, Repr

/-- The entries of an object, in order. -/
abbrev Entries := List (String × Value)

namespace Entries

/-- The value under a key. -/
def find? (entries : Entries) (key : String) : Option Value := entries.lookup key

/-- The value under a key, null when there is none. -/
def get (entries : Entries) (key : String) : Value := (entries.lookup key).getD .null

/-- Whether a key is present. -/
def has (entries : Entries) (key : String) : Bool := entries.any fun e => e.1 == key

/-- Put a value under a key: in place when the key is present, else at the end. -/
def set : Entries → String → Value → Entries
  | [], key, value => [(key, value)]
  | (k, v) :: rest, key, value =>
    if k == key then (k, value) :: rest else (k, v) :: set rest key value

end Entries

namespace Value

/-- Whether a value counts as given: null, false, zero and everything empty do not. -/
def isGiven : Value → Bool
  | null => false
  | bool b => b
  | int n => n != 0
  | float x => x != 0
  | text s => !s.isEmpty
  | list items => !items.isEmpty
  | object entries => !entries.isEmpty
  | date _ => true
  | moment _ => true

/-- A value if it counts as given. -/
def given? (v : Value) : Option Value := if v.isGiven then some v else none

/-- A value, or another when it does not count as given. -/
def orElse (v fallback : Value) : Value := if v.isGiven then v else fallback

/-- Whether a value is null. -/
def isNull : Value → Bool
  | null => true
  | _ => false

/-- Whether a value is a list or an object. -/
def isContainer : Value → Bool
  | list _ => true
  | object _ => true
  | _ => false

/-- The text held by a value. -/
def text? : Value → Option String
  | text s => some s
  | _ => none

/-- The items of a list. -/
def list? : Value → Option (List Value)
  | list items => some items
  | _ => none

/-- The entries of an object. -/
def object? : Value → Option Entries
  | object entries => some entries
  | _ => none

/-- Whether a double equals a whole number. -/
def floatEqInt (x : Float) (n : Int) : Bool := Binary64.compareInt x n == some .eq

/-- A boolean as a number. -/
def bit (b : Bool) : Int := if b then 1 else 0

mutual

/-- Equality by meaning: numbers compare by exact value whatever their form, booleans as 0 and 1,
objects without regard to the order of their keys. -/
def same : Value → Value → Bool
  | null, null => true
  | bool a, bool b => a == b
  | bool a, int b => bit a == b
  | bool a, float b => floatEqInt b (bit a)
  | int a, bool b => a == bit b
  | int a, int b => a == b
  | int a, float b => floatEqInt b a
  | float a, bool b => floatEqInt a (bit b)
  | float a, int b => floatEqInt a b
  | float a, float b => a == b
  | text a, text b => a == b
  | list a, list b => sameItems a b
  | object a, object b => a.length == b.length && sameEntries a b
  | date a, date b => a == b
  | moment a, moment b => a == b
  | _, _ => false

/-- Equality of lists, item by item. -/
def sameItems : List Value → List Value → Bool
  | [], [] => true
  | a :: as, b :: bs => same a b && sameItems as bs
  | _, _ => false

/-- Whether every entry has an equal one under the same key in `other`. -/
def sameEntries : List (String × Value) → List (String × Value) → Bool
  | [], _ => true
  | (k, v) :: rest, other =>
    (match other.lookup k with
     | some w => same v w
     | none => false) && sameEntries rest other

end

end Value

end Pagewright
