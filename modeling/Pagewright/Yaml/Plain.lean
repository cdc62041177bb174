import Pagewright.Number.Reader
import Pagewright.Value

/-!
# Unquoted scalars

What an unquoted scalar of a YAML document stands for: a word for nothing or for a truth value, a
whole number in base two, eight, ten, sixteen or sixty, a double, or else its own text. Underscores
may stand between the digits of a number. Dates are left as texts.
-/

namespace Pagewright.Yaml

open Pagewright

/-- What is wrong with a document. -/
inductive Fault where
  | unexpected
  | openQuote
  | escape
  | noCharacter
  | surrogate
  | duplicateKey (key : String)
  | badKey
  | badNumber
  | badLayout
  deriving Repr, DecidableEq

/-- The wording of a fault. -/
def Fault.message : Fault → String
  | unexpected => "unexpected character"
  | openQuote => "unexpected end of a quoted scalar"
  | escape => "unknown escape character"
  | noCharacter => "chr() arg not in range(0x110000)"
  | surrogate => "surrogate in an escape"
  | duplicateKey key => "found duplicate key " ++ key
  | badKey => "found unacceptable key"
  | badNumber => "invalid number"
  | badLayout => "mapping values are not allowed here"

namespace Plain

/-- The words that are no texts. -/
def words : List (String × Value) :=
  (["", "~", "null", "Null", "NULL"].map fun w => (w, Value.null)) ++
  (["yes", "Yes", "YES", "true", "True", "TRUE", "on", "On", "ON"].map fun w => (w, Value.bool true)) ++
  (["no", "No", "NO", "false", "False", "FALSE", "off", "Off", "OFF"].map fun w => (w, Value.bool false)) ++
  ([".inf", ".Inf", ".INF", "+.inf", "+.Inf", "+.INF"].map fun w => (w, Value.float Binary64.infinity)) ++
  (["-.inf", "-.Inf", "-.INF"].map fun w => (w, Value.float (-Binary64.infinity))) ++
  ([".nan", ".NaN", ".NAN"].map fun w => (w, Value.float Binary64.nan))

/-- The value of a digit of a base up to sixteen. -/
def digitValue? (base : Nat) (c : Char) : Option Nat :=
  let n :=
    if c.isDigit then c.toNat - 48
    else if 'a' ≤ c && c ≤ 'f' then c.toNat - 87
    else if 'A' ≤ c && c ≤ 'F' then c.toNat - 55
    else base
  if n < base then some n else none

/-- A digit of a base, or an underscore between digits. -/
def isDigitOf (base : Nat) (c : Char) : Bool := c == '_' || (digitValue? base c).isSome

/-- The number that the digits of a base spell; there must be one. -/
def ofBase? (base : Nat) (s : List Char) : Option Nat :=
  let ds := s.filterMap (digitValue? base)
  if ds.isEmpty || (base == 10 && ds.length > Numeral.digitLimit) then none
  else some (ds.foldl (fun n d => base * n + d) 0)

/-- One part of a number in base sixty after the first: one or two digits below sixty. -/
def isSixtieth : List Char → Bool
  | [a] => a.isDigit
  | [a, b] => '0' ≤ a && a ≤ '5' && b.isDigit
  | _ => false

/-- A whole number without sign; the outer option says whether the text is one at all. -/
def natural? (s : List Char) : Option (Option Nat) :=
  match s with
  | '0' :: 'b' :: rest =>
    if !rest.isEmpty && rest.all (isDigitOf 2) then some (ofBase? 2 rest) else none
  | '0' :: 'x' :: rest =>
    if !rest.isEmpty && rest.all (isDigitOf 16) then some (ofBase? 16 rest) else none
  | '0' :: rest => if rest.all (isDigitOf 8) then some (ofBase? 8 s) else none
  | c :: _ =>
    match Text.splitOn [':'] s with
    | first :: rest =>
      if c.isDigit && first.all (isDigitOf 10) && rest.all isSixtieth then
        some ((first :: rest).foldl (fun n part => do
          let n ← n
          let d ← ofBase? 10 part
          return 60 * n + d) (some 0))
      else none
    | [] => none
  | [] => none

/-- The exponent of a double: its letter, a sign and digits. -/
def isExponent (signed : Bool) : List Char → Bool
  | c :: rest =>
    let digits := (Numeral.signOf rest).2
    (c == 'e' || c == 'E') && !digits.isEmpty && digits.all Char.isDigit &&
      (!signed || digits.length < rest.length)
  | [] => false

/-- A double in base ten. Without digits before the point it has no sign, and its exponent has one. -/
def isDouble (signed : Bool) (s : List Char) : Bool :=
  let whole := s.takeWhile (isDigitOf 10)
  let rest := s.drop whole.length
  if whole.head?.any Char.isDigit then
    match rest with
    | '.' :: rest =>
      let rest := rest.dropWhile (isDigitOf 10)
      rest.isEmpty || isExponent false rest
    | rest => isExponent false rest
  else
    match s with
    | '.' :: rest =>
      let fraction := rest.takeWhile (isDigitOf 10)
      let rest := rest.drop fraction.length
      !signed && !fraction.isEmpty && (rest.isEmpty || isExponent true rest)
    | _ => false

/-- The value of an unquoted scalar. -/
def value (s : List Char) : Except Fault Value :=
  let (negative, body) := Numeral.signOf s
  let signed := body.length < s.length
  match words.lookup (String.ofList s) with
  | some v => .ok v
  | none =>
    if isDouble signed body then
      match Numeral.float? (s.filter (· != '_')) with
      | some x => .ok (.float x)
      | none => .error .badNumber
    else
      match natural? body with
      | some (some n) => .ok (.int (if negative then -(n : Int) else n))
      | some none => .error .badNumber
      | none => .ok (.text (String.ofList s))

end Plain

end Pagewright.Yaml
