import Pagewright.Condition.Basic
import Pagewright.Log

/-!
# Reading conditions

The text of a condition is cut at `||`, then at `&&`, wherever these stand; blank pieces are dropped.
There is no grouping. Every text reads as a condition: what is malformed shows when it is evaluated,
and an element whose condition cannot be evaluated is shown.
-/

namespace Pagewright.Condition

open Pagewright.Text

/-- The pieces between the occurrences of an operator, trimmed, blank ones dropped. -/
def splitAt (operator : List Char) (s : List Char) : List (List Char) :=
  ((splitOn operator s).map trim).filter fun piece => !piece.isEmpty

/-- A text of two or more characters between quotes of the same kind, without them. -/
def unquoted? (s : List Char) : Option (List Char) :=
  match s with
  | [] => none
  | quote :: rest =>
    if (quote == '"' || quote == '\'') && rest.getLast? == some quote then some rest.dropLast
    else none

/-- The literal on the right of a comparison: a quoted text, a truth value, a number, or the bare
text. A number that is whole becomes a whole number. -/
def literalOf (raw : List Char) : Value :=
  let s := trim raw
  match unquoted? s with
  | some inner => .text (String.ofList inner)
  | none =>
    let word := String.ofList s
    if word == "true" then .bool true
    else if word == "false" then .bool false
    else
      match Numeral.float? s with
      | none => .text word
      | some x =>
        match Binary64.integer? x with
        | some n => .int n
        | none => .float x

/-- The relations that may stand at a place, the longer sign first, each with the text behind it. -/
def relationsAt : List Char → List (Relation × List Char)
  | '=' :: '=' :: rest => [(.eq, rest)]
  | '!' :: '=' :: rest => [(.ne, rest)]
  | '>' :: '=' :: rest => [(.ge, rest), (.gt, '=' :: rest)]
  | '<' :: '=' :: rest => [(.le, rest), (.lt, '=' :: rest)]
  | '>' :: rest => [(.gt, rest)]
  | '<' :: rest => [(.lt, rest)]
  | _ => []

/-- The literal behind a relation sign; there must be one, on one line. -/
def literalText? (s : List Char) : Option (List Char) :=
  let s := trimStart s
  if s.isEmpty || s.contains '\n' then none else some s

/-- A comparison at the first place of `rest`, blanks skipped, where one can stand. `left` holds the
text before, last character first. -/
def comparisonFrom (left : List Char) (rest : List Char) :
    Option (List Char × Relation × List Char) :=
  match (relationsAt (trimStart rest)).findSome? fun (relation, behind) =>
      (literalText? behind).map fun literal => (left.reverse, relation, literal) with
  | some found => some found
  | none =>
    match rest with
    | [] => none
    | c :: rest => if c == '\n' then none else comparisonFrom (c :: left) rest

/-- The two sides of a comparison. The left side has at least one character and no line break. -/
def comparison? (s : List Char) : Option (List Char × Relation × List Char) :=
  match s with
  | [] => none
  | c :: rest => if c == '\n' then none else comparisonFrom [c] rest

/-- The text between the brackets of a call. -/
def callOf? (name : List Char) (s : List Char) : Option (List Char) :=
  match (name ++ ['(']).isPrefixOf? s with
  | none => none
  | some rest =>
    let inner := rest.dropLast
    if rest.getLast? == some ')' && !inner.isEmpty && !inner.contains '\n' then some inner else none

/-- The operand that a text stands for. -/
def operandOf (raw : List Char) : Operand :=
  let s := trim raw
  match callOf? "exists".toList s with
  | some inner => .isPresent inner
  | none =>
    match callOf? "len".toList s with
    | some inner => .length inner
    | none => .path s

/-- The atom that a trimmed text stands for. -/
def atomOf (s : List Char) : Atom :=
  if s = "true".toList then .constant true
  else if s = "false".toList then .constant false
  else
    match comparison? s with
    | some (left, relation, literal) => .compare (operandOf left) relation (literalOf literal)
    | none => .test (operandOf s)

/-- The negations at the start of a text and the rest of it, trimmed at both ends. Blanks may stand
between the signs; those that stand before a character are skipped when it is reached. -/
def negationsOf (n : Nat) : List Char → Nat × List Char
  | [] => (n, [])
  | c :: rest =>
    if isBlank c then negationsOf n rest
    else if c == '!' then negationsOf (n + 1) rest
    else (n, trimEnd (c :: rest))

/-- The term that a text stands for. -/
def termOf (s : List Char) : Term :=
  let (n, rest) := negationsOf 0 s
  ⟨n, atomOf rest⟩

/-- The condition that a text stands for. -/
def ofChars (s : List Char) : Condition :=
  (splitAt ['|', '|'] s).map fun alternative => (splitAt ['&', '&'] alternative).map termOf

/-- The condition that a text stands for. -/
def ofText (s : String) : Condition := ofChars s.toList

/-- The truth of a condition given as text. -/
def evalText (s : String) (data : Value) : Outcome Bool := (ofText s).eval data

/-- Whether an element with this condition is shown. No condition, a blank one and one that cannot be
evaluated show it. -/
def shows (condition : Value) (data : Value) : Outcome Bool :=
  match condition with
  | .text s =>
    if isBlankText s then .ok true
    else
      match evalText s data with
      | .ok b => .ok b
      | .error _ => .ok true
  | v => if v.isGiven then undefinedOn (.wrongKind v) else .ok true

/-- What the log says about a condition that cannot be evaluated. -/
def complaint? (condition : Value) (data : Value) : Option String :=
  match condition with
  | .text s =>
    if isBlankText s then none
    else
      match evalText s data with
      | .ok _ => none
      | .error e =>
        some ("[template] visibleIf " ++ Text.quoted s ++ " failed (" ++ e.message ++
          "); treating as visible")
  | _ => none

/-- Whether an element with this condition is shown, with a message when it cannot be evaluated. -/
def showsLogged (condition : Value) (data : Value) : Logged Bool :=
  ⟨(complaint? condition data).toList.map fun text => ⟨some .debug, text⟩, shows condition data⟩

@[simp] theorem outcome_showsLogged (condition data : Value) :
    (showsLogged condition data).outcome = shows condition data := rfl

/-- The alternatives of a condition text. -/
def alternativesOf (condition : Value) : Outcome (List (List Char)) :=
  match condition with
  | .text s => .ok (splitAt ['|', '|'] s.toList)
  | v => if v.isGiven then undefinedOn (.wrongKind v) else .ok []

/-- Both conditions at once, written in the language itself: each alternative of the first joined with
each of the second. A side without alternatives adds nothing. -/
def conjoin (first second : Value) : Outcome String := do
  let firsts ← alternativesOf first
  let seconds ← alternativesOf second
  let joined :=
    if firsts.isEmpty then seconds
    else if seconds.isEmpty then firsts
    else firsts.flatMap fun a => seconds.map fun b => a ++ " && ".toList ++ b
  return String.ofList (Text.join " || ".toList joined)

end Pagewright.Condition
