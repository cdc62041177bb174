import Pagewright.Condition.Basic
import Pagewright.Proofs.Outcome
import Pagewright.Proofs.Text.Trim

/-!
# The grammar of conditions

    Or      := And ('||' And)*
    And     := Not ('&&' Not)*
    Not     := '!' Not | Atom
    Atom    := 'true' | 'false' | Compare | Value
    Compare := Value ('==' | '!=' | '>=' | '<=' | '>' | '<') Literal
    Value   := 'exists(' Path ')' | 'len(' Path ')' | Path

An expression is a tree of this grammar with its literals in quotes. It can be spelled with blanks around
all operators and signs (`Expression.Spells`), and it has a truth value in a data record
(`Expression.denote`), which says nothing of texts. Where every atom has a truth value, that of the
expression is the or of the ands of the clauses (`Expression.denote_eq`).
-/

namespace Pagewright.Condition.Grammar

open Pagewright.Text

/-! ## Trees -/

/-- A path as it stands in a condition. -/
structure PathText where
  chars : List Char
  ne_nil : chars ≠ []
  isPath : ∀ c ∈ chars, isPathChar c = true

/-- The path itself. -/
def PathText.path (p : PathText) : String := String.ofList p.chars

/-- What a condition looks up. -/
inductive Operand where
  | path (p : PathText)
  | isPresent (p : PathText)
  | length (p : PathText)

/-- The text of a call. -/
def PathText.call (p : PathText) (name : List Char) : List Char := name ++ ['('] ++ p.chars ++ [')']

/-- The text of an operand. -/
def Operand.chars : Operand → List Char
  | path p => p.chars
  | isPresent p => p.call "exists".toList
  | length p => p.call "len".toList

/-- A literal in quotes. It may hold quotes and signs, but no line break and no operator. -/
structure Literal where
  quote : Char
  content : List Char
  isQuote : quote = '"' ∨ quote = '\''
  oneLine : '\n' ∉ content
  noOr : ¬ ['|', '|'] <:+: content
  noAnd : ¬ ['&', '&'] <:+: content

/-- The text of a literal. -/
def Literal.chars (l : Literal) : List Char := l.quote :: (l.content ++ [l.quote])

/-- The signs of comparisons. -/
inductive Sign where
  | eq
  | ne
  | ge
  | le
  | gt
  | lt

/-- The text of a sign. -/
def Sign.chars : Sign → List Char
  | eq => "==".toList
  | ne => "!=".toList
  | ge => ">=".toList
  | le => "<=".toList
  | gt => ">".toList
  | lt => "<".toList

/-- The relation that a sign stands for. -/
def Sign.relation : Sign → Relation
  | eq => .eq
  | ne => .ne
  | ge => .ge
  | le => .le
  | gt => .gt
  | lt => .lt

/-- The smallest parts of an expression. A path that is a word for a truth value can only be compared. -/
inductive Atom where
  | constant (value : Bool)
  | test (operand : Operand) (noConstant : operand.chars ∉ ["true".toList, "false".toList])
  | compare (operand : Operand) (sign : Sign) (literal : Literal)

/-- An atom behind any number of negations. -/
inductive Clause where
  | atom (a : Atom)
  | not (c : Clause)

/-- Alternatives of conjunctions. -/
structure Expression where
  alternatives : List (List Clause)
  ne_nil : alternatives ≠ []
  clauses_ne_nil : ∀ clauses ∈ alternatives, clauses ≠ []

/-! ## Spellings -/

/-- A text that spells an atom. -/
def Atom.Spells : Atom → List Char → Prop
  | constant value, s => s = (if value then "true" else "false").toList
  | test operand _, s => s = operand.chars
  | compare operand sign literal, s => ∃ before after, IsGap before ∧ IsGap after ∧
      s = operand.chars ++ before ++ sign.chars ++ after ++ literal.chars

/-- A text that spells a clause. -/
inductive Clause.Spells : Clause → List Char → Prop where
  | atom {a : Atom} {s : List Char} (h : a.Spells s) : Spells (.atom a) s
  | not {c : Clause} {gap s : List Char} (hgap : IsGap gap) (h : c.Spells s) :
      Spells (.not c) ('!' :: (gap ++ s))

/-- A text that spells a clause with blanks around it. -/
def Clause.SpellsSpaced (c : Clause) (s : List Char) : Prop :=
  ∃ before inner after, IsGap before ∧ c.Spells inner ∧ IsGap after ∧ s = before ++ inner ++ after

/-- A text that spells an expression. -/
def Expression.Spells (e : Expression) (s : List Char) : Prop :=
  ∃ pieces : List (List (List Char)),
    List.Forall₂ (List.Forall₂ Clause.SpellsSpaced) e.alternatives pieces ∧
    s = join ['|', '|'] (pieces.map (join ['&', '&']))

/-! ## Meaning -/

/-- The value of an operand. -/
def Operand.denote (data : Value) : Operand → Outcome Value
  | path p => data.find p.path
  | isPresent p => do return .bool (← data.find p.path).isPresent
  | length p => do
    match ← data.find p.path with
    | .list items => return .int items.length
    | .text s => return .int s.length
    | _ => return .int 0

/-- The truth of an atom. -/
def Atom.denote (data : Value) : Atom → Outcome Bool
  | constant value => .ok value
  | test operand _ => do truth (← operand.denote data)
  | compare operand sign literal => do
    related sign.relation (← operand.denote data) (.text (String.ofList literal.content))

/-- The truth of a clause. -/
def Clause.denote (data : Value) : Clause → Outcome Bool
  | atom a => a.denote data
  | not c => do return !(← c.denote data)

/-- The truth of an expression. -/
def Expression.denote (data : Value) (e : Expression) : Outcome Bool :=
  e.alternatives.anyM fun clauses => clauses.allM fun c => c.denote data

/-- The atom of a clause. -/
def Clause.base : Clause → Atom
  | atom a => a
  | not c => c.base

/-- The truth of a clause when its atoms have truth values. -/
def Clause.holds (valuation : Atom → Bool) : Clause → Bool
  | atom a => valuation a
  | not c => !c.holds valuation

/-- The truth of an expression when its atoms have truth values. -/
def Expression.holds (valuation : Atom → Bool) (e : Expression) : Bool :=
  e.alternatives.any fun clauses => clauses.all fun c => c.holds valuation

variable {data : Value} {valuation : Atom → Bool}

theorem Clause.denote_eq {c : Clause} (h : c.base.denote data = .ok (valuation c.base)) :
    c.denote data = .ok (c.holds valuation) := by
  induction c with
  | atom a => exact h
  | not c ih =>
    rw [denote, ih h]
    rfl

/-- Where every atom has a truth value, an expression is the or of the ands of its clauses. -/
theorem Expression.denote_eq {e : Expression} (h : ∀ clauses ∈ e.alternatives, ∀ c ∈ clauses,
    c.base.denote data = .ok (valuation c.base)) : e.denote data = .ok (e.holds valuation) :=
  Outcome.anyM_eq_any fun clauses hclauses =>
    Outcome.allM_eq_all fun c hc => Clause.denote_eq (h clauses hclauses c hc)

end Pagewright.Condition.Grammar
