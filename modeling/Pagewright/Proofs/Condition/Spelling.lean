import Mathlib.Data.List.Infix
import Pagewright.Proofs.Condition.Conjunction
import Pagewright.Proofs.Condition.Grammar
import Pagewright.Proofs.Outcome

/-!
# Reading spelled conditions

A text that spells an expression of the grammar is read as that expression, so it has its truth value
(`evalText_of_spells`). Reading goes by operators alone, from the outside to the inside, and finds each of
them where the spelling has put it:

1. operands have no character of a sign or operator in them and literals are closed by their quotes, so no
   operator arises inside a clause (`Clause.clear_of_spells`);
2. the first place where a comparison can be read is behind the operand (`comparison?_operand`);
3. a clause is read as its atom and the number of its negations (`Clause.termOf_of_spells`);
4. clauses and alternatives are the pieces of the text (`termsOf_join`, `ofChars_of_spells`).
-/

namespace Pagewright.Condition.Grammar

open Pagewright.Text

variable {c : Char} {s : List Char} {data : Value}

/-! ## Operands -/

/-- Characters of paths and calls: no blanks, and none of a sign, an operator or a quote. -/
def isOperandChar (c : Char) : Bool :=
  !(isBlank c || ['!', '=', '<', '>', '&', '|', '\'', '"'].contains c)

theorem not_isBlank_of_isOperandChar (h : isOperandChar c = true) : isBlank c = false := by
  simp only [isOperandChar, Bool.not_or, Bool.and_eq_true, Bool.not_eq_true'] at h
  exact h.1

theorem not_mem_of_isOperandChar (h : isOperandChar c = true) :
    c ∉ ['!', '=', '<', '>', '&', '|', '\'', '"'] := by
  simp only [isOperandChar, Bool.not_or, Bool.and_eq_true, Bool.not_eq_true'] at h
  simpa using h.2

theorem not_isBlank_of_isPathChar (h : isPathChar c = true) : isBlank c = false := by
  simp only [isPathChar, Bool.not_or, Bool.and_eq_true, Bool.not_eq_true'] at h
  exact h.1

theorem not_mem_of_isPathChar (h : isPathChar c = true) :
    c ∉ ['(', ')', '!', '=', '<', '>', '&', '|', '\'', '"'] := by
  simp only [isPathChar, Bool.not_or, Bool.and_eq_true, Bool.not_eq_true'] at h
  simpa using h.2

theorem isOperandChar_of_isPathChar (h : isPathChar c = true) : isOperandChar c = true := by
  have hsign : c ∉ ['!', '=', '<', '>', '&', '|', '\'', '"'] := fun hmem =>
    not_mem_of_isPathChar h (List.mem_cons_of_mem _ (List.mem_cons_of_mem _ hmem))
  simp only [isOperandChar, Bool.not_or, Bool.and_eq_true, Bool.not_eq_true']
  exact ⟨not_isBlank_of_isPathChar h, by simpa using hsign⟩

theorem PathText.tight (p : PathText) : Tight p.chars :=
  tight_of_forall p.ne_nil fun c hc => not_isBlank_of_isPathChar (p.isPath c hc)

theorem PathText.bracket_not_mem (p : PathText) : '(' ∉ p.chars := fun h =>
  not_mem_of_isPathChar (p.isPath _ h) (by simp)

theorem PathText.newline_not_mem (p : PathText) : '\n' ∉ p.chars := fun h =>
  absurd (not_isBlank_of_isPathChar (p.isPath _ h)) (by decide)

theorem PathText.isOperandChar_of_mem_call (p : PathText) {name : List Char}
    (hname : name.all isOperandChar = true) : ∀ c ∈ p.call name, isOperandChar c = true := by
  intro c hc
  simp only [call, List.mem_append, List.mem_singleton] at hc
  rcases hc with ((hc | rfl) | hc) | rfl
  · exact List.all_eq_true.mp hname c hc
  · decide
  · exact isOperandChar_of_isPathChar (p.isPath c hc)
  · decide

theorem Operand.isOperandChar_of_mem (v : Operand) : ∀ c ∈ v.chars, isOperandChar c = true := by
  cases v with
  | path p => exact fun c hc => isOperandChar_of_isPathChar (p.isPath c hc)
  | isPresent p => exact p.isOperandChar_of_mem_call (by decide)
  | length p => exact p.isOperandChar_of_mem_call (by decide)

theorem Operand.chars_ne_nil (v : Operand) : v.chars ≠ [] := by
  cases v with
  | path p => exact p.ne_nil
  | isPresent p => simp [chars, PathText.call]
  | length p => simp [chars, PathText.call]

theorem Operand.tight (v : Operand) : Tight v.chars :=
  tight_of_forall v.chars_ne_nil fun c hc => not_isBlank_of_isOperandChar (v.isOperandChar_of_mem c hc)

theorem Operand.not_mem (v : Operand) (h : c ∈ ['!', '=', '<', '>', '&', '|', '\'', '"']) : c ∉ v.chars :=
  fun hc => not_mem_of_isOperandChar (v.isOperandChar_of_mem c hc) h

/-- What an operand of the grammar is read as. -/
def Operand.read : Operand → Condition.Operand
  | path p => .path p.chars
  | isPresent p => .isPresent p.chars
  | length p => .length p.chars

theorem callOf?_of_not_mem {name : List Char} (h : '(' ∉ s) : callOf? name s = none := by
  have hahead : (name ++ ['(']).isPrefixOf? s = none := by
    cases hrest : (name ++ ['(']).isPrefixOf? s with
    | none => rfl
    | some rest =>
      rw [List.isPrefixOf?_eq_some_iff_append_eq] at hrest
      exact absurd (by simp [← hrest]) h
  rw [callOf?, hahead]

theorem callOf?_call (name : List Char) (p : PathText) : callOf? name (p.call name) = some p.chars := by
  have hahead : (name ++ ['(']).isPrefixOf? (p.call name) = some (p.chars ++ [')']) := by
    rw [List.isPrefixOf?_eq_some_iff_append_eq, PathText.call, ← List.append_assoc]
  rw [callOf?, hahead]
  simp [p.ne_nil, p.newline_not_mem]

theorem callOf?_exists_call_len (p : PathText) :
    callOf? "exists".toList (p.call "len".toList) = none := by
  simp [callOf?, PathText.call, List.isPrefixOf?]

theorem operandOf_chars (v : Operand) : operandOf v.chars = v.read := by
  unfold operandOf
  rw [v.tight.trim_eq]
  cases v with
  | path p =>
    simp only [Operand.chars, callOf?_of_not_mem p.bracket_not_mem]
    rfl
  | isPresent p =>
    simp only [Operand.chars, callOf?_call]
    rfl
  | length p =>
    simp only [Operand.chars, callOf?_exists_call_len, callOf?_call]
    rfl

theorem pathOf_chars (p : PathText) : pathOf p.chars = .ok p.path := by
  have hempty : p.chars.isEmpty = false := by simpa using p.ne_nil
  have hall : p.chars.all isPathChar = true := List.all_eq_true.mpr p.isPath
  simp [pathOf, p.tight.trim_eq, hempty, hall, PathText.path]

theorem eval_read (v : Operand) (data : Value) : v.read.eval data = v.denote data := by
  cases v with
  | path p => rw [Operand.read, Condition.Operand.eval, pathOf_chars, Operand.denote, Outcome.ok_bind]
  | isPresent p => rw [Operand.read, Condition.Operand.eval, pathOf_chars, Operand.denote, Outcome.ok_bind]
  | length p =>
    rw [Operand.read, Condition.Operand.eval, pathOf_chars]
    change (data.find p.path >>= _) = (data.find p.path >>= _)
    refine bind_congr fun v => ?_
    cases v <;> rfl

/-! ## Literals -/

theorem Literal.not_isBlank_quote (l : Literal) : isBlank l.quote = false := by
  rcases l.isQuote with h | h <;> rw [h] <;> decide

theorem Literal.tight (l : Literal) : Tight l.chars where
  ne_nil := List.cons_ne_nil _ _
  head c hc := by
    obtain rfl : l.quote = c := by simpa [chars] using hc
    exact l.not_isBlank_quote
  last c hc := by
    obtain rfl : l.quote = c := by
      rw [chars, ← List.cons_append, List.getLast?_append] at hc
      simpa using hc
    exact l.not_isBlank_quote

theorem Literal.clear (l : Literal) (hc : c = '|' ∨ c = '&') : Clear c l.chars := by
  have hcontent : ¬ [c, c] <:+: l.content := by
    rcases hc with rfl | rfl
    · exact l.noOr
    · exact l.noAnd
  have hquote : l.quote ≠ c := by
    rcases l.isQuote with h | h <;> rcases hc with rfl | rfl <;> rw [h] <;> decide
  have hsplit : l.chars = [l.quote] ++ l.content ++ [l.quote] := rfl
  have hsingle : ¬ [c, c] <:+: [l.quote] := fun h => by simpa using h.length_le
  refine ⟨?_, by simpa [chars] using hquote, ?_⟩
  · rw [hsplit, operator_infix_append_iff, operator_infix_append_iff]
    rintro ((h | h | ⟨h, -⟩) | h | ⟨-, h⟩)
    · exact hsingle h
    · exact hcontent h
    · exact hquote (by simpa using h)
    · exact hsingle h
    · exact hquote (by simpa using h)
  · rw [hsplit, List.getLast?_append]
    simpa using hquote

theorem Literal.newline_not_mem (l : Literal) : '\n' ∉ l.chars := by
  have hquote : '\n' ≠ l.quote := by
    rcases l.isQuote with h | h <;> rw [h] <;> decide
  simp [chars, hquote, l.oneLine]

theorem literalOf_chars (l : Literal) : literalOf l.chars = .text (String.ofList l.content) := by
  have hquote : (l.quote == '"' || l.quote == '\'') = true := by
    rcases l.isQuote with h | h <;> rw [h] <;> decide
  have hinner : unquoted? l.chars = some l.content := by
    simp only [Literal.chars, unquoted?, hquote, List.getLast?_append, List.dropLast_concat]
    simp
  unfold literalOf
  simp only [l.tight.trim_eq, hinner]

theorem literalText?_of_tight {gap : List Char} (hgap : IsGap gap) (hs : Tight s) (hline : '\n' ∉ s) :
    literalText? (gap ++ s) = some s := by
  unfold literalText?
  rw [trimStart_gap_append hgap, trimStart_eq_self hs.head]
  simp [hs.ne_nil, hline]

/-! ## Comparisons -/

theorem relationsAt_of_isOperandChar (h : isOperandChar c = true) (s : List Char) :
    relationsAt (c :: s) = [] := by
  have hne : c ≠ '=' ∧ c ≠ '!' ∧ c ≠ '>' ∧ c ≠ '<' := by
    refine ⟨?_, ?_, ?_, ?_⟩ <;> (rintro rfl; exact absurd h (by decide))
  unfold relationsAt
  split <;> simp_all

/-- No comparison starts inside an operand. -/
theorem comparisonFrom_operand {rest : List Char} (h : ∀ c ∈ rest, isOperandChar c = true)
    (left behind : List Char) :
    comparisonFrom left (rest ++ behind) = comparisonFrom (rest.reverse ++ left) behind := by
  induction rest generalizing left with
  | nil => rfl
  | cons c rest ih =>
    have hc : isOperandChar c = true := h c (by simp)
    have htrim : trimStart (c :: (rest ++ behind)) = c :: (rest ++ behind) :=
      trimStart_eq_self fun x hx => by
        obtain rfl : c = x := by simpa using hx
        exact not_isBlank_of_isOperandChar hc
    have hbreak : (c == '\n') = false := by
      rw [beq_eq_false_iff_ne]
      rintro rfl
      exact absurd hc (by decide)
    rw [List.cons_append, comparisonFrom, htrim, relationsAt_of_isOperandChar hc]
    simp only [List.findSome?_nil, hbreak, Bool.false_eq_true, if_false]
    rw [ih (fun x hx => h x (List.mem_cons_of_mem _ hx)), List.reverse_cons, List.append_assoc]
    rfl

theorem comparison?_operand (v : Operand) (behind : List Char) :
    comparison? (v.chars ++ behind) = comparisonFrom v.chars.reverse behind := by
  obtain ⟨c, rest, hchars⟩ := List.exists_cons_of_ne_nil v.chars_ne_nil
  have hall : ∀ x ∈ c :: rest, isOperandChar x = true := hchars ▸ v.isOperandChar_of_mem
  have hbreak : (c == '\n') = false := by
    rw [beq_eq_false_iff_ne]
    rintro rfl
    exact absurd (hall '\n' (by simp)) (by decide)
  rw [hchars, List.cons_append, comparison?, hbreak, if_neg (by simp),
    comparisonFrom_operand (fun x hx => hall x (List.mem_cons_of_mem _ hx)), List.reverse_cons]

theorem Sign.head_not_isBlank (sign : Sign) (s : List Char) :
    ∀ c ∈ (sign.chars ++ s).head?, isBlank c = false := by
  cases sign <;> simp [chars] <;> decide

/-- The sign of a comparison is read first; a shorter sign in it comes later. -/
theorem relationsAt_sign (sign : Sign) {x : Char} (hx : x ≠ '=') (s : List Char) :
    ∃ others, relationsAt (sign.chars ++ x :: s) = (sign.relation, x :: s) :: others := by
  cases sign with
  | gt =>
    refine ⟨[], ?_⟩
    simp [Sign.chars, Sign.relation, relationsAt, hx]
  | lt =>
    refine ⟨[], ?_⟩
    simp [Sign.chars, Sign.relation, relationsAt, hx]
  | eq => exact ⟨_, rfl⟩
  | ne => exact ⟨_, rfl⟩
  | ge => exact ⟨_, rfl⟩
  | le => exact ⟨_, rfl⟩

/-- What is behind the sign is the literal, unless it makes the sign longer. -/
theorem comparison?_of_tight (v : Operand) {before after : List Char} (hbefore : IsGap before)
    (sign : Sign) (hafter : IsGap after) (hs : Tight s) (hline : '\n' ∉ s) (hhead : s.head? ≠ some '=') :
    comparison? (v.chars ++ before ++ sign.chars ++ after ++ s) = some (v.chars, sign.relation, s) := by
  have hliteral : ∃ x rest, after ++ s = x :: rest ∧ x ≠ '=' := by
    cases after with
    | nil =>
      obtain ⟨x, rest, rfl⟩ := List.exists_cons_of_ne_nil hs.ne_nil
      exact ⟨x, rest, rfl, by simpa using hhead⟩
    | cons x after =>
      refine ⟨x, _, rfl, ?_⟩
      rintro rfl
      exact absurd (hafter '=' (by simp)) (by decide)
  obtain ⟨x, rest, hx, hne⟩ := hliteral
  obtain ⟨others, hrelations⟩ := relationsAt_sign sign hne rest
  have hsign : trimStart (before ++ (sign.chars ++ x :: rest)) = sign.chars ++ x :: rest := by
    rw [trimStart_gap_append hbefore]
    exact trimStart_eq_self (sign.head_not_isBlank _)
  have htext : v.chars ++ before ++ sign.chars ++ after ++ s =
      v.chars ++ (before ++ (sign.chars ++ x :: rest)) := by
    rw [← hx]
    simp only [List.append_assoc]
  rw [htext, comparison?_operand, comparisonFrom.eq_def, hsign, hrelations, ← hx]
  simp [literalText?_of_tight hafter hs hline]

theorem comparison?_spelled (v : Operand) {before after : List Char} (hbefore : IsGap before)
    (sign : Sign) (hafter : IsGap after) (l : Literal) :
    comparison? (v.chars ++ before ++ sign.chars ++ after ++ l.chars) =
      some (v.chars, sign.relation, l.chars) := by
  refine comparison?_of_tight v hbefore sign hafter l.tight l.newline_not_mem ?_
  rcases l.isQuote with h | h <;> simp [Literal.chars, h]

theorem comparison?_chars (v : Operand) : comparison? v.chars = none := by
  have hnone := comparison?_operand v []
  rw [List.append_nil] at hnone
  rw [hnone]
  rfl

/-! ## Atoms -/

/-- What an atom of the grammar is read as. -/
def Atom.read : Atom → Condition.Atom
  | constant value => .constant value
  | test operand _ => .test operand.read
  | compare operand sign literal =>
    .compare operand.read sign.relation (.text (String.ofList literal.content))

theorem Atom.eval_read (a : Atom) (data : Value) : a.read.eval data = a.denote data := by
  cases a with
  | constant value => rfl
  | test operand _ => rw [read, Condition.Atom.eval, Grammar.eval_read, denote]
  | compare operand sign literal => rw [read, Condition.Atom.eval, Grammar.eval_read, denote]

theorem Sign.not_mem (sign : Sign) (hc : c = '|' ∨ c = '&') : c ∉ sign.chars := by
  rcases hc with rfl | rfl <;> cases sign <;> decide

theorem not_isBlank_of_isOperator (hc : c = '|' ∨ c = '&') : isBlank c = false := by
  rcases hc with rfl | rfl <;> decide

theorem clear_of_isGap {g : List Char} (hc : c = '|' ∨ c = '&') (hg : IsGap g) : Clear c g :=
  clear_of_not_mem (not_mem_of_isGap (not_isBlank_of_isOperator hc) hg)

theorem Operand.clear (v : Operand) (hc : c = '|' ∨ c = '&') : Clear c v.chars :=
  clear_of_not_mem (v.not_mem (by rcases hc with rfl | rfl <;> decide))

theorem Atom.tight_of_spells {a : Atom} (h : a.Spells s) : Tight s := by
  cases a with
  | constant value =>
    obtain rfl := h
    have hblank : ((if value then "true" else "false").toList.all fun c => !isBlank c) = true := by
      cases value <;> decide
    refine tight_of_forall (by cases value <;> decide) fun c hc => ?_
    simpa using List.all_eq_true.mp hblank c hc
  | test operand _ =>
    obtain rfl := h
    exact operand.tight
  | compare operand sign literal =>
    obtain ⟨before, after, -, -, rfl⟩ := h
    have htight := operand.tight.append literal.tight (before ++ sign.chars ++ after)
    simpa only [List.append_assoc] using htight

theorem Atom.clear_of_spells {a : Atom} (h : a.Spells s) (hc : c = '|' ∨ c = '&') : Clear c s := by
  cases a with
  | constant value =>
    obtain rfl := h
    rcases hc with rfl | rfl <;> cases value <;> exact clear_of_not_mem (by decide)
  | test operand _ =>
    obtain rfl := h
    exact operand.clear hc
  | compare operand sign literal =>
    obtain ⟨before, after, hbefore, hafter, rfl⟩ := h
    have hsign : Clear c sign.chars := clear_of_not_mem (sign.not_mem hc)
    exact ((((operand.clear hc).append (clear_of_isGap hc hbefore)).append hsign).append
      (clear_of_isGap hc hafter)).append (literal.clear hc)

theorem Atom.head?_of_spells {a : Atom} (h : a.Spells s) : s.head? ≠ some '!' := by
  have hoperand (v : Operand) (behind : List Char) : (v.chars ++ behind).head? ≠ some '!' := by
    rw [List.head?_append_of_ne_nil _ v.chars_ne_nil]
    exact fun hhead => v.not_mem (by decide) (List.mem_of_head? hhead)
  cases a with
  | constant value =>
    obtain rfl := h
    cases value <;> decide
  | test operand _ =>
    obtain rfl := h
    simpa using hoperand operand []
  | compare operand sign literal =>
    obtain ⟨before, after, -, -, rfl⟩ := h
    simpa only [List.append_assoc] using hoperand operand _

theorem ne_word_of_mem (hquote : c = '"' ∨ c = '\'') (h : c ∈ s) :
    s ≠ "true".toList ∧ s ≠ "false".toList := by
  constructor <;> rintro rfl <;> rcases hquote with rfl | rfl <;> exact absurd h (by decide)

theorem Atom.atomOf_of_spells {a : Atom} (h : a.Spells s) : atomOf s = a.read := by
  cases a with
  | constant value =>
    obtain rfl := h
    cases value <;> rfl
  | test operand hword =>
    obtain rfl := h
    simp only [List.mem_cons, List.not_mem_nil, or_false, not_or] at hword
    rw [atomOf, if_neg hword.1, if_neg hword.2, comparison?_chars, operandOf_chars]
    rfl
  | compare operand sign literal =>
    obtain ⟨before, after, hbefore, hafter, rfl⟩ := h
    have hquote : literal.quote ∈ operand.chars ++ before ++ sign.chars ++ after ++ literal.chars := by
      simp [Literal.chars]
    obtain ⟨htrue, hfalse⟩ := ne_word_of_mem literal.isQuote hquote
    rw [atomOf, if_neg htrue, if_neg hfalse, comparison?_spelled operand hbefore sign hafter literal]
    simp only [operandOf_chars, literalOf_chars]
    rfl

/-! ## Clauses -/

/-- The number of negations of a clause. -/
def Clause.negations : Clause → Nat
  | atom _ => 0
  | not c => c.negations + 1

/-- The term that a clause is read as. -/
def Clause.read (c : Clause) : Term := ⟨c.negations, c.base.read⟩

theorem negated_succ (n : Nat) (b : Bool) : negated (n + 1) b = !negated n b := by
  unfold negated
  rcases Nat.mod_two_eq_zero_or_one n with h | h
  · have hsucc : (n + 1) % 2 = 1 := by omega
    simp [h, hsucc]
  · have hsucc : (n + 1) % 2 = 0 := by omega
    simp [h, hsucc]

theorem Clause.eval_read (c : Clause) (data : Value) : c.read.eval data = c.denote data := by
  induction c with
  | atom a =>
    simp only [read, Term.eval, negations, base, Atom.eval_read, denote]
    cases a.denote data <;> rfl
  | not c ih =>
    rw [denote, ← ih]
    simp only [read, Term.eval, negations, base]
    cases c.base.read.eval data with
    | error e => rfl
    | ok b =>
      simp only [Outcome.ok_bind, negated_succ]
      rfl

theorem Clause.tight_of_spells {k : Clause} (h : k.Spells s) : Tight s := by
  induction h with
  | atom h => exact Atom.tight_of_spells h
  | @not k gap s hgap h ih =>
    have hsign : Tight ['!'] := tight_of_forall (by simp) (by simp only [List.forall_mem_singleton]; decide)
    simpa using hsign.append ih gap

theorem Clause.clear_of_spells {k : Clause} (h : k.Spells s) (hc : c = '|' ∨ c = '&') : Clear c s := by
  induction h with
  | atom h => exact Atom.clear_of_spells h hc
  | not hgap h ih =>
    have hsign : Clear c ['!'] := clear_of_not_mem (by rcases hc with rfl | rfl <;> decide)
    exact hsign.append ((clear_of_isGap hc hgap).append ih)

theorem negationsOf_gap_append {gap : List Char} (hgap : IsGap gap) (n : Nat) (s : List Char) :
    negationsOf n (gap ++ s) = negationsOf n s := by
  induction gap with
  | nil => rfl
  | cons x gap ih =>
    rw [List.cons_append, negationsOf, hgap x (by simp), if_pos rfl,
      ih fun y hy => hgap y (List.mem_cons_of_mem _ hy)]

theorem negationsOf_of_tight (h : Tight s) (hsign : s.head? ≠ some '!') (n : Nat) :
    negationsOf n s = (n, s) := by
  obtain ⟨x, rest, rfl⟩ := List.exists_cons_of_ne_nil h.ne_nil
  have hx : x ≠ '!' := by simpa using hsign
  rw [negationsOf, h.head x rfl, trimEnd_eq_self h.last]
  simp [hx]

theorem Clause.negationsOf_of_spells {k : Clause} (h : k.Spells s) (n : Nat) :
    ∃ t, k.base.Spells t ∧ negationsOf n s = (n + k.negations, t) := by
  induction h generalizing n with
  | @atom a s h => exact ⟨s, h, negationsOf_of_tight (Atom.tight_of_spells h) (Atom.head?_of_spells h) n⟩
  | @not k gap s hgap h ih =>
    obtain ⟨t, ht, hcount⟩ := ih (n + 1)
    refine ⟨t, ht, ?_⟩
    have hblank : isBlank '!' = false := by decide
    rw [negationsOf, hblank, if_neg (by simp), if_pos (by simp), negationsOf_gap_append hgap, hcount,
      negations]
    simp only [Prod.mk.injEq, and_true]
    omega

theorem Clause.termOf_of_spells {k : Clause} (h : k.Spells s) : termOf s = k.read := by
  obtain ⟨t, ht, hcount⟩ := Clause.negationsOf_of_spells h 0
  rw [termOf, hcount, Nat.zero_add, read, ← Atom.atomOf_of_spells ht]

theorem Clause.clear_of_spellsSpaced {k : Clause} (h : k.SpellsSpaced s) (hc : c = '|' ∨ c = '&') :
    Clear c s := by
  obtain ⟨before, inner, after, hbefore, hinner, hafter, rfl⟩ := h
  exact ((clear_of_isGap hc hbefore).append (Clause.clear_of_spells hinner hc)).append
    (clear_of_isGap hc hafter)

theorem Clause.termsOf_of_spellsSpaced {k : Clause} (h : k.SpellsSpaced s) : termsOf s = [k.read] := by
  obtain ⟨before, inner, after, hbefore, hinner, hafter, rfl⟩ := h
  have htight := Clause.tight_of_spells hinner
  have hblank : isBlank '&' = false := by decide
  rw [termsOf, splitAt_append_gap hblank hafter, splitAt_gap_append hblank hbefore,
    splitAt_eq_singleton (Clause.clear_of_spells hinner (.inr rfl)).noOperator
      (by rw [htight.trim_eq]; exact htight.ne_nil), htight.trim_eq, List.map_singleton,
    Clause.termOf_of_spells hinner]

theorem Clause.not_isGap_of_spellsSpaced {k : Clause} (h : k.SpellsSpaced s) : ¬ IsGap s := by
  obtain ⟨before, inner, after, -, hinner, -, rfl⟩ := h
  have htight := Clause.tight_of_spells hinner
  obtain ⟨x, rest, rfl⟩ := List.exists_cons_of_ne_nil htight.ne_nil
  intro hgap
  have hx : isBlank x = true := hgap x (by simp)
  rw [htight.head x rfl] at hx
  exact absurd hx (by simp)

/-! ## Expressions -/

/-- The condition that an expression is read as. -/
def Expression.read (e : Expression) : Condition := e.alternatives.map fun clauses => clauses.map Clause.read

section Conjunctions

variable {clauses : List Clause} {ps : List (List Char)}

theorem termsOf_join (h : List.Forall₂ Clause.SpellsSpaced clauses ps) :
    termsOf (join ['&', '&'] ps) = clauses.map Clause.read := by
  have hclear : ∀ p ∈ ps, Clear '&' p := by
    intro p hp
    obtain ⟨k, -, hk⟩ := exists_of_mem_right h hp
    exact Clause.clear_of_spellsSpaced hk (.inr rfl)
  rw [termsOf, splitAt_join fun p hp => (hclear p hp).last, List.map_flatMap]
  clear hclear
  induction h with
  | nil => rfl
  | cons hk _ ih =>
    have hterms := Clause.termsOf_of_spellsSpaced hk
    rw [termsOf] at hterms
    rw [List.flatMap_cons, hterms, ih]
    rfl

theorem clear_join (h : List.Forall₂ Clause.SpellsSpaced clauses ps) :
    Clear '|' (join ['&', '&'] ps) := by
  refine Clear.join (clear_of_not_mem (by decide)) fun p hp => ?_
  obtain ⟨k, -, hk⟩ := exists_of_mem_right h hp
  exact Clause.clear_of_spellsSpaced hk (.inl rfl)

theorem trim_join_ne_nil (hne : clauses ≠ []) (h : List.Forall₂ Clause.SpellsSpaced clauses ps) :
    trim (join ['&', '&'] ps) ≠ [] := by
  rw [Ne, trim_eq_nil_iff]
  intro hgap
  cases h with
  | nil => exact hne rfl
  | @cons k p ks ps hk hrest =>
    refine Clause.not_isGap_of_spellsSpaced hk fun x hx => hgap x ?_
    cases ps with
    | nil => exact hx
    | cons q ps => simp [join, hx]

end Conjunctions

/-- A text that spells an expression is read as that expression. -/
theorem ofChars_of_spells {e : Expression} (h : e.Spells s) : ofChars s = e.read := by
  obtain ⟨pieces, hpieces, rfl⟩ := h
  have hne := e.clauses_ne_nil
  rw [ofChars, Expression.read]
  generalize e.alternatives = alternatives at hpieces hne
  rw [splitAt_join]
  · induction hpieces with
    | nil => rfl
    | @cons clauses ps _ _ hps _ ih =>
      have hpiece : splitAt ['|', '|'] (join ['&', '&'] ps) = [trim (join ['&', '&'] ps)] :=
        splitAt_eq_singleton (clear_join hps).noOperator (trim_join_ne_nil (hne clauses (by simp)) hps)
      have hterms := termsOf_join hps
      rw [termsOf, ← splitAt_trim (by decide)] at hterms
      rw [List.map_cons, List.flatMap_cons, hpiece, List.singleton_append, List.map_cons, List.map_cons,
        hterms, ih fun clauses hmem => hne clauses (List.mem_cons_of_mem _ hmem)]
  · intro p hp
    obtain ⟨ps, hps, rfl⟩ := List.mem_map.mp hp
    obtain ⟨clauses, -, hclauses⟩ := exists_of_mem_right hpieces hps
    exact (clear_join hclauses).last

theorem evalAll_map_read (clauses : List Clause) (data : Value) :
    evalAll data (clauses.map Clause.read) = clauses.allM fun k => k.denote data := by
  induction clauses with
  | nil => rfl
  | cons k clauses ih =>
    rw [List.map_cons, evalAll, Clause.eval_read, ih, List.allM]
    refine bind_congr fun b => ?_
    cases b <;> rfl

theorem Expression.eval_read (e : Expression) (data : Value) : eval data e.read = e.denote data := by
  have hany (alternatives : List (List Clause)) :
      evalAny data (alternatives.map fun clauses => clauses.map Clause.read) =
        alternatives.anyM fun clauses => clauses.allM fun k => k.denote data := by
    induction alternatives with
    | nil => rfl
    | cons clauses alternatives ih =>
      rw [List.map_cons, evalAny, evalAll_map_read, ih, List.anyM]
      refine bind_congr fun b => ?_
      cases b <;> rfl
  obtain ⟨clauses, alternatives, hcons⟩ := List.exists_cons_of_ne_nil e.ne_nil
  rw [denote, read, ← hany, hcons]
  rfl

/-- A text that spells an expression is evaluated as that expression, atoms that fail included. Where its
atoms have truth values, the result is the or of the ands of its clauses. -/
theorem evalText_of_spells {e : Expression} {s : String} (h : e.Spells s.toList) (data : Value) :
    evalText s data = e.denote data ∧
      ∀ valuation : Atom → Bool, (∀ clauses ∈ e.alternatives, ∀ k ∈ clauses,
        k.base.denote data = .ok (valuation k.base)) → evalText s data = .ok (e.holds valuation) := by
  have hdenote : evalText s data = e.denote data := by
    rw [evalText, ofText, ofChars_of_spells h, Expression.eval_read]
  exact ⟨hdenote, fun _ hatoms => hdenote.trans (Expression.denote_eq hatoms)⟩

/-- `customer.vat`. -/
def vat : PathText := ⟨"customer.vat".toList, by decide, List.all_eq_true.mp (by decide)⟩

/-- `customer.tier`. -/
def tier : PathText := ⟨"customer.tier".toList, by decide, List.all_eq_true.mp (by decide)⟩

/-- Whoever has no number and is of the tier `a >= 'b'`, or has no tier. -/
def exempt : Expression where
  alternatives := [[.not (.atom (.test (.isPresent vat) (by decide +kernel))),
      .atom (.compare (.path tier) .eq ⟨'"', "a >= 'b'".toList, .inl rfl, by decide +kernel,
        by decide +kernel, by decide +kernel⟩)],
    [.not (.not (.not (.atom (.test (.path tier) (by decide +kernel)))))]]
  ne_nil := by simp
  clauses_ne_nil := by simp

/-- A record of a customer without a number. -/
def withoutVat : Value := .object [("customer", .object [("tier", .text "a >= 'b'")])]

/-- Signs and quotes in the literal do not stop it from being read, nor do blanks between negations. -/
theorem evalText_exempt :
    exempt.Spells "!exists(customer.vat)  &&customer.tier== \"a >= 'b'\" || ! !!customer.tier".toList ∧
    evalText "!exists(customer.vat)  &&customer.tier== \"a >= 'b'\" || ! !!customer.tier" withoutVat =
      .ok true := by
  have hspace : IsGap "  ".toList := List.all_eq_true.mp (by decide +kernel)
  have hspells : exempt.Spells
      "!exists(customer.vat)  &&customer.tier== \"a >= 'b'\" || ! !!customer.tier".toList := by
    refine ⟨[["!exists(customer.vat)  ".toList, "customer.tier== \"a >= 'b'\" ".toList],
      [" ! !!customer.tier".toList]], .cons (.cons ?_ (.cons ?_ .nil)) (.cons (.cons ?_ .nil) .nil),
      by decide +kernel⟩
    · exact ⟨[], "!exists(customer.vat)".toList, "  ".toList, isGap_nil, .not isGap_nil (.atom rfl), hspace,
        by decide +kernel⟩
    · exact ⟨[], "customer.tier== \"a >= 'b'\"".toList, [' '], isGap_nil,
        .atom ⟨[], [' '], isGap_nil, isGap_space, by decide +kernel⟩, isGap_space, by decide +kernel⟩
    · exact ⟨[' '], "! !!customer.tier".toList, [], isGap_space,
        .not isGap_space (.not isGap_nil (.not isGap_nil (.atom rfl))), isGap_nil, by decide +kernel⟩
  refine ⟨hspells, ?_⟩
  rw [(evalText_of_spells hspells withoutVat).2 fun a => verdict (a.denote withoutVat)]
  · exact congrArg Except.ok (by decide +kernel)
  · simp only [exempt, List.forall_mem_cons, Clause.base]
    refine ⟨⟨eq_verdict ?_, eq_verdict ?_, ?_⟩, ⟨eq_verdict ?_, ?_⟩, ?_⟩
    · decide +kernel
    · decide +kernel
    · simp
    · decide +kernel
    · simp
    · simp

end Pagewright.Condition.Grammar
