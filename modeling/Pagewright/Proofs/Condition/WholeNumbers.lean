import Pagewright.Proofs.Condition.Spelling
import Pagewright.Proofs.Number.Comparison
import Pagewright.Proofs.Number.Numerals

/-!
# Comparing whole numbers

A whole number in the record is compared with a numeral in the condition. The numeral is read as the nearest double,
and for an order the number goes to a double as well. `Sign.answer` is what comes out for any two numbers and any sign
(`shows_compare_int`). It is right where both numbers are doubles, and for equality where the numeral spells one
(`Sign.answer_eq_holds`); beyond, rounding can only make numbers equal (`Sign.answer_order`).
-/

namespace Pagewright.Condition.Grammar

open Pagewright.Text Binary64

variable {s before after : List Char} {m n : ℤ} {data w : Value}

/-! ## Bare literals -/

/-- A text that can stand behind a sign without quotes. -/
structure IsBare (s : List Char) : Prop where
  tight : Tight s
  oneLine : '\n' ∉ s
  noOperator : ∀ {c}, c = '|' ∨ c = '&' → c ∉ s
  head : s.head? ≠ some '='

theorem Sign.ne_word (sign : Sign) (h : sign.chars ⊆ s) : s ≠ "true".toList ∧ s ≠ "false".toList := by
  have hword : ∃ c ∈ sign.chars, c ∉ "true".toList ∧ c ∉ "false".toList := by
    cases sign with
    | eq | ne | ge | le => exact ⟨'=', by decide⟩
    | gt => exact ⟨'>', by decide⟩
    | lt => exact ⟨'<', by decide⟩
  obtain ⟨c, hc, htrue, hfalse⟩ := hword
  exact ⟨fun heq => htrue (heq ▸ h hc), fun heq => hfalse (heq ▸ h hc)⟩

theorem atomOf_compare (v : Operand) (hbefore : IsGap before) (sign : Sign) (hafter : IsGap after) (hs : IsBare s) :
    atomOf (v.chars ++ before ++ sign.chars ++ after ++ s) =
      .compare v.read sign.relation (literalOf s) := by
  obtain ⟨htrue, hfalse⟩ := sign.ne_word (s := v.chars ++ before ++ sign.chars ++ after ++ s) fun c hc => by simp [hc]
  rw [atomOf, if_neg htrue, if_neg hfalse,
    comparison?_of_tight v hbefore sign hafter hs.tight hs.oneLine hs.head]
  dsimp only
  rw [operandOf_chars]

theorem tight_compare (v : Operand) (before : List Char) (sign : Sign) (after : List Char) (hs : IsBare s) :
    Tight (v.chars ++ before ++ sign.chars ++ after ++ s) := by
  simpa only [List.append_assoc] using v.tight.append hs.tight (before ++ sign.chars ++ after)

theorem ofChars_compare (v : Operand) (hbefore : IsGap before) (sign : Sign) (hafter : IsGap after) (hs : IsBare s) :
    ofChars (v.chars ++ before ++ sign.chars ++ after ++ s) =
      [[⟨0, .compare v.read sign.relation (literalOf s)⟩]] := by
  have hatom := atomOf_compare v hbefore sign hafter hs
  have htight := tight_compare v before sign after hs
  have hhead : (v.chars ++ before ++ sign.chars ++ after ++ s).head? ≠ some '!' := by
    simp only [List.append_assoc]
    rw [List.head?_append_of_ne_nil _ v.chars_ne_nil]
    exact fun hhead => v.not_mem (by decide) (List.mem_of_head? hhead)
  have hclear {c : Char} (hc : c = '|' ∨ c = '&') : Clear c (v.chars ++ before ++ sign.chars ++ after ++ s) :=
    ((((v.clear hc).append (clear_of_isGap hc hbefore)).append (clear_of_not_mem (sign.not_mem hc))).append
      (clear_of_isGap hc hafter)).append (clear_of_not_mem (hs.noOperator hc))
  generalize v.chars ++ before ++ sign.chars ++ after ++ s = t at *
  have hsingle {c : Char} (hc : c = '|' ∨ c = '&') : splitAt [c, c] t = [t] := by
    rw [splitAt_eq_singleton (hclear hc).noOperator (by rw [htight.trim_eq]; exact htight.ne_nil), htight.trim_eq]
  rw [ofChars, hsingle (.inl rfl), List.map_singleton, hsingle (.inr rfl), List.map_singleton, termOf,
    negationsOf_of_tight htight hhead]
  dsimp only
  rw [hatom]

theorem evalText_compare {v : Operand} (hbefore : IsGap before) (sign : Sign) (hafter : IsGap after) (hs : IsBare s)
    (hv : v.denote data = .ok w) :
    evalText (String.ofList (v.chars ++ before ++ sign.chars ++ after ++ s)) data =
      related sign.relation w (literalOf s) := by
  rw [evalText, ofText, String.toList_ofList, ofChars_compare v hbefore sign hafter hs]
  simp only [eval, evalAny, evalAll, Term.eval, Condition.Atom.eval, eval_read, hv, Outcome.ok_bind]
  cases related sign.relation w (literalOf s) with
  | error e => rfl
  | ok b => cases b <;> rfl

/-! ## Numerals -/

theorem not_mem_toString {c : Char} (hminus : c ≠ '-') (hdigit : c.isDigit = false) (n : ℤ) :
    c ∉ (toString n).toList := fun hc =>
  (Numeral.eq_minus_or_isDigit hc).elim hminus fun h => Bool.false_ne_true (hdigit.symm.trans h)

theorem isBare_toString (n : ℤ) : IsBare (toString n).toList where
  tight := Numeral.tight_toString n
  oneLine := not_mem_toString (by decide) rfl n
  noOperator hc := by rcases hc with rfl | rfl <;> exact not_mem_toString (by decide) rfl n
  head hhead := not_mem_toString (by decide) rfl n (List.mem_of_head? hhead)

theorem unquoted?_toString (n : ℤ) : unquoted? (toString n).toList = none := by
  have hquote : '"' ∉ (toString n).toList ∧ '\'' ∉ (toString n).toList :=
    ⟨not_mem_toString (by decide) rfl n, not_mem_toString (by decide) rfl n⟩
  revert hquote
  generalize (toString n).toList = s
  cases s with
  | nil => exact fun _ => rfl
  | cons c rest =>
    simp only [List.mem_cons, not_or, unquoted?]
    rintro ⟨⟨hdouble, -⟩, hsingle, -⟩
    simp [Ne.symm hdouble, Ne.symm hsingle]

/-- A numeral is read as the nearest double, which may be infinite. -/
theorem literalOf_toString (n : ℤ) : literalOf (toString n).toList =
    if n.natAbs < limit then .int (nearest n) else .float (if n < 0 then -infinity else infinity) := by
  obtain ⟨x, hx, hnearest⟩ := Numeral.float?_toString n
  have hword (word : String) (h : 'e' ∈ word.toList) : (String.ofList (toString n).toList == word) = false := by
    refine beq_eq_false_iff_ne.mpr ?_
    rintro rfl
    rw [String.toList_ofList] at h
    exact not_mem_toString (by decide) rfl n h
  have htrue := hword "true" (by decide)
  have hfalse := hword "false" (by decide)
  unfold literalOf
  simp only [(Numeral.tight_toString n).trim_eq, unquoted?_toString, htrue, hfalse, Bool.false_eq_true, if_false, hx]
  exact hnearest.wholeOrFloat_eq

/-! ## Comparisons of whole numbers -/

/-- Whether a sign holds between whole numbers. -/
def Sign.holds (sign : Sign) (m n : ℤ) : Bool :=
  match sign with
  | eq => m = n
  | ne => m ≠ n
  | ge => m ≥ n
  | le => m ≤ n
  | gt => m > n
  | lt => m < n

/-- What is answered for a whole number, a sign and the numeral of a whole number. Only the numeral is rounded before
the two are asked to be equal. For an order both are; where the number is too large to be, the condition fails. -/
def Sign.answer (sign : Sign) (m n : ℤ) : Bool :=
  match sign with
  | eq => n.natAbs < limit && m = nearest n
  | ne => !(n.natAbs < limit && m = nearest n)
  | sign => limit ≤ m.natAbs || sign.holds (nearest m) (nearest n)

theorem numberOf_int (h : m.natAbs < limit) :
    ∃ x, numberOf (.int m) = .ok (some x) ∧ IsNearest x m := by
  refine ⟨_, ?_, isNearest_ofRatio_intCast m⟩
  simp only [numberOf, ofInt?_eq, if_pos h]

/-- The number of a numeral is the nearest double to one that rounds alike. -/
theorem numberOf_literalOf_toString (n : ℤ) : ∃ (y : Float) (k : ℤ),
    numberOf (literalOf (toString n).toList) = .ok (some y) ∧ IsNearest y k ∧ nearest k = nearest n := by
  rw [literalOf_toString]
  rcases lt_or_ge n.natAbs limit with hn | hn
  · rw [if_pos hn]
    have hdouble := isDouble_nearest hn
    obtain ⟨y, hy, hnearest⟩ := numberOf_int hdouble.natAbs_lt
    exact ⟨y, nearest n, hy, hnearest, hdouble.nearest_eq⟩
  · rw [if_neg hn.not_gt]
    have hnearest := isNearest_ofRatio_intCast n
    rw [hnearest.eq_infinity_intCast hn] at hnearest
    refine ⟨_, n, ?_, hnearest, rfl⟩
    rw [numberOf, hnearest.isNaN_eq_false, if_neg Bool.false_ne_true]

theorem related_order {sign : Sign} (hsign : sign ≠ .eq ∧ sign ≠ .ne) (hm : m.natAbs < limit) (n : ℤ) :
    related sign.relation (.int m) (literalOf (toString n).toList) = .ok (sign.holds (nearest m) (nearest n)) := by
  obtain ⟨x, hx, hxm⟩ := numberOf_int hm
  obtain ⟨y, k, hy, hyk, hk⟩ := numberOf_literalOf_toString n
  have hlt := hxm.lt_iff_nearest hyk (.inl hm)
  have hgt := hyk.lt_iff_nearest hxm (.inr hm)
  have hle := hxm.le_iff_nearest hyk (.inl hm)
  have hge := hyk.le_iff_nearest hxm (.inr hm)
  rw [hk] at hlt hgt hle hge
  have hrelated (relation : Relation) (hrelation : relation ≠ .eq ∧ relation ≠ .ne) :
      related relation (.int m) (literalOf (toString n).toList) = .ok (relation.holds x y) := by
    cases relation <;> first | exact absurd rfl hrelation.1 | exact absurd rfl hrelation.2 | skip
    all_goals
      show (numberOf (.int m) >>= _) = _
      rw [hx]
      show (numberOf (literalOf (toString n).toList) >>= _) = _
      rw [hy]
      rfl
  cases sign with
  | eq => exact absurd rfl hsign.1
  | ne => exact absurd rfl hsign.2
  | ge => rw [Sign.relation, hrelated _ (by decide), Relation.holds, Sign.holds, decide_eq_decide.mpr hge]
  | le => rw [Sign.relation, hrelated _ (by decide), Relation.holds, Sign.holds, decide_eq_decide.mpr hle]
  | gt => rw [Sign.relation, hrelated _ (by decide), Relation.holds, Sign.holds, decide_eq_decide.mpr hgt]
  | lt => rw [Sign.relation, hrelated _ (by decide), Relation.holds, Sign.holds, decide_eq_decide.mpr hlt]

theorem floatEqInt_of_infinite (p : Prop) [Decidable p] (m : ℤ) :
    Value.floatEqInt (if p then -infinity else infinity) m = false := by
  split <;> rfl

theorem equal_int (m n : ℤ) :
    equal (.int m) (literalOf (toString n).toList) = (n.natAbs < limit && m = nearest n) := by
  rw [literalOf_toString]
  rcases lt_or_ge n.natAbs limit with hn | hn
  · rw [if_pos hn, decide_eq_true hn, Bool.true_and]
    exact beq_eq_decide m (nearest n)
  · rw [if_neg hn.not_gt, decide_eq_false hn.not_gt, Bool.false_and]
    exact floatEqInt_of_infinite (n < 0) m

theorem related_order_of_limit_le {sign : Sign} (hsign : sign ≠ .eq ∧ sign ≠ .ne) (hm : limit ≤ m.natAbs)
    (literal : Value) : related sign.relation (.int m) literal = undefinedOn .numberTooLarge := by
  have hnumber : numberOf (.int m) = undefinedOn .numberTooLarge := by
    simp only [numberOf, ofInt?_eq, if_neg hm.not_gt]
  cases sign <;> first | exact absurd rfl hsign.1 | exact absurd rfl hsign.2 | skip
  all_goals
    show (numberOf (.int m) >>= _) = _
    rw [hnumber]
    rfl

/-- A comparison has an answer, or fails where the answer is to show the element. -/
theorem related_toString (sign : Sign) (m n : ℤ) :
    related sign.relation (.int m) (literalOf (toString n).toList) = .ok (sign.answer m n) ∨
      sign.answer m n = true ∧
        related sign.relation (.int m) (literalOf (toString n).toList) = undefinedOn .numberTooLarge := by
  have horder (hsign : sign ≠ .eq ∧ sign ≠ .ne)
      (hanswer : sign.answer m n = (limit ≤ m.natAbs || sign.holds (nearest m) (nearest n))) :
      related sign.relation (.int m) (literalOf (toString n).toList) = .ok (sign.answer m n) ∨
        sign.answer m n = true ∧
          related sign.relation (.int m) (literalOf (toString n).toList) = undefinedOn .numberTooLarge := by
    rcases lt_or_ge m.natAbs limit with hm | hm
    · refine .inl ?_
      rw [related_order hsign hm, hanswer, decide_eq_false hm.not_ge, Bool.false_or]
    · refine .inr ⟨?_, related_order_of_limit_le hsign hm _⟩
      rw [hanswer, decide_eq_true hm, Bool.true_or]
  cases sign with
  | eq => exact .inl (congrArg Except.ok (equal_int m n))
  | ne => exact .inl (congrArg (Except.ok !·) (equal_int m n))
  | ge | le | gt | lt => exact horder ⟨nofun, nofun⟩ rfl

/-- What is shown where a whole number is compared with the numeral of one. -/
theorem shows_compare {v : Operand} (hbefore : IsGap before) (sign : Sign) (hafter : IsGap after)
    (hv : v.denote data = .ok (.int m)) (n : ℤ) :
    shows (.text (String.ofList (v.chars ++ before ++ sign.chars ++ after ++ (toString n).toList))) data =
      .ok (sign.answer m n) := by
  have htight := tight_compare v before sign after (isBare_toString n)
  have hblank : isBlankText
      (String.ofList (v.chars ++ before ++ sign.chars ++ after ++ (toString n).toList)) = false := by
    rw [Bool.eq_false_iff, Ne, isBlankText_iff, String.toList_ofList, htight.trim_eq]
    exact htight.ne_nil
  unfold shows
  dsimp only
  rw [hblank, if_neg Bool.false_ne_true, evalText_compare hbefore sign hafter (isBare_toString n) hv]
  rcases related_toString sign m n with hrelated | ⟨hanswer, hrelated⟩
  · rw [hrelated]
  · rw [hrelated, hanswer]
    rfl

/-! ## Right answers -/

/-- The answer is right where both numbers are doubles. For equality only the numeral need spell one. -/
theorem Sign.answer_eq_holds {sign : Sign} (hn : IsDouble n) (hm : IsDouble m ∨ sign = .eq ∨ sign = .ne) :
    sign.answer m n = sign.holds m n := by
  have hlimit : (decide (n.natAbs < limit)) = true := decide_eq_true hn.natAbs_lt
  have horder (hm : IsDouble m) : (limit ≤ m.natAbs || sign.holds (nearest m) (nearest n)) = sign.holds m n := by
    rw [decide_eq_false hm.natAbs_lt.not_ge, Bool.false_or, hm.nearest_eq, hn.nearest_eq]
  cases sign with
  | eq => rw [answer, holds, hlimit, Bool.true_and, hn.nearest_eq]
  | ne =>
    rw [answer, holds, hlimit, Bool.true_and, hn.nearest_eq]
    exact (decide_not).symm
  | ge | le | gt | lt => exact horder (hm.resolve_right (by simp))

/-- An order that holds is not lost, nor is a strict one found where the numbers are equal or the other way around. -/
theorem Sign.answer_order (m n : ℤ) :
    (∀ sign ∈ [Sign.ge, .le], sign.holds m n = true → sign.answer m n = true) ∧
      (m.natAbs < limit → ∀ sign ∈ [Sign.gt, .lt], sign.answer m n = true → sign.holds m n = true) := by
  constructor
  · intro sign hsign h
    simp only [List.mem_cons, List.not_mem_nil, or_false] at hsign
    rcases hsign with rfl | rfl <;> simp only [holds, decide_eq_true_eq] at h
    · simp [answer, holds, nearest_mono h]
    · simp [answer, holds, nearest_mono h]
  · intro hm sign hsign h
    simp only [List.mem_cons, List.not_mem_nil, or_false] at hsign
    rcases hsign with rfl | rfl <;>
      simp only [answer, holds, Bool.or_eq_true, decide_eq_true_eq, hm.not_ge, false_or] at h ⊢
    · exact lt_of_not_ge fun hle => absurd (nearest_mono hle) h.not_ge
    · exact lt_of_not_ge fun hle => absurd (nearest_mono hle) h.not_ge

/-- `p`. -/
def subject : PathText := ⟨['p'], by simp, List.all_eq_true.mp (by decide)⟩

theorem shows_subject (sign : Sign) (m n : ℤ) :
    shows (.text ("p " ++ String.ofList sign.chars ++ " " ++ toString n)) (.object [("p", .int m)]) =
      .ok (sign.answer m n) := by
  have htext : "p " ++ String.ofList sign.chars ++ " " ++ toString n =
      String.ofList (subject.chars ++ [' '] ++ sign.chars ++ [' '] ++ (toString n).toList) := by
    simp [← String.toList_inj, subject]
  rw [htext]
  exact shows_compare (v := .path subject) isGap_space sign isGap_space rfl n

/-- A comparison of a whole number with a numeral, for any sign: it is shown as `Sign.answer` says. That is right where
both are doubles, and for equality where the numeral spells one. Rounding makes no order that holds fail, and no strict
one hold that fails. -/
theorem shows_compare_int (sign : Sign) (m n : ℤ) :
    shows (.text ("p " ++ String.ofList sign.chars ++ " " ++ toString n)) (.object [("p", .int m)]) =
        .ok (sign.answer m n) ∧
      (IsDouble n → (IsDouble m ∨ sign = .eq ∨ sign = .ne) → sign.answer m n = sign.holds m n) ∧
      (sign ∈ [Sign.ge, .le] → sign.holds m n = true → sign.answer m n = true) ∧
      (m.natAbs < limit → sign ∈ [Sign.gt, .lt] → sign.answer m n = true → sign.holds m n = true) := by
  obtain ⟨hkept, hstrict⟩ := Sign.answer_order m n
  exact ⟨shows_subject sign m n, Sign.answer_eq_holds, hkept sign, fun hm => hstrict hm sign⟩

/-- At the greatest number of 53 bits the answers are right. -/
theorem shows_compare_two_pow :
    shows (.text "p < 9007199254740992") (.object [("p", .int 9007199254740991)]) = .ok true := by
  have hdouble (n : ℤ) (h : n.natAbs ≤ 2 ^ 53) : IsDouble n := isDouble_of_natAbs_le h
  obtain ⟨hshows, hright, -⟩ := shows_compare_int .lt 9007199254740991 9007199254740992
  have htext : "p " ++ String.ofList Sign.lt.chars ++ " " ++ toString (9007199254740992 : ℤ) =
      "p < 9007199254740992" := by decide
  rw [htext, hright (hdouble _ (by decide)) (.inl (hdouble _ (by decide)))] at hshows
  exact hshows

/-- A number of 54 bits is not found equal to itself. -/
theorem not_shows_compare_int_self :
    shows (.text "p == 9007199254740993") (.object [("p", .int 9007199254740993)]) = .ok false ∧
      Sign.eq.holds 9007199254740993 9007199254740993 = true := by
  have hanswer := shows_subject .eq 9007199254740993 9007199254740993
  have htext : "p " ++ String.ofList Sign.eq.chars ++ " " ++ toString (9007199254740993 : ℤ) =
      "p == 9007199254740993" := by decide
  have hfalse : Sign.eq.answer 9007199254740993 9007199254740993 = false := by decide +kernel
  rw [htext, hfalse] at hanswer
  exact ⟨hanswer, by decide⟩

end Pagewright.Condition.Grammar
