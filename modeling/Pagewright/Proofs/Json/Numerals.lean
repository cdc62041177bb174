import Pagewright.Json.Writer
import Pagewright.Proofs.Number.Reading

/-!
# Numbers are read as they were written

A numeral is read up to the first character that cannot belong to it (`Json.EndsNumber`). It has a whole part
without a zero in front (`Json.IsWhole`), and a fraction and an exponent if it is that of a double; each part is read
on its own (`readNumber_of_whole`, `fractionOf_digits`, `exponentOf_mark`).

Whole numbers read back as they were written (`readNumber_int`). The text of a finite double has the digits of its
decimal in one of four shapes, and in each the digits and the power of ten that are read make up the decimal again;
it is in the interval of the double, so the double reads back (`readNumber_text`).
-/

namespace Pagewright.Json

open Decimal Numeral Binary64

/-! ## The parts of a numeral -/

/-- What follows a number: nothing, or a character that cannot go on with it. -/
def EndsNumber (rest : List Char) : Prop :=
  ∀ c ∈ rest.head?, c.isDigit = false ∧ c ≠ '.' ∧ c ≠ 'e' ∧ c ≠ 'E'

/-- Digits without a zero in front, unless it is the only one. -/
structure IsWhole (ds : List Char) : Prop where
  nonempty : ds ≠ []
  digits : ∀ c ∈ ds, c.isDigit = true
  plain : ds = ['0'] ∨ ds.head? ≠ some '0'

variable {ds whole fraction rest : List Char}

theorem takeWhile_digits (hds : ∀ c ∈ ds, c.isDigit = true) (hrest : ∀ c ∈ rest.head?, c.isDigit = false) :
    (ds ++ rest).takeWhile Char.isDigit = ds := by
  rw [List.takeWhile_append_of_pos hds]
  cases rest with
  | nil => simp
  | cons c rest => rw [List.takeWhile_cons_of_neg (by simp [hrest c rfl]), List.append_nil]

/-- A text without a minus sign, and whether there was one. -/
def minusOf : List Char → Bool × List Char
  | '-' :: rest => (true, rest)
  | s => (false, s)

/-- The whole part at the start of a text. -/
def wholeOf : List Char → List Char
  | '0' :: _ => ['0']
  | body => body.takeWhile Char.isDigit

/-- The number with a whole part, from what follows it; `size` counts the characters from its start on. -/
def numberFrom (size : ℕ) (negative : Bool) (whole rest : List Char) : Except Stop (Option (Value × List Char)) :=
  let (fraction, rest) := fractionOf rest
  let (exponent, rest) := exponentOf rest
  if fraction.isEmpty && exponent.isNone then
    if whole.length > digitLimit then .error ⟨.longNumber, size⟩
    else
      let n : ℤ := ofDigits (digitValues whole)
      .ok (some (.int (if negative then -n else n), rest))
  else
    .ok (some (.float (scaled negative (digitValues (whole ++ fraction)) (exponent.getD 0 - fraction.length)), rest))

theorem readNumber_eq (s : List Char) :
    readNumber s =
      if (wholeOf (minusOf s).2).isEmpty then .ok none
      else
        numberFrom s.length (minusOf s).1 (wholeOf (minusOf s).2)
          ((minusOf s).2.drop (wholeOf (minusOf s).2).length) :=
  rfl

theorem minusOf_signed (negative : Bool) (h : ds.head? ≠ some '-') :
    minusOf (signed negative ds) = (negative, ds) := by
  cases negative with
  | true => rfl
  | false =>
    show minusOf ds = _
    unfold minusOf
    split
    · exact absurd rfl h
    · rfl

theorem wholeOf_append (hwhole : IsWhole whole) (hrest : ∀ c ∈ rest.head?, c.isDigit = false) :
    wholeOf (whole ++ rest) = whole := by
  rcases hwhole.plain with rfl | hhead
  · rfl
  · unfold wholeOf
    split
    · rename_i heq
      have hzero := congrArg List.head? heq
      rw [List.head?_append_of_ne_nil _ hwhole.nonempty] at hzero
      exact absurd hzero hhead
    · exact takeWhile_digits hwhole.digits hrest

/-- A number is read from its whole part and the rest. -/
theorem readNumber_of_whole (negative : Bool) (hwhole : IsWhole whole)
    (hrest : ∀ c ∈ rest.head?, c.isDigit = false) :
    readNumber (signed negative (whole ++ rest)) =
      numberFrom (signed negative (whole ++ rest)).length negative whole rest := by
  have hhead : (whole ++ rest).head? ≠ some '-' := by
    obtain ⟨d, more, rfl⟩ := List.exists_cons_of_ne_nil hwhole.nonempty
    intro h
    obtain rfl := Option.some.inj h
    exact absurd (hwhole.digits _ List.mem_cons_self) (by decide)
  rw [readNumber_eq, minusOf_signed _ hhead]
  dsimp only
  rw [wholeOf_append hwhole hrest, if_neg (by simpa using hwhole.nonempty), List.drop_left]

theorem fractionOf_digits (hne : ds ≠ []) (hds : ∀ c ∈ ds, c.isDigit = true)
    (hrest : ∀ c ∈ rest.head?, c.isDigit = false) : fractionOf ('.' :: (ds ++ rest)) = (ds, rest) := by
  rw [fractionOf, takeWhile_digits hds hrest, if_neg (by simpa using hne), List.drop_left]

theorem fractionOf_of_ne (h : ∀ c ∈ rest.head?, c ≠ '.') : fractionOf rest = ([], rest) := by
  unfold fractionOf
  split
  · exact absurd rfl (h _ rfl)
  · rfl

theorem exponentOf_of_ne (h : ∀ c ∈ rest.head?, c ≠ 'e' ∧ c ≠ 'E') : exponentOf rest = (none, rest) := by
  unfold exponentOf
  split
  · rfl
  · rename_i c _
    obtain ⟨he, hE⟩ := h c rfl
    rw [if_neg (by simp [he, hE])]

theorem ofDigits_padded (size n : ℕ) : ofDigits (digitValues (padded size n)) = n := by
  unfold padded
  dsimp only
  rw [digitValues_append, ofDigits_append, ofDigits_digitsOf]
  simp [digitValues]

theorem isDigit_of_mem_padded {size n : ℕ} {c : Char} (h : c ∈ padded size n) : c.isDigit = true := by
  rcases List.mem_append.mp h with h | h
  · rw [List.eq_of_mem_replicate h]
    rfl
  · exact isDigit_of_mem_digitsOf h

theorem padded_ne_nil (size n : ℕ) : padded size n ≠ [] := by
  simp [padded, digitsOf_ne_nil]

theorem exponentOf_mark (e : ℤ) (hrest : ∀ c ∈ rest.head?, c.isDigit = false) :
    exponentOf (exponentMark e ++ rest) = (some e, rest) := by
  unfold exponentMark
  rw [List.cons_append, List.cons_append, exponentOf]
  rw [if_pos (by decide)]
  have hsign : signOf ((if e < 0 then '-' else '+') :: (padded 2 e.natAbs ++ rest)) =
      (decide (e < 0), padded 2 e.natAbs ++ rest) := by
    split <;> simp [signOf, *]
  have hvalue : (if decide (e < 0) then -(e.natAbs : ℤ) else e.natAbs) = e := by
    rcases lt_or_ge e 0 with h | h
    · rw [if_pos (by simpa using h)]
      omega
    · rw [if_neg (by simpa using h)]
      omega
  rw [hsign]
  dsimp only
  rw [takeWhile_digits (fun c => isDigit_of_mem_padded) hrest, if_neg (by simpa using padded_ne_nil _ _),
    List.drop_left, ofDigits_padded, hvalue]

/-! ## Whole numbers -/

theorem isWhole_digitsOf (n : ℕ) : IsWhole (digitsOf n) where
  nonempty := digitsOf_ne_nil n
  digits _ := isDigit_of_mem_digitsOf
  plain := by
    rcases Nat.eq_zero_or_pos n with rfl | h
    · exact .inl rfl
    · exact .inr (head?_digitsOf h)

theorem signed_append (negative : Bool) (ds rest : List Char) :
    signed negative ds ++ rest = signed negative (ds ++ rest) := by
  cases negative <;> rfl

theorem toList_toString_int (n : ℤ) : (toString n).toList = signed (decide (n < 0)) (digitsOf n.natAbs) := by
  cases n with
  | ofNat n => exact String.toList_ofList
  | negSucc n =>
    show ("-" ++ Nat.repr (n + 1)).toList = _
    have hrepr : (Nat.repr (n + 1)).toList = digitsOf (n + 1) := String.toList_ofList
    rw [String.toList_append, hrepr, decide_eq_true (Int.negSucc_lt_zero n)]
    rfl

/-- A whole number of up to 4300 digits reads back as it was written. -/
theorem readNumber_int {n : ℤ} (hn : width n.natAbs ≤ digitLimit) (hrest : EndsNumber rest) :
    readNumber ((toString n).toList ++ rest) = .ok (some (.int n, rest)) := by
  have hvalue : (if decide (n < 0) then -(n.natAbs : ℤ) else n.natAbs) = n := by
    rcases lt_or_ge n 0 with h | h
    · rw [if_pos (by simpa using h)]
      omega
    · rw [if_neg (by simpa using h)]
      omega
  rw [toList_toString_int, signed_append,
    readNumber_of_whole _ (isWhole_digitsOf _) fun c hc => (hrest c hc).1, numberFrom,
    fractionOf_of_ne fun c hc => (hrest c hc).2.1]
  dsimp only
  rw [exponentOf_of_ne fun c hc => (hrest c hc).2.2]
  dsimp only
  rw [List.isEmpty_nil, Option.isNone_none, Bool.and_self, if_pos rfl,
    if_neg (show ¬(digitsOf n.natAbs).length > digitLimit from Nat.not_lt.mpr hn), ofDigits_digitsOf, hvalue]

/-! ## Doubles -/

/-- A numeral in parts: the digits before the point and after it, and the exponent if there is one. -/
structure Spelling where
  whole : List Char
  fraction : List Char
  exponent : Option ℤ

namespace Spelling

/-- The characters of a numeral. -/
def chars (x : Spelling) : List Char :=
  x.whole ++ ((if x.fraction.isEmpty then [] else '.' :: x.fraction) ++ (x.exponent.map exponentMark).getD [])

/-- The digits of a numeral. -/
def digits (x : Spelling) : List ℕ := digitValues (x.whole ++ x.fraction)

/-- The power of ten that the digits are multiples of. -/
def scale (x : Spelling) : ℤ := x.exponent.getD 0 - x.fraction.length

/-- The parts are those of a double: digits, and a point or an exponent. -/
structure IsDouble (x : Spelling) : Prop where
  isWhole : IsWhole x.whole
  digits : ∀ c ∈ x.fraction, c.isDigit = true
  marked : x.fraction ≠ [] ∨ x.exponent.isSome = true

variable {x : Spelling}

theorem exponentOf_map_mark (e? : Option ℤ) (hrest : EndsNumber rest) :
    exponentOf ((e?.map exponentMark).getD [] ++ rest) = (e?, rest) := by
  cases e? with
  | none => exact exponentOf_of_ne fun c hc => (hrest c hc).2.2
  | some e => exact exponentOf_mark e fun c hc => (hrest c hc).1

theorem head?_map_mark (e? : Option ℤ) (hrest : EndsNumber rest) :
    ∀ c ∈ ((e?.map exponentMark).getD [] ++ rest).head?, c.isDigit = false ∧ c ≠ '.' := by
  cases e? with
  | none => exact fun c hc => ⟨(hrest c hc).1, (hrest c hc).2.1⟩
  | some e =>
    intro c hc
    obtain rfl := Option.some.inj hc
    decide

theorem fractionOf_point {cs : List Char} (hcs : ∀ c ∈ cs, c.isDigit = true)
    (hrest : ∀ c ∈ rest.head?, c.isDigit = false ∧ c ≠ '.') :
    fractionOf ((if cs.isEmpty then [] else '.' :: cs) ++ rest) = (cs, rest) := by
  split
  · rename_i h
    rw [List.isEmpty_iff.mp h]
    exact fractionOf_of_ne fun c hc => (hrest c hc).2
  · rename_i h
    exact fractionOf_digits (by simpa using h) hcs fun c hc => (hrest c hc).1

theorem readNumber_chars (hx : x.IsDouble) (negative : Bool) (hrest : EndsNumber rest) :
    readNumber (signed negative (x.chars ++ rest)) =
      .ok (some (.float (scaled negative x.digits x.scale), rest)) := by
  have hhead := head?_map_mark x.exponent hrest
  have hmarked : (x.fraction.isEmpty && x.exponent.isNone) = false := by
    rcases hx.marked with h | h
    · simp [h]
    · rw [← Option.not_isSome, h, Bool.not_true, Bool.and_false]
  have hpoint : ∀ c ∈ ((if x.fraction.isEmpty then [] else '.' :: x.fraction) ++
      ((x.exponent.map exponentMark).getD [] ++ rest)).head?, c.isDigit = false := by
    split
    · exact fun c hc => (hhead c hc).1
    · intro c hc
      obtain rfl := Option.some.inj hc
      rfl
  rw [chars, List.append_assoc, List.append_assoc, readNumber_of_whole _ hx.isWhole hpoint, numberFrom,
    fractionOf_point hx.digits hhead]
  dsimp only
  rw [exponentOf_map_mark x.exponent hrest]
  dsimp only
  rw [hmarked, if_neg Bool.false_ne_true]
  rfl

end Spelling

theorem isDigit_of_mem_zeros (n : ℕ) : ∀ c ∈ List.replicate n '0', c.isDigit = true := fun c hc => by
  rw [List.eq_of_mem_replicate hc]
  rfl

theorem digitValues_zeros (n : ℕ) : digitValues (List.replicate n '0') = List.replicate n 0 := List.map_replicate

section

variable (hne : ds ≠ []) (hdigits : ∀ c ∈ ds, c.isDigit = true) (hhead : ds.head? ≠ some '0') (point : ℤ)

include hne hdigits hhead

theorem exists_scientific : ∃ x : Spelling, x.IsDouble ∧ scientific ds (point - 1) = x.chars ∧
    (ofDigits x.digits : ℚ) * 10 ^ x.scale = ofDigits (digitValues ds) * 10 ^ (point - ds.length) := by
  obtain ⟨d, rest, rfl⟩ := List.exists_cons_of_ne_nil hne
  refine ⟨⟨[d], rest, some (point - 1)⟩, ⟨⟨by simp, by simpa using hdigits d List.mem_cons_self,
    .inr (by simpa using hhead)⟩, fun c hc => hdigits c (List.mem_cons_of_mem _ hc), .inr rfl⟩, ?_, ?_⟩
  · cases rest <;> rfl
  · show (ofDigits (digitValues (d :: rest)) : ℚ) * 10 ^ (point - 1 - rest.length) = _
    rw [List.length_cons]
    congr 2
    push_cast
    ring

omit hhead in
/-- A point before the digits is followed by zeros. -/
theorem exists_leadingZeros (hpoint : point ≤ 0) :
    ∃ x : Spelling, x.IsDouble ∧ '0' :: '.' :: List.replicate (-point).toNat '0' ++ ds = x.chars ∧
      (ofDigits x.digits : ℚ) * 10 ^ x.scale = ofDigits (digitValues ds) * 10 ^ (point - ds.length) := by
  refine ⟨⟨['0'], List.replicate (-point).toNat '0' ++ ds, none⟩, ⟨⟨by simp, by simp, .inl rfl⟩,
    List.forall_mem_append.mpr ⟨isDigit_of_mem_zeros _, hdigits⟩, .inl (by simp [hne])⟩,
    by simp [Spelling.chars, hne], ?_⟩
  have hdigits' : ofDigits (digitValues (['0'] ++ (List.replicate (-point).toNat '0' ++ ds))) =
      ofDigits (digitValues ds) := by
    rw [digitValues_append, digitValues_append, digitValues_zeros, ← List.append_assoc, ofDigits_append,
      show digitValues ['0'] ++ List.replicate (-point).toNat 0 = List.replicate ((-point).toNat + 1) 0 from rfl,
      ofDigits_replicate_zero, zero_mul, zero_add]
  show (ofDigits (digitValues (['0'] ++ (List.replicate (-point).toNat '0' ++ ds))) : ℚ) *
    10 ^ (0 - (List.replicate (-point).toNat '0' ++ ds).length : ℤ) = _
  rw [hdigits', List.length_append, List.length_replicate]
  congr 2
  push_cast
  omega

/-- Zeros lead from the digits to a point behind them. -/
theorem exists_trailingZeros (hpoint : ¬point ≤ 0) (hlen : ds.length ≤ point.toNat) :
    ∃ x : Spelling, x.IsDouble ∧ ds ++ List.replicate (point.toNat - ds.length) '0' ++ ['.', '0'] = x.chars ∧
      (ofDigits x.digits : ℚ) * 10 ^ x.scale = ofDigits (digitValues ds) * 10 ^ (point - ds.length) := by
  refine ⟨⟨ds ++ List.replicate (point.toNat - ds.length) '0', ['0'], none⟩, ⟨⟨by simp [hne],
    List.forall_mem_append.mpr ⟨hdigits, isDigit_of_mem_zeros _⟩,
    .inr (by rwa [List.head?_append_of_ne_nil _ hne])⟩, by simp, .inl (by simp)⟩,
    by simp [Spelling.chars], ?_⟩
  show (ofDigits (digitValues (ds ++ List.replicate (point.toNat - ds.length) '0' ++ ['0'])) : ℚ) *
    10 ^ (0 - 1 : ℤ) = _
  rw [List.append_assoc, ← List.replicate_succ', digitValues_append, digitValues_zeros, ofDigits_append,
    ofDigits_replicate_zero, List.length_replicate, add_zero, Nat.cast_mul, Nat.cast_pow, mul_assoc,
    ← zpow_natCast, Nat.cast_ofNat, ← zpow_add₀ (by norm_num)]
  congr 2
  push_cast
  omega

/-- A point among the digits splits them. -/
theorem exists_split (hpoint : ¬point ≤ 0) (hlen : ¬ds.length ≤ point.toNat) :
    ∃ x : Spelling, x.IsDouble ∧ ds.take point.toNat ++ '.' :: ds.drop point.toNat = x.chars ∧
      (ofDigits x.digits : ℚ) * 10 ^ x.scale = ofDigits (digitValues ds) * 10 ^ (point - ds.length) := by
  refine ⟨⟨ds.take point.toNat, ds.drop point.toNat, none⟩,
    ⟨⟨?_, fun c hc => hdigits c (List.mem_of_mem_take hc), .inr ?_⟩,
      fun c hc => hdigits c (List.mem_of_mem_drop hc), .inl ?_⟩, ?_, ?_⟩
  · simp [hne]
    omega
  · rwa [List.head?_take, if_neg (by omega)]
  · rw [Ne, List.drop_eq_nil_iff]
    exact hlen
  · simp [Spelling.chars, hlen]
  · show (ofDigits (digitValues (ds.take point.toNat ++ ds.drop point.toNat)) : ℚ) *
      10 ^ (0 - (ds.drop point.toNat).length : ℤ) = _
    rw [List.take_append_drop, List.length_drop]
    congr 2
    omega

theorem exists_positional : ∃ x : Spelling, x.IsDouble ∧ positional ds point = x.chars ∧
    (ofDigits x.digits : ℚ) * 10 ^ x.scale = ofDigits (digitValues ds) * 10 ^ (point - ds.length) := by
  unfold positional
  split
  · rename_i hpoint
    exact exists_leadingZeros hne hdigits point hpoint
  · rename_i hpoint
    split
    · rename_i hlen
      exact exists_trailingZeros hne hdigits hhead point hpoint hlen
    · rename_i hlen
      exact exists_split hne hdigits hhead point hpoint hlen

end

/-- A decimal is written as a numeral of its value. -/
theorem exists_spelling {y : Decimal} (hy : 0 < y.coefficient) :
    ∃ x : Spelling, x.IsDouble ∧ y.plain = x.chars ∧ (ofDigits x.digits : ℚ) * 10 ^ x.scale = y.value := by
  have hvalue : y.value =
      ofDigits (digitValues (digitsOf y.coefficient)) *
        10 ^ (y.exponent + (digitsOf y.coefficient).length - (digitsOf y.coefficient).length) := by
    rw [ofDigits_digitsOf, add_sub_cancel_right, value]
  rw [hvalue]
  unfold plain
  dsimp only
  split
  · exact exists_scientific (digitsOf_ne_nil _) (fun c => isDigit_of_mem_digitsOf) (head?_digitsOf hy) _
  · exact exists_positional (digitsOf_ne_nil _) (fun c => isDigit_of_mem_digitsOf) (head?_digitsOf hy) _

/-- A finite double is written as a numeral that is read as the double. -/
theorem exists_spelling_of_decode {x : Float} {v : Finite} (hx : decode x = .finite v) :
    ∃ y : Spelling, y.IsDouble ∧ (Binary64.text x).toList = signed v.negative y.chars ∧
      scaled v.negative y.digits y.scale = x := by
  have htext : (Binary64.text x).toList = signed v.negative v.decimal.plain := by
    rw [Binary64.text, hx]
    exact String.toList_ofList
  rw [htext, Finite.decimal]
  split
  · rename_i hm
    have hzero : ∀ c ∈ ['0'], c.isDigit = true := List.forall_mem_singleton.mpr rfl
    exact ⟨⟨['0'], ['0'], none⟩, ⟨⟨by simp, hzero, .inl rfl⟩, hzero, .inl (by simp)⟩, rfl,
      (scaled_of_zero _ (by decide) _).trans (ofRatio_zero hx hm)⟩
  · rename_i hm
    have hpos := Nat.pos_of_ne_zero hm
    have howns := owns_shortest (bits_of_decode hx).1 hpos
    have hcoefficient : 0 < (shortest v.mantissa v.exponent).coefficient := by
      refine Nat.pos_of_ne_zero fun hzero => (howns.pos hpos).ne' ?_
      rw [value, hzero, Nat.cast_zero, zero_mul]
    obtain ⟨y, hdouble, hchars, hvalue⟩ := exists_spelling hcoefficient
    have hdigits : ∀ d ∈ y.digits, d < 10 :=
      lt_of_mem_digitValues (List.forall_mem_append.mpr ⟨hdouble.isWhole.digits, hdouble.digits⟩)
    exact ⟨y, hdouble, by rw [hchars], scaled_of_owns hx hpos hdigits (hvalue ▸ howns)⟩

/-- The text of a finite double reads back as the double. -/
theorem readNumber_text {x : Float} {v : Finite} (hx : decode x = .finite v) (hrest : EndsNumber rest) :
    readNumber ((Binary64.text x).toList ++ rest) = .ok (some (.float x, rest)) := by
  obtain ⟨y, hdouble, htext, hread⟩ := exists_spelling_of_decode hx
  rw [htext, signed_append, Spelling.readNumber_chars hdouble _ hrest, hread]

end Pagewright.Json
