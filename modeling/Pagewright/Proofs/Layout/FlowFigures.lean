import Pagewright.Layout.FlowPages
import Pagewright.Proofs.Layout.Returns
import Pagewright.Proofs.Number.Bounds
import Pagewright.Proofs.Number.Comparison

/-!
# The figures of a flowing text

The sizes that a flowing text is set in are numbers above zero, whole or not (`Value.IsMeasure`); what follows from them
is calculated in doubles. Each step of the calculation has a result just when that is within the range of doubles
(`lineHeightOf_eq_ok`, `columnWidthIn_eq_ok`, `returns_linesIn_iff`), apart from division by zero (`quotient_eq_ok`).

The width of a character is never rounded to zero (`charWidth_pos`). A line height that follows from the font size is,
for font sizes below `leastSize` (`one_le_derivedLine_iff`).
-/

namespace Pagewright

open Binary64

/-! ## Numbers above zero -/

namespace Value

variable {v : Value} {x : Float} {n : ℤ}

/-- A number above zero, whole or a finite double. -/
inductive IsMeasure : Value → Prop
  | int {n : ℤ} (hpos : 0 < n) : IsMeasure (.int n)
  | float {x : Float} (hx : IsFinite x) (hpos : 0 < toRat x) : IsMeasure (.float x)

/-- The double nearest to a number, which is infinite where the number is too large. -/
def nearestFloat : Value → Float
  | int n => ofRatio (n < 0) n.natAbs 1
  | float x => x
  | _ => 0

theorem isNearest_nearestFloat (n : ℤ) : IsNearest (nearestFloat (int n)) n := isNearest_ofRatio_intCast n

theorem toNumber_int_eq_ok : (int n).toNumber = .ok x ↔ n.natAbs < limit ∧ x = nearestFloat (int n) := by
  simp only [toNumber, toFloat, ofInt?_eq]
  split_ifs with hn
  · simp [hn, nearestFloat, eq_comm]
  · simp [hn, undefinedOn]

theorem IsMeasure.toNumber_eq_ok (hv : v.IsMeasure) :
    v.toNumber = .ok x ↔ IsFinite v.nearestFloat ∧ x = v.nearestFloat := by
  cases hv with
  | int hpos => rw [toNumber_int_eq_ok, (isNearest_nearestFloat _).isFinite_intCast_iff]
  | float hx hpos =>
    show Except.ok _ = Except.ok x ↔ _
    rw [Except.ok.injEq, nearestFloat, and_iff_right hx, eq_comm]

theorem beq_zero_iff (hx : IsFinite x) : (x == 0) = true ↔ toRat x = 0 := by
  have hzero : decode 0 = .finite ⟨false, 0, minExponent⟩ := by decide +kernel
  rw [beq_iff_toRat hx ⟨_, hzero⟩, toRat_of_decode hzero, Finite.toRat_eq, Finite.magnitude_of_zero rfl, mul_zero]

theorem IsMeasure.isGiven (hv : v.IsMeasure) : v.isGiven = true := by
  cases hv with
  | int hpos => simpa [Value.isGiven] using hpos.ne'
  | float hx hpos =>
    rw [Value.isGiven, bne, Bool.not_eq_true', Bool.eq_false_iff, Ne, beq_zero_iff hx]
    exact hpos.ne'

theorem one_le_toRat_int (hn : 1 ≤ n) (hfinite : IsFinite (nearestFloat (int n))) :
    1 ≤ toRat (nearestFloat (int n)) := by
  have hone : nearest 1 ≤ nearest n := nearest_mono hn
  rw [(isNearest_nearestFloat n).toRat_intCast hfinite]
  exact_mod_cast hone

theorem toRat_int_ne_zero_iff (hn : 0 ≤ n) (hfinite : IsFinite (nearestFloat (int n))) :
    toRat (nearestFloat (int n)) ≠ 0 ↔ 1 ≤ n := by
  constructor
  · rw [(isNearest_nearestFloat n).toRat_intCast hfinite]
    intro hne
    by_contra! hlt
    obtain rfl : n = 0 := by omega
    exact hne rfl
  · exact fun hone => (zero_lt_one.trans_le (one_le_toRat_int hone hfinite)).ne'

theorem IsMeasure.toRat_pos (hv : v.IsMeasure) (hfinite : IsFinite v.nearestFloat) : 0 < toRat v.nearestFloat := by
  cases hv with
  | float hx hpos => exact hpos
  | int hpos => exact zero_lt_one.trans_le (one_le_toRat_int hpos hfinite)

end Value

namespace FlowPages

variable {e : Element} {style : Style} {text : Value} {columns : ℕ} {gap : Option Float} {data : Value} {t : Template}
  {width height a b x : Float} {s : String}

/-! ## Figures -/

/-- The font size. -/
def sizeOf (style : Style) : Float := (style.size.orElse defaultFontSize).nearestFloat

/-- What a font size makes the line height, before the fraction is cut off. -/
def derivedLine (size : Float) : Float := size * lineHeightFactor + 0.5

/-- The line height. -/
def lineOf (style : Style) : Value :=
  if style.lineHeight.isGiven then style.lineHeight else .int ⌊toRat (derivedLine (sizeOf style))⌋

/-- The gap between columns. -/
def gapOf (gap : Option Float) : Value := ((gap.map Value.float).getD .null).orElse defaultGap

/-- The width of the gaps between `columns` columns. -/
def gapsOf (gap : Option Float) (columns : ℕ) : Float :=
  match gapOf gap with
  | .int n => Value.nearestFloat (.int (n * (columns - 1)))
  | gap => gap.nearestFloat * Value.nearestFloat (.int (columns - 1))

/-- The width of a column. -/
def columnOf (width : Float) (gap : Option Float) (columns : ℕ) : Float :=
  if columns > 1 then (width - gapsOf gap columns) / Value.nearestFloat (.int columns) else width

/-- The width that an element has or a region leaves. -/
def extent (own region start : Float) : Float := if own > 0 then own else region - start

theorem gapOf_eq (gap : Option Float) : gapOf gap = .int 12 ∨ ∃ x ∈ gap, gapOf gap = .float x := by
  cases gap with
  | none => exact .inl rfl
  | some x =>
    unfold gapOf Value.orElse
    rw [Option.map_some, Option.getD_some]
    split
    · exact .inr ⟨x, rfl, rfl⟩
    · exact .inl rfl

/-! ## Operations -/

theorem quotient_eq_ok (hb : IsFinite b) : quotient a b = .ok x ↔ toRat b ≠ 0 ∧ x = a / b := by
  unfold quotient
  by_cases hzero : toRat b = 0
  · rw [if_pos ((Value.beq_zero_iff hb).mpr hzero)]
    simp [hzero, undefinedOn]
  · rw [if_neg (mt (Value.beq_zero_iff hb).mp hzero)]
    simp [hzero, eq_comm]

theorem isFinite_iff_floor? : IsFinite x ↔ (floor? x).isSome = true := by
  unfold floor? IsFinite
  cases decode x <;> simp

theorem returns_limitOf_iff : Outcome.Returns (Wrap.limitOf x) ↔ IsFinite x := by
  rw [isFinite_iff_floor?, Wrap.limitOf]
  cases floor? x <;> simp [undefinedOn]

theorem returns_linesIn_iff : Outcome.Returns (Wrap.linesIn x s) ↔ s = "" ∨ IsFinite x := by
  unfold Wrap.linesIn
  by_cases hs : s = ""
  · subst hs
    simp
  · have hempty : s.isEmpty = false := by simpa using hs
    rw [hempty, if_neg Bool.false_ne_true, or_iff_right hs, ← returns_limitOf_iff]
    exact ⟨Outcome.Returns.of_bind, fun h => h.bind fun _ _ => Outcome.returns_pure _⟩

/-- The width of gaps is too large to be a double only where the gap is not given. -/
theorem gapsWidth_eq_ok (hpos : 0 < columns) (hcolumns : columns < limit) : gapsWidth (gapOf gap) columns = .ok x ↔
    (gapOf gap = .int 12 → 12 * (columns - 1) < limit) ∧ x = gapsOf gap columns := by
  unfold gapsOf
  rcases gapOf_eq gap with hgap | ⟨g, -, hgap⟩
  · rw [hgap]
    show (Value.int (12 * (columns - 1))).toNumber = .ok x ↔ _
    have hnatAbs : (12 * ((columns : ℤ) - 1)).natAbs = 12 * (columns - 1) := by omega
    rw [Value.toNumber_int_eq_ok, hnatAbs]
    simp
  · rw [hgap]
    have hbelow : ((columns : ℤ) - 1).natAbs < limit := by omega
    have hnumber := (Value.toNumber_int_eq_ok (x := Value.nearestFloat (.int (columns - 1)))).mpr ⟨hbelow, rfl⟩
    show (do return g * (← (Value.int (columns - 1)).toNumber)) = Except.ok x ↔ _
    rw [hnumber]
    simp [Value.nearestFloat, eq_comm]

theorem columnWidthIn_eq_ok (hpos : 0 < columns) (hcolumns : columns < limit) :
    columnWidthIn width (gapOf gap) columns = .ok x ↔
      (1 < columns → gapOf gap = .int 12 → 12 * (columns - 1) < limit) ∧ x = columnOf width gap columns := by
  unfold columnWidthIn columnOf
  by_cases hmany : 1 < columns
  · have hmeasure : (Value.int columns).IsMeasure := .int (by exact_mod_cast hpos)
    have hnumber := (Value.toNumber_int_eq_ok (n := columns)).mpr ⟨by rwa [Int.natAbs_natCast], rfl⟩
    have hfinite := (hmeasure.toNumber_eq_ok.mp hnumber).1
    rw [if_pos hmany, if_pos hmany]
    simp only [Outcome.bind_eq_ok, gapsWidth_eq_ok hpos hcolumns, hnumber, Except.ok.injEq, exists_eq_left',
      quotient_eq_ok hfinite, hmany, forall_const]
    constructor
    · rintro ⟨g, ⟨hgaps, rfl⟩, -, rfl⟩
      exact ⟨hgaps, rfl⟩
    · rintro ⟨hgaps, rfl⟩
      exact ⟨_, ⟨hgaps, rfl⟩, (hmeasure.toRat_pos hfinite).ne', rfl⟩
  · rw [if_neg hmany, if_neg hmany]
    simp [hmany, eq_comm]

theorem roundHalfUp_eq_ok {n : ℤ} : roundHalfUp x = .ok n ↔ IsFinite (x + 0.5) ∧ n = ⌊toRat (x + 0.5)⌋ := by
  unfold roundHalfUp
  by_cases hx : IsFinite (x + 0.5)
  · rw [floor?_eq hx]
    simp [hx, eq_comm]
  · have hnone : floor? (x + 0.5) = none := by
      rwa [isFinite_iff_floor?, Option.not_isSome_iff_eq_none] at hx
    rw [hnone]
    simp [hx, undefinedOn]

theorem lineHeightOf_eq_ok {v : Value} (hsize : (style.size.orElse defaultFontSize).IsMeasure)
    (hfinite : IsFinite (sizeOf style)) :
    lineHeightOf style (style.size.orElse defaultFontSize) = .ok v ↔
      (style.lineHeight.isGiven = false → IsFinite (derivedLine (sizeOf style))) ∧ v = lineOf style := by
  unfold lineHeightOf lineOf
  by_cases hgiven : style.lineHeight.isGiven = true
  · rw [if_pos hgiven, if_pos hgiven]
    simp [hgiven, eq_comm]
  · rw [if_neg hgiven, if_neg hgiven, hsize.toNumber_eq_ok.mpr ⟨hfinite, rfl⟩]
    simp only [Outcome.ok_bind, Outcome.bind_eq_ok, roundHalfUp_eq_ok, Outcome.pure_eq_ok, Except.ok.injEq]
    constructor
    · rintro ⟨n, ⟨hline, rfl⟩, rfl⟩
      exact ⟨fun _ => hline, rfl⟩
    · rintro ⟨hline, rfl⟩
      exact ⟨_, ⟨hline (Bool.eq_false_iff.mpr hgiven), rfl⟩, rfl⟩

theorem toNumber_lineOf_eq_ok (hline : style.lineHeight = .null ∨ style.lineHeight.IsMeasure) :
    (lineOf style).toNumber = .ok x ↔ IsFinite (lineOf style).nearestFloat ∧ x = (lineOf style).nearestFloat := by
  unfold lineOf
  rcases hline with hnull | hmeasure
  · rw [hnull, Value.isGiven, if_neg Bool.false_ne_true, Value.toNumber_int_eq_ok,
      (Value.isNearest_nearestFloat _).isFinite_intCast_iff]
  · rw [if_pos hmeasure.isGiven, hmeasure.toNumber_eq_ok]

theorem isMeasure_size (hsize : style.size = .null ∨ style.size.IsMeasure) :
    (style.size.orElse defaultFontSize).IsMeasure := by
  rcases hsize with hnull | hmeasure
  · rw [hnull]
    exact .int (by decide)
  · rwa [Value.orElse, if_pos hmeasure.isGiven]

/-! ## Widths of characters -/

theorem charWidthFactor_bounds :
    IsFinite charWidthFactor ∧ 1 / 2 < toRat charWidthFactor ∧ toRat charWidthFactor < 1 := by
  have hdecode : decode charWidthFactor = .finite ⟨false, 4953959590107546, -53⟩ := by decide +kernel
  refine ⟨⟨_, hdecode⟩, ?_⟩
  rw [toRat_of_decode_positive hdecode]
  norm_num

/-- The width of a character is above zero. -/
theorem charWidth_pos {size : Float} (hfinite : IsFinite size) (hpos : 0 < toRat size) :
    IsFinite (size * charWidthFactor) ∧ 0 < toRat (size * charWidthFactor) := by
  obtain ⟨hfactor, hlow, hhigh⟩ := charWidthFactor_bounds
  have hnearest := isNearest_mul hfinite hfactor
  have hlimit := hfinite.abs_lt
  have hleast := hfinite.two_zpow_minExponent_le hpos
  rw [abs_of_pos hpos] at hlimit
  have hproduct : IsFinite (size * charWidthFactor) := by
    rw [hnearest.isFinite_iff, abs_of_pos (by positivity)]
    nlinarith
  refine ⟨hproduct, hnearest.toRat_pos hproduct ?_⟩
  calc (2 : ℚ) ^ minExponent / 2 ≤ toRat size * (1 / 2) := by linarith
    _ < toRat size * toRat charWidthFactor := mul_lt_mul_of_pos_left hlow hpos

/-! ## Line heights that follow from the font size -/

/-- Font sizes from here on have a line height above zero. It is the greatest double below 5/12. -/
def leastSize : ℚ := 7505999378950826 * 2 ^ (-54 : ℤ)

theorem lineHeightFactor_bounds :
    IsFinite lineHeightFactor ∧ 0 < toRat lineHeightFactor ∧ toRat lineHeightFactor < 2 := by
  have hdecode : decode lineHeightFactor = .finite ⟨false, 5404319552844595, -52⟩ := by decide +kernel
  refine ⟨⟨_, hdecode⟩, ?_⟩
  rw [toRat_of_decode_positive hdecode]
  norm_num

theorem toRat_half : IsFinite 0.5 ∧ toRat 0.5 = 1 / 2 := by
  have hdecode : decode 0.5 = .finite ⟨false, 4503599627370496, -53⟩ := by decide +kernel
  refine ⟨⟨_, hdecode⟩, ?_⟩
  rw [toRat_of_decode_positive hdecode]
  norm_num

theorem isFinite_mul_lineHeightFactor (ha : IsFinite a) (hpos : 0 < toRat a) (hline : IsFinite (derivedLine a)) :
    IsFinite (a * lineHeightFactor) := by
  obtain ⟨hfactor, hfactorPos, -⟩ := lineHeightFactor_bounds
  have hnearest := isNearest_mul ha hfactor
  by_contra hinfinite
  rw [hnearest.isFinite_iff, not_lt] at hinfinite
  obtain ⟨v, hv⟩ := hline
  rw [derivedLine, hnearest.eq_infinity hinfinite, if_neg (mul_pos hpos hfactorPos).not_gt] at hv
  have hinfinity : decode (infinity + 0.5) = .infinite false := by decide +kernel
  rw [hinfinity] at hv
  cases hv

theorem isNearest_derivedLine (ha : IsFinite a) (hpos : 0 < toRat a) (hline : IsFinite (derivedLine a)) :
    IsNearest (derivedLine a) (toRat (a * lineHeightFactor) + 1 / 2) := by
  rw [← toRat_half.2]
  exact isNearest_add (isFinite_mul_lineHeightFactor ha hpos hline) toRat_half.1

theorem derivedLine_nonneg (ha : IsFinite a) (hpos : 0 < toRat a) (hline : IsFinite (derivedLine a)) :
    0 ≤ toRat (derivedLine a) := by
  obtain ⟨hfactor, hfactorPos, -⟩ := lineHeightFactor_bounds
  have hproduct := (isNearest_mul ha hfactor).toRat_nonneg (isFinite_mul_lineHeightFactor ha hpos hline)
    (mul_pos hpos hfactorPos).le
  exact (isNearest_derivedLine ha hpos hline).toRat_nonneg hline (by linarith)

theorem derivedLine_mono (ha : IsFinite a) (hpos : 0 < toRat a) (hb : IsFinite b) (hlineA : IsFinite (derivedLine a))
    (hlineB : IsFinite (derivedLine b)) (hab : toRat a ≤ toRat b) :
    toRat (derivedLine a) ≤ toRat (derivedLine b) := by
  obtain ⟨hfactor, hfactorPos, -⟩ := lineHeightFactor_bounds
  have hposB := hpos.trans_le hab
  have hproduct := (isNearest_mul ha hfactor).toRat_le (isNearest_mul hb hfactor)
    (isFinite_mul_lineHeightFactor ha hpos hlineA) (isFinite_mul_lineHeightFactor hb hposB hlineB)
    (mul_le_mul_of_nonneg_right hab hfactorPos.le)
  exact (isNearest_derivedLine ha hpos hlineA).toRat_le (isNearest_derivedLine hb hposB hlineB) hlineA hlineB
    (by linarith)

/-- Font sizes below 5/12 or so have a line height that is rounded to zero. -/
theorem one_le_derivedLine_iff (ha : IsFinite a) (hpos : 0 < toRat a) (hline : IsFinite (derivedLine a)) :
    1 ≤ toRat (derivedLine a) ↔ leastSize ≤ toRat a := by
  -- the least font size and the double before it
  have hleast : decode (ofRatio false 7505999378950826 (2 ^ 54)) = .finite ⟨false, 7505999378950826, -54⟩ := by
    decide +kernel
  have hpred : decode (ofRatio false 7505999378950825 (2 ^ 54)) = .finite ⟨false, 7505999378950825, -54⟩ := by
    decide +kernel
  have hleastLine : decode (derivedLine (ofRatio false 7505999378950826 (2 ^ 54))) =
      .finite ⟨false, 4503599627370496, -52⟩ := by decide +kernel
  have hpredLine : decode (derivedLine (ofRatio false 7505999378950825 (2 ^ 54))) =
      .finite ⟨false, 9007199254740991, -53⟩ := by decide +kernel
  constructor
  · intro hone
    by_contra! hlt
    have hbelow := le_pred_of_lt ha (by decide : Binary64.hidden < 7505999378950826) hlt
    have hvalue : toRat (ofRatio false 7505999378950825 (2 ^ 54)) = (7505999378950826 - 1) * 2 ^ (-54 : ℤ) := by
      rw [toRat_of_decode_positive hpred]
      norm_num
    have hmono := derivedLine_mono ha hpos ⟨_, hpred⟩ hline ⟨_, hpredLine⟩ (hvalue ▸ hbelow)
    rw [toRat_of_decode_positive hpredLine] at hmono
    norm_num at hmono
    linarith
  · intro hle
    have hvalue : toRat (ofRatio false 7505999378950826 (2 ^ 54)) = leastSize := toRat_of_decode_positive hleast
    have hmono := derivedLine_mono ⟨_, hleast⟩ (by rw [hvalue, leastSize]; positivity) ha ⟨_, hleastLine⟩ hline
      (hvalue.trans_le hle)
    rw [toRat_of_decode_positive hleastLine] at hmono
    norm_num at hmono
    exact hmono

end FlowPages

end Pagewright
