import Pagewright.Proofs.Layout.FlowFigures
import Pagewright.Template.Reader

/-!
# Flowing texts of any size

A flowing text whose font size and line height are missing or above zero is dealt out to pages just when no figure is
beyond the range of doubles (`FlowPages.Fits`) and the line height is not rounded to zero, which it can only be where it
follows from a font size below 5/12 or so (`FlowPages.returns_ofFlow_iff`). The figures fit where the measurements are
moderate (`FlowPages.IsModerate.fits`).
-/

namespace Pagewright

open Binary64

namespace FlowPages

variable {e : Element} {style : Style} {text : Value} {columns : ℕ} {gap : Option Float} {data : Value} {t : Template}
  {width height x : Float} {s : String}

/-! ## Room -/

/-- No figure is beyond the range of doubles, the font size and the line height of the style included. -/
structure Fits (e : Element) (style : Style) (columns : ℕ) (gap : Option Float) (width height : Float) (s : String) :
    Prop where
  size : IsFinite (sizeOf style)
  derived : style.lineHeight.isGiven = false → IsFinite (derivedLine (sizeOf style))
  line : IsFinite (lineOf style).nearestFloat
  gaps : 1 < columns → gapOf gap = .int 12 → 12 * (columns - 1) < limit
  chars : s ≠ "" → IsFinite (columnOf (extent e.w width e.x) gap columns / (sizeOf style * charWidthFactor))
  lines : toRat (lineOf style).nearestFloat ≠ 0 →
    IsFinite (extent e.h height e.y / (lineOf style).nearestFloat)

section Fits

variable (hpos : 0 < columns) (hcolumns : columns < limit) (hstyle : t.resolveStyle e true = .ok style)
  (hsize : style.size = .null ∨ style.size.IsMeasure) (hline : style.lineHeight = .null ∨ style.lineHeight.IsMeasure)
  (htext : Binding.substituteValue text data Binding.noPage = .ok s)

include hpos hcolumns hstyle hsize hline htext

theorem fits_of_returns (h : Outcome.Returns (ofFlow e text columns gap data t width height)) :
    toRat (lineOf style).nearestFloat ≠ 0 ∧ Fits e style columns gap width height s := by
  have hmeasure := isMeasure_size hsize
  obtain ⟨flow, h⟩ := h
  simp only [ofFlow, hstyle, htext, if_neg hpos.ne', Outcome.ok_bind] at h
  obtain ⟨line, hline', h⟩ := Outcome.bind_eq_ok.mp h
  obtain ⟨columnWidth, hwidth, h⟩ := Outcome.bind_eq_ok.mp h
  obtain ⟨size, hsize', h⟩ := Outcome.bind_eq_ok.mp h
  obtain ⟨maxChars, hmax, h⟩ := Outcome.bind_eq_ok.mp h
  obtain ⟨lines, hlines, h⟩ := Outcome.bind_eq_ok.mp h
  obtain ⟨lineSize, hlineSize, h⟩ := Outcome.bind_eq_ok.mp h
  obtain ⟨fit, hfit, h⟩ := Outcome.bind_eq_ok.mp h
  obtain ⟨room, hroom, -⟩ := Outcome.bind_eq_ok.mp h
  obtain ⟨hfinite, rfl⟩ := hmeasure.toNumber_eq_ok.mp hsize'
  obtain ⟨hderived, rfl⟩ := (lineHeightOf_eq_ok hmeasure hfinite).mp hline'
  obtain ⟨hgaps, rfl⟩ := (columnWidthIn_eq_ok hpos hcolumns).mp hwidth
  obtain ⟨hlineFinite, rfl⟩ := (toNumber_lineOf_eq_ok hline).mp hlineSize
  obtain ⟨-, rfl⟩ := (quotient_eq_ok (charWidth_pos hfinite (hmeasure.toRat_pos hfinite)).1).mp hmax
  obtain ⟨hne, rfl⟩ := (quotient_eq_ok hlineFinite).mp hfit
  refine ⟨hne, hfinite, hderived, hlineFinite, hgaps, fun hs => ?_, fun _ => returns_limitOf_iff.mp ⟨room, hroom⟩⟩
  exact (returns_linesIn_iff.mp ⟨lines, hlines⟩).resolve_left hs

/-- Where the figures fit, all goes well up to the division by the line height, and from there on if the quotient is
finite. -/
theorem exists_ofFlow_eq (hfits : Fits e style columns gap width height s) :
    ∃ rest : Float → Outcome FlowPages, ofFlow e text columns gap data t width height =
        (quotient (extent e.h height e.y) (lineOf style).nearestFloat >>= rest) ∧
      ∀ a, IsFinite a → Outcome.Returns (rest a) := by
  have hmeasure := isMeasure_size hsize
  obtain ⟨hchar, hcharPos⟩ := charWidth_pos hfits.size (hmeasure.toRat_pos hfits.size)
  have hline' := (lineHeightOf_eq_ok hmeasure hfits.size).mpr ⟨hfits.derived, rfl⟩
  have hwidth : columnWidthIn (if e.w > 0 then e.w else width - e.x) (((gap.map Value.float).getD .null).orElse
      defaultGap) columns = .ok (columnOf (extent e.w width e.x) gap columns) :=
    (columnWidthIn_eq_ok hpos hcolumns).mpr ⟨hfits.gaps, rfl⟩
  have hsize' : (style.size.orElse defaultFontSize).toNumber = .ok (sizeOf style) :=
    hmeasure.toNumber_eq_ok.mpr ⟨hfits.size, rfl⟩
  have hmax := (quotient_eq_ok (a := columnOf (extent e.w width e.x) gap columns) hchar).mpr ⟨hcharPos.ne', rfl⟩
  have hlineSize := (toNumber_lineOf_eq_ok hline).mpr ⟨hfits.line, rfl⟩
  obtain ⟨lines, hlines⟩ := returns_linesIn_iff.mpr (or_iff_not_imp_left.mpr hfits.chars)
  simp only [ofFlow, hstyle, if_neg hpos.ne', hline', hwidth, hsize', hmax, htext, hlines, hlineSize, Outcome.ok_bind]
  exact ⟨_, rfl, fun a ha => (returns_limitOf_iff.mpr ha).bind fun _ _ => Outcome.returns_pure _⟩

/-- A flowing text is dealt out just when its figures fit and the line height is not zero. -/
theorem returns_ofFlow_iff_fits : Outcome.Returns (ofFlow e text columns gap data t width height) ↔
    toRat (lineOf style).nearestFloat ≠ 0 ∧ Fits e style columns gap width height s := by
  refine ⟨fits_of_returns hpos hcolumns hstyle hsize hline htext, fun ⟨hne, hfits⟩ => ?_⟩
  obtain ⟨rest, heq, hrest⟩ := exists_ofFlow_eq hpos hcolumns hstyle hsize hline htext hfits
  rw [heq, (quotient_eq_ok hfits.line).mpr ⟨hne, rfl⟩]
  exact hrest _ (hfits.lines hne)

theorem ofFlow_eq_divisionByZero (hfits : Fits e style columns gap width height s)
    (hzero : toRat (lineOf style).nearestFloat = 0) :
    ofFlow e text columns gap data t width height = undefinedOn .divisionByZero := by
  obtain ⟨rest, heq, -⟩ := exists_ofFlow_eq hpos hcolumns hstyle hsize hline htext hfits
  rw [heq, quotient, if_pos ((Value.beq_zero_iff hfits.line).mpr hzero)]
  rfl

end Fits

theorem isGiven_lineHeight (hline : style.lineHeight = .null ∨ style.lineHeight.IsMeasure) :
    style.lineHeight.isGiven = true ↔ style.lineHeight ≠ .null := by
  rcases hline with hnull | hmeasure
  · simp [hnull, Value.isGiven]
  · exact iff_of_true hmeasure.isGiven fun hnull => by simpa [hnull, Value.isGiven] using hmeasure.isGiven

/-- The line height is zero just where it follows from too small a font size. -/
theorem toRat_lineOf_ne_zero_iff (hsize : style.size = .null ∨ style.size.IsMeasure)
    (hline : style.lineHeight = .null ∨ style.lineHeight.IsMeasure)
    (hfits : Fits e style columns gap width height s) :
    toRat (lineOf style).nearestFloat ≠ 0 ↔ style.lineHeight ≠ .null ∨ leastSize ≤ toRat (sizeOf style) := by
  have hfinite := hfits.line
  unfold lineOf at hfinite ⊢
  by_cases hgiven : style.lineHeight.isGiven = true
  · have hnull := (isGiven_lineHeight hline).mp hgiven
    rw [if_pos hgiven] at hfinite ⊢
    exact iff_of_true ((hline.resolve_left hnull).toRat_pos hfinite).ne' (.inl hnull)
  · have hnull := mt (isGiven_lineHeight hline).mpr hgiven
    rw [if_neg hgiven] at hfinite ⊢
    have hpos := (isMeasure_size hsize).toRat_pos hfits.size
    have hderived := hfits.derived (Bool.eq_false_iff.mpr hgiven)
    have hfloor := Int.floor_nonneg.mpr (derivedLine_nonneg hfits.size hpos hderived)
    rw [or_iff_right hnull, ← one_le_derivedLine_iff hfits.size hpos hderived,
      Value.toRat_int_ne_zero_iff hfloor hfinite, Int.le_floor, Int.cast_one]

/-! ## Moderate measurements -/

/-- A measurement that is neither too large nor, where it is a size, too small. -/
structure IsModerateSize (x : Float) : Prop extends IsWithin 200 x where
  le : 2 ^ (-200 : ℤ) ≤ toRat x

/-- Measurements with which no figure gets beyond the range of doubles. -/
structure IsModerate (e : Element) (style : Style) (columns : ℕ) (gap : Option Float) (width height : Float) :
    Prop where
  size : IsModerateSize (sizeOf style)
  line : style.lineHeight.isGiven = true → IsModerateSize style.lineHeight.nearestFloat
  place : ∀ x ∈ [e.x, e.y, e.w, e.h, width, height], IsWithin 200 x
  gap : ∀ x ∈ gap, IsWithin 200 x
  columns : columns ≤ 2 ^ 200

theorem IsWithin.extent {own region start : Float} (hown : IsWithin 200 own) (hregion : IsWithin 200 region)
    (hstart : IsWithin 200 start) : IsWithin 201 (extent own region start) := by
  unfold FlowPages.extent
  split
  · exact hown.mono (by decide)
  · exact hregion.sub hstart (by decide) (by decide)

theorem isWithin_nearestFloat {n k : ℤ} (hk : 0 ≤ k) (hk' : k < 1024) (hn : |(n : ℚ)| ≤ 2 ^ k) :
    IsWithin k (Value.nearestFloat (.int n)) :=
  .of_isNearest (Value.isNearest_nearestFloat n) (hk.trans' (by decide)) hk' hn

theorem isWithin_gapsOf (hgap : ∀ x ∈ gap, IsWithin 200 x) (hpos : 0 < columns) (hcolumns : columns ≤ 2 ^ 200) :
    IsWithin 400 (gapsOf gap columns) := by
  have hbetween : |((columns - 1 : ℤ) : ℚ)| ≤ 2 ^ (200 : ℤ) := by
    have hnonneg : (0 : ℤ) ≤ columns - 1 := by omega
    have hle : (columns - 1 : ℤ) ≤ 2 ^ 200 := by omega
    rw [abs_of_nonneg (by exact_mod_cast hnonneg)]
    exact_mod_cast hle
  unfold gapsOf
  rcases gapOf_eq gap with hdefault | ⟨g, hg, hgiven⟩
  · rw [hdefault]
    refine isWithin_nearestFloat (by decide) (by decide) ?_
    rw [Int.cast_mul, abs_mul]
    calc |((12 : ℤ) : ℚ)| * |((columns - 1 : ℤ) : ℚ)| ≤ |((12 : ℤ) : ℚ)| * 2 ^ (200 : ℤ) :=
          mul_le_mul_of_nonneg_left hbetween (abs_nonneg _)
      _ ≤ 2 ^ (4 : ℤ) * 2 ^ (200 : ℤ) := mul_le_mul_of_nonneg_right (by norm_num) (by positivity)
      _ = 2 ^ (204 : ℤ) := by rw [← zpow_add₀ two_ne_zero]; rfl
      _ ≤ 2 ^ (400 : ℤ) := zpow_le_zpow_right₀ one_le_two (by decide)
  · rw [hgiven]
    exact (hgap g hg).mul (isWithin_nearestFloat (by decide) (by decide) hbetween) (by decide) (by decide)

theorem isWithin_columnOf (hwidth : IsWithin 201 width) (hgap : ∀ x ∈ gap, IsWithin 200 x) (hpos : 0 < columns)
    (hcolumns : columns ≤ 2 ^ 200) : IsWithin 401 (columnOf width gap columns) := by
  unfold columnOf
  split
  · have hcount : IsWithin 200 (Value.nearestFloat (.int columns)) := by
      refine isWithin_nearestFloat (by decide) (by decide) ?_
      rw [Int.cast_natCast, abs_of_nonneg (Nat.cast_nonneg _)]
      exact_mod_cast hcolumns
    have hone : (2 : ℚ) ^ (0 : ℤ) ≤ toRat (Value.nearestFloat (.int columns)) := by
      rw [zpow_zero]
      exact Value.one_le_toRat_int (by exact_mod_cast hpos) hcount.isFinite
    have hspace := (hwidth.mono (by decide)).sub (isWithin_gapsOf hgap hpos hcolumns) (by decide) (by decide)
    exact hspace.div hcount.isFinite hone (by decide) (by decide)
  · exact hwidth.mono (by decide)

theorem isWithin_derivedLine (hsize : IsWithin 200 x) : IsWithin 202 (derivedLine x) := by
  have hfactor : IsWithin 1 lineHeightFactor :=
    ⟨lineHeightFactor_bounds.1, by
      rw [abs_of_pos lineHeightFactor_bounds.2.1, zpow_one]
      exact lineHeightFactor_bounds.2.2.le⟩
  have hhalf : IsWithin 201 0.5 :=
    ⟨toRat_half.1, by
      rw [toRat_half.2, abs_of_pos one_half_pos]
      exact one_half_lt_one.le.trans (one_le_zpow₀ one_le_two (by decide))⟩
  exact (hsize.mul hfactor (by decide) (by decide)).add hhalf (by decide) (by decide)

theorem two_zpow_le_charWidth (hsize : IsModerateSize x) : 2 ^ (-201 : ℤ) ≤ toRat (x * charWidthFactor) := by
  obtain ⟨hfactor, hlow, -⟩ := charWidthFactor_bounds
  have hpos : 0 < toRat x := lt_of_lt_of_le (by positivity) hsize.le
  have hfinite := (charWidth_pos hsize.isFinite hpos).1
  refine (isNearest_mul hsize.isFinite hfactor).two_zpow_le hfinite (by decide) (by decide) ?_
  calc (2 : ℚ) ^ (-201 : ℤ) = 2 ^ (-200 : ℤ) * (1 / 2) := by
        rw [one_div, ← zpow_sub_one₀ two_ne_zero]; rfl
    _ ≤ toRat x * toRat charWidthFactor := mul_le_mul hsize.le hlow.le (by norm_num) hpos.le

/-- A moderate line height, given or not, is not close to zero unless it is zero. -/
theorem IsModerate.line_spec (h : IsModerate e style columns gap width height) :
    IsFinite (lineOf style).nearestFloat ∧
      (toRat (lineOf style).nearestFloat ≠ 0 → 2 ^ (-200 : ℤ) ≤ toRat (lineOf style).nearestFloat) := by
  unfold lineOf
  by_cases hgiven : style.lineHeight.isGiven = true
  · rw [if_pos hgiven]
    exact ⟨(h.line hgiven).isFinite, fun _ => (h.line hgiven).le⟩
  · rw [if_neg hgiven]
    have hpos : 0 < toRat (sizeOf style) := lt_of_lt_of_le (by positivity) h.size.le
    have hderived := isWithin_derivedLine h.size.toIsWithin
    have hnonneg := Int.floor_nonneg.mpr (derivedLine_nonneg h.size.isFinite hpos hderived.isFinite)
    have hfloor := (Int.floor_le (toRat (derivedLine (sizeOf style)))).trans
      ((le_abs_self _).trans hderived.abs_le)
    generalize ⌊toRat (derivedLine (sizeOf style))⌋ = n at hnonneg hfloor
    have hwithin : IsWithin 202 (Value.nearestFloat (.int n)) :=
      isWithin_nearestFloat (by decide) (by decide) (by rwa [abs_of_nonneg (Int.cast_nonneg hnonneg)])
    refine ⟨hwithin.isFinite, fun hne => ?_⟩
    have hone := (Value.toRat_int_ne_zero_iff hnonneg hwithin.isFinite).mp hne
    calc (2 : ℚ) ^ (-200 : ℤ) ≤ 1 := zpow_le_one_of_nonpos₀ one_le_two (by decide)
      _ ≤ toRat (Value.nearestFloat (.int n)) := Value.one_le_toRat_int hone hwithin.isFinite

theorem IsModerate.fits (h : IsModerate e style columns gap width height) (hpos : 0 < columns) (s : String) :
    Fits e style columns gap width height s := by
  have hplace := h.place
  simp only [List.forall_mem_cons, List.not_mem_nil, false_imp_iff, implies_true, and_true] at hplace
  obtain ⟨hx, hy, hw, hh, hwidth, hheight⟩ := hplace
  have hsize : 0 < toRat (sizeOf style) := lt_of_lt_of_le (by positivity) h.size.le
  have hcolumn := isWithin_columnOf (IsWithin.extent hw hwidth hx) h.gap hpos h.columns
  obtain ⟨hline, hlow⟩ := h.line_spec
  refine ⟨h.size.isFinite, fun _ => (isWithin_derivedLine h.size.toIsWithin).isFinite, hline, fun _ _ => ?_,
    fun _ => ?_, fun hne => ?_⟩
  · have hlimit : 12 * 2 ^ 200 < limit := by decide +kernel
    have := h.columns
    omega
  · exact (hcolumn.div (charWidth_pos h.size.isFinite hsize).1 (two_zpow_le_charWidth h.size) (by decide)
      (by decide)).isFinite
  · exact ((IsWithin.extent hh hheight hy).div hline (hlow hne) (by decide) (by decide)).isFinite

/-! ## Elements that are read -/

theorem exists_flowColumns_of_content {kind location : String} {raw : Entries}
    (h : Reading.content kind raw location = .ok (.flowText text columns gap)) :
    ∃ v location, Reading.flowColumns v location = .ok columns := by
  unfold Reading.content at h
  split at h
  case h_2 =>
    obtain ⟨read, hread, h⟩ := Outcome.bind_eq_ok.mp h
    obtain ⟨_, -, h⟩ := Outcome.bind_eq_ok.mp h
    cases h
    exact ⟨_, _, hread⟩
  case h_4 =>
    obtain ⟨_, -, h⟩ := Outcome.bind_eq_ok.mp h
    cases h
  all_goals cases h

theorem exists_flowColumns_of_element {v : Value} {location : String} (h : Reading.element v location = .ok e)
    (hcontent : e.content = .flowText text columns gap) :
    ∃ v location, Reading.flowColumns v location = .ok columns := by
  cases v with
  | object raw =>
    unfold Reading.element at h
    simp only [Outcome.bind_eq_ok] at h
    obtain ⟨_, -, _, -, _, -, _, -, _, -, _, -, content, hread, h⟩ := h
    obtain rfl := Except.ok.inj h
    obtain rfl : content = _ := hcontent
    exact exists_flowColumns_of_content hread
  | _ => cases h

theorem columns_of_element {v : Value} {location : String} (h : Reading.element v location = .ok e)
    (hcontent : e.content = .flowText text columns gap) : 0 < columns ∧ columns < limit := by
  obtain ⟨v, location, hread⟩ := exists_flowColumns_of_element h hcontent
  obtain ⟨x, -, hread⟩ := Outcome.bind_eq_ok.mp hread
  cases htruncate : truncate? x with
  | none =>
    rw [htruncate] at hread
    cases hread
  | some n =>
    rw [htruncate] at hread
    obtain rfl := Except.ok.inj hread
    have hlimit := natAbs_lt_of_truncate? htruncate
    have hone : 1 < limit := by decide +kernel
    omega

/-- A flowing text whose font size and line height are missing or above zero is dealt out just when no figure is beyond
the range of doubles and the line height is given or the font size is not below 5/12 or so. With moderate measurements
nothing but a line height that is rounded to zero can stop it. -/
theorem returns_ofFlow_iff {v : Value} {location : String} (helement : Reading.element v location = .ok e)
    (hcontent : e.content = .flowText text columns gap) (hstyle : t.resolveStyle e true = .ok style)
    (hsize : style.size = .null ∨ style.size.IsMeasure)
    (hline : style.lineHeight = .null ∨ style.lineHeight.IsMeasure)
    (htext : Binding.substituteValue text data Binding.noPage = .ok s) (width height : Float) :
    (Outcome.Returns (ofFlow e text columns gap data t width height) ↔
        (style.lineHeight ≠ .null ∨ leastSize ≤ toRat (sizeOf style)) ∧
          Fits e style columns gap width height s) ∧
      (IsModerate e style columns gap width height →
        (style.lineHeight ≠ .null ∨ leastSize ≤ toRat (sizeOf style) →
          Outcome.Returns (ofFlow e text columns gap data t width height)) ∧
        (style.lineHeight = .null → toRat (sizeOf style) < leastSize →
          ofFlow e text columns gap data t width height = undefinedOn .divisionByZero)) := by
  obtain ⟨hpos, hcolumns⟩ := columns_of_element helement hcontent
  have hreturns : Outcome.Returns (ofFlow e text columns gap data t width height) ↔
      (style.lineHeight ≠ .null ∨ leastSize ≤ toRat (sizeOf style)) ∧ Fits e style columns gap width height s := by
    rw [returns_ofFlow_iff_fits hpos hcolumns hstyle hsize hline htext]
    exact and_congr_left (toRat_lineOf_ne_zero_iff hsize hline)
  refine ⟨hreturns, fun hmoderate => ?_⟩
  have hfits := hmoderate.fits hpos s
  refine ⟨fun hgiven => hreturns.mpr ⟨hgiven, hfits⟩, fun hnull hlt => ?_⟩
  refine ofFlow_eq_divisionByZero hpos hcolumns hstyle hsize hline htext hfits (not_not.mp ?_)
  rw [← Ne, toRat_lineOf_ne_zero_iff hsize hline hfits]
  exact fun hgiven => hgiven.elim (absurd hnull) hlt.not_ge

/-- A flowing text of one letter in a font size. -/
def letter (size : Value) : Value :=
  .object [("id", .text "a"), ("type", .text "flowText"), ("text", .text "x"), ("w", .int 50), ("h", .int 20),
    ("style", .object [("size", size)])]

/-- A template with nothing in it. -/
def bareTemplate : Template where
  page := ⟨100, 100, ⟨0, 0, 0, 0⟩, 0, 0⟩
  id := ""
  name := ""
  version := .null
  unit := .null
  fonts := []
  styles := []
  contract := []
  elements := []
  partials := []
  settings := []
  pageCount := none

/-- In a usual font size the letter is dealt out. -/
theorem returns_ofFlow_letter : ∃ e, Reading.element (letter (.int 12)) "elements[0]" = .ok e ∧
    e.content = .flowText (.text "x") 1 none ∧
    Outcome.Returns (ofFlow e (.text "x") 1 none .null bareTemplate 100 100) := by
  have hint {n : ℤ} (hn : |(n : ℚ)| ≤ 2 ^ (200 : ℤ)) : IsWithin 200 (Value.nearestFloat (.int n)) :=
    isWithin_nearestFloat (by decide) (by decide) hn
  have hzero : IsWithin 200 0 := .of_decode (m := 0) (e := minExponent) (by decide +kernel) (by norm_num)
  have hregion : IsWithin 200 100 := .of_decode (m := 7036874417766400) (e := -46) (by decide +kernel) (by norm_num)
  have hsize : decode (Value.nearestFloat (.int 12)) = .finite ⟨false, 6755399441055744, -49⟩ := by decide +kernel
  have hleast : leastSize ≤ toRat (Value.nearestFloat (.int 12)) := by
    rw [toRat_of_decode_positive hsize, leastSize]
    norm_num
  have hmoderate : IsModerateSize (Value.nearestFloat (.int 12)) := by
    refine ⟨.of_decode hsize (by norm_num), ?_⟩
    rw [toRat_of_decode_positive hsize]
    norm_num
  have htext : Binding.substituteValue (.text "x") .null Binding.noPage = .ok "x" := rfl
  refine ⟨_, rfl, rfl, ?_⟩
  have hroom := returns_ofFlow_iff (t := bareTemplate)
    (show Reading.element (letter (.int 12)) "elements[0]" = .ok _ from rfl) rfl rfl
    (.inr (.int (n := 12) (by decide))) (.inl rfl) htext 100 100
  have hgap : ∀ x ∈ (none : Option Float), IsWithin 200 x := fun x hx => absurd hx (Option.not_mem_none x)
  refine (hroom.2 ⟨hmoderate, fun h => (Bool.false_ne_true h).elim, ?_, hgap, by decide⟩).1 (.inr hleast)
  simp only [List.forall_mem_cons, List.not_mem_nil, false_imp_iff, implies_true, and_true]
  exact ⟨hzero, hzero, hint (by norm_num), hint (by norm_num), hregion, hregion⟩

/-- In a quarter of a point its line height is zero. -/
theorem not_returns_ofFlow_letter : ∃ e style, Reading.element (letter (.float 0.25)) "elements[0]" = .ok e ∧
    e.content = .flowText (.text "x") 1 none ∧ bareTemplate.resolveStyle e true = .ok style ∧
    style.size.IsMeasure ∧ style.lineHeight = .null ∧
    ofFlow e (.text "x") 1 none .null bareTemplate 100 100 = undefinedOn .divisionByZero := by
  have hquarter : decode 0.25 = .finite ⟨false, 4503599627370496, -54⟩ := by decide +kernel
  have hmeasure : (Value.float 0.25).IsMeasure := by
    refine .float ⟨_, hquarter⟩ ?_
    rw [toRat_of_decode_positive hquarter]
    norm_num
  exact ⟨_, _, rfl, rfl, rfl, hmeasure, rfl, by rfl⟩

end FlowPages

end Pagewright
