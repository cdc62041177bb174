import Pagewright.Proofs.Contract.Returns
import Pagewright.Proofs.Number.Numerals
import Pagewright.Template.Reader

/-!
# Transforms fail without a trace

Reading dates and writing dates and amounts is left to libraries, of which it is only known that they return or
fail (`Transform.Library`). Whatever they do, a transform that fails says why (`Transform.ne_empty_of_runWith`) and
keeps the value; and there is always an outcome unless the name of the transform is a list or an object
(`ContractField.apply_returns_or_keeps`).

The transform to a number goes through a double, so of the whole numbers it keeps just those that are doubles
(`ContractField.apply_number_iff`).
-/

namespace Pagewright

/-! ## Transforms over any library -/

namespace Transform

/-- What transforms leave to libraries: reading a date, finding a locale, and writing dates and amounts. -/
structure Library where
  Locale : Type
  readDate : String → Outcome (Option Date)
  findLocale : Value → Outcome Locale
  dateText : Locale → Date → DateStyle → Outcome String
  amount : Locale → Float → String → Outcome String

/-- The libraries in use. -/
def Library.inUse : Library where
  Locale := Pagewright.Locale
  readDate s := .ok (FreeForm.read? s)
  findLocale := Locale.ofTag
  dateText l d style := .ok (l.dateText d style)
  amount := Amount.currency

variable (lib : Library) {t : Transform} {v w : Value} {options : TransformOptions} {settings : Entries} {p : String}

/-- A value as a date; only a text is left to the library. -/
def dateWith : Value → Outcome (Option Date)
  | .text s => lib.readDate s
  | v => .ok (dateOf? v)

/-- A value as a date text. -/
def runDateWith (v : Value) (options : TransformOptions) : Outcome Transformed := do
  match ← dateWith lib v with
  | none => return .failed ("Cannot parse date: " ++ v.display)
  | some d =>
    let style := options.dateStyle.orElse (.text "medium")
    match style.text?.bind DateStyle.ofName? with
    | none => return .failed ("Unknown date style: " ++ style.display)
    | some style => return .changed (.text (← lib.dateText (← lib.findLocale options.locale) d style))

/-- A value as an amount. -/
def runCurrencyWith (v : Value) (options : TransformOptions) (settings : Entries) : Outcome Transformed := do
  match ← numberOf v with
  | none => return .failed ("Cannot parse currency number: " ++ v.display)
  | some x =>
    let code := currencyCode options.currency settings
    return .changed (.text (← lib.amount (← lib.findLocale options.locale) x code))

/-- What a transform does, before failures are turned into messages. -/
def runWith? (t : Transform) (v : Value) (options : TransformOptions) (settings : Entries) : Outcome Transformed :=
  match t with
  | date => runDateWith lib v options
  | currency => runCurrencyWith lib v options settings
  | t => t.run? v options settings

/-- What a transform does. -/
def runWith (t : Transform) (v : Value) (options : TransformOptions) (settings : Entries) : Transformed :=
  match runWith? lib t v options settings with
  | .ok r => r
  | .error e => .failed (if e.message.isEmpty then "Transform error" else e.message)

theorem dateWith_inUse (v : Value) : dateWith .inUse v = .ok (dateOf? v) := by
  cases v <;> rfl

theorem runWith?_inUse (t : Transform) : runWith? .inUse t = t.run? := by
  funext v options settings
  cases t with
  | date =>
    show runDateWith .inUse v options = runDate v options
    unfold runDateWith runDate
    rw [dateWith_inUse, Outcome.ok_bind]
    cases dateOf? v with
    | none => rfl
    | some d =>
      dsimp only
      cases (options.dateStyle.orElse (.text "medium")).text?.bind DateStyle.ofName? with
      | none => rfl
      | some style =>
        show (do let l ← Locale.ofTag options.locale; _) = (do let l ← Locale.ofTag options.locale; _)
        exact bind_congr fun l => rfl
  | currency => rfl
  | trim | uppercase | lowercase | titlecase | number | boolean => rfl

theorem runWith_inUse (t : Transform) (v : Value) (options : TransformOptions) (settings : Entries) :
    runWith .inUse t v options settings = t.run v options settings := by
  rw [runWith, runWith?_inUse]
  rfl

/-! ## Messages -/

/-- What a transform says when it fails on its own, libraries and numbers out of range aside. -/
inductive Complaint (v : Value) (options : TransformOptions) : Transform → String → Prop
  | number : Complaint v options number ("Cannot convert to number: " ++ v.display)
  | date : Complaint v options date ("Cannot parse date: " ++ v.display)
  | dateStyle :
    Complaint v options date ("Unknown date style: " ++ (options.dateStyle.orElse (.text "medium")).display)
  | currency : Complaint v options currency ("Cannot parse currency number: " ++ v.display)

theorem Complaint.ne_empty (h : Complaint v options t p) : p ≠ "" := by
  have happend {a b : String} (ha : a ≠ "") : a ++ b ≠ "" := fun heq => ha (String.append_eq_empty_iff.mp heq).1
  cases h with
  | number => exact happend (by decide)
  | date => exact happend (by decide)
  | dateStyle => exact happend (by decide)
  | currency => exact happend (by decide)

theorem complaint_of_runWith? (h : runWith? lib t v options settings = .ok (.failed p)) : Complaint v options t p := by
  cases t with
  | trim =>
    simp only [runWith?, run?] at h
    split at h <;> simp at h
  | uppercase | lowercase | titlecase => simp [runWith?, run?] at h
  | boolean =>
    simp only [runWith?, run?] at h
    split at h <;> simp at h
  | number =>
    obtain ⟨x, -, h⟩ := Outcome.bind_eq_ok.mp h
    cases x with
    | some x => simp at h
    | none =>
      simp only [Outcome.pure_eq_ok, Except.ok.injEq, Transformed.failed.injEq] at h
      exact h ▸ .number
  | date =>
    obtain ⟨d, -, h⟩ := Outcome.bind_eq_ok.mp h
    cases d with
    | none =>
      simp only [Outcome.pure_eq_ok, Except.ok.injEq, Transformed.failed.injEq] at h
      exact h ▸ .date
    | some d =>
      dsimp only at h
      split at h
      · simp only [Outcome.pure_eq_ok, Except.ok.injEq, Transformed.failed.injEq] at h
        exact h ▸ .dateStyle
      · obtain ⟨l, -, h⟩ := Outcome.bind_eq_ok.mp h
        obtain ⟨s, -, h⟩ := Outcome.bind_eq_ok.mp h
        simp at h
  | currency =>
    obtain ⟨x, -, h⟩ := Outcome.bind_eq_ok.mp h
    cases x with
    | none =>
      simp only [Outcome.pure_eq_ok, Except.ok.injEq, Transformed.failed.injEq] at h
      exact h ▸ .currency
    | some x =>
      obtain ⟨l, -, h⟩ := Outcome.bind_eq_ok.mp h
      obtain ⟨s, -, h⟩ := Outcome.bind_eq_ok.mp h
      simp at h

theorem ne_empty_of_runWith (h : runWith lib t v options settings = .failed p) : p ≠ "" := by
  unfold runWith at h
  split at h
  · rename_i hrun
    exact (complaint_of_runWith? lib (hrun.trans (congrArg _ h))).ne_empty
  · obtain rfl := Transformed.failed.inj h
    split
    · decide
    · rename_i hmessage
      exact fun hempty => hmessage (by rw [hempty]; rfl)

end Transform

namespace ContractField

/-- What the field's transform does to a value. -/
def applyWith (lib : Transform.Library) (f : ContractField) (v : Value) (settings : Entries) : Outcome Transformed := do
  match ← f.transform? with
  | some t => return t.runWith lib v f.options settings
  | none => return .kept

variable {f : ContractField} {settings : Entries}

theorem applyWith_inUse (f : ContractField) (v : Value) (settings : Entries) :
    f.applyWith .inUse v settings = f.apply v settings := by
  refine bind_congr fun t => ?_
  cases t with
  | none => rfl
  | some t => exact congrArg Except.ok (Transform.runWith_inUse t v f.options settings)

/-- Only a list or an object cannot be the name of a transform. -/
theorem returns_applyWith_iff (lib : Transform.Library) (v : Value) :
    Outcome.Returns (f.applyWith lib v settings) ↔ f.transformName.isContainer = false := by
  have htransform : Outcome.Returns f.transform? ↔ f.transformName.isContainer = false := by
    unfold transform?
    cases f.transformName <;> simp [Value.isContainer, undefinedOn]
  rw [← htransform]
  refine ⟨Outcome.Returns.of_bind, fun h => h.bind fun t _ => ?_⟩
  cases t <;> exact Outcome.returns_pure _

/-- The name that a field is read with is a list or an object just when the document gives one that is not empty. -/
theorem isContainer_transformName_contractField (raw : Entries) :
    (Reading.contractField raw).transformName.isContainer = true ↔
      (Entries.get raw "transform").isGiven = true ∧ (Entries.get raw "transform").isContainer = true := by
  show ((((Entries.get raw "transform").orElse (.text "none")).orElse (.text "none")).isContainer = true) ↔ _
  by_cases h : (Entries.get raw "transform").isGiven = true
  · have hname : (Entries.get raw "transform").orElse (.text "none") = Entries.get raw "transform" := if_pos h
    rw [hname, hname, and_iff_right h]
  · have hname : (Entries.get raw "transform").orElse (.text "none") = .text "none" := if_neg h
    rw [hname]
    exact iff_of_false Bool.false_ne_true fun hboth => h hboth.1

theorem problem_eq_empty_iff {lib : Transform.Library} {v : Value} {r : Transformed}
    (h : f.applyWith lib v settings = .ok r) : r.problem = "" ↔ ∀ p, r ≠ .failed p := by
  cases r with
  | kept => exact iff_of_true rfl fun p => nofun
  | changed w => exact iff_of_true rfl fun p => nofun
  | failed p =>
    obtain ⟨t, -, h⟩ := Outcome.bind_eq_ok.mp h
    cases t with
    | none => simp at h
    | some t =>
      exact iff_of_false (Transform.ne_empty_of_runWith lib (Except.ok.inj h)) fun hnone => hnone p rfl

/-- A field's transform has an outcome unless its name is a list or an object, which keys of a table cannot be. When
it fails, it says so and keeps the value, whatever the libraries do. -/
theorem apply_returns_or_keeps (lib : Transform.Library) (raw : Entries) (v : Value) (settings : Entries) :
    (Outcome.Returns ((Reading.contractField raw).applyWith lib v settings) ↔
        ¬((Entries.get raw "transform").isGiven = true ∧ (Entries.get raw "transform").isContainer = true)) ∧
      (∀ r, (Reading.contractField raw).applyWith lib v settings = .ok r →
        (r.problem ≠ "" → r.value v = v) ∧ (r.problem = "" ↔ ∀ p, r ≠ .failed p)) ∧
      (Reading.contractField raw).applyWith .inUse v settings = (Reading.contractField raw).apply v settings := by
  refine ⟨?_, fun r h => ⟨fun hproblem => ?_, problem_eq_empty_iff h⟩, applyWith_inUse _ v settings⟩
  · rw [returns_applyWith_iff, ← isContainer_transformName_contractField, Bool.not_eq_true]
  · cases r with
    | kept => rfl
    | changed w => exact absurd rfl hproblem
    | failed p => rfl

theorem not_returns_apply_listOfTransforms :
    ¬Outcome.Returns ((Reading.contractField [("path", .text "p"), ("transform", .list [.text "trim"])]).apply
      (.text "x") []) := by
  rintro ⟨r, h⟩
  cases h

/-! ## Numbers -/

open Binary64

variable {n : ℤ} {before after : List Char}

theorem apply_of_number (hf : f.transform = .text "number") (v : Value) :
    f.apply v settings = .ok (Transform.number.run v f.options settings) := by
  have htransform : f.transform? = .ok (some .number) := by
    unfold transform? transformName
    rw [hf]
    rfl
  rw [apply, htransform]
  rfl

theorem run_number_int (n : ℤ) (options : TransformOptions) :
    Transform.number.run (.int n) options settings =
      if n.natAbs < limit then .changed (.int (nearest n)) else .failed "int too large to convert to float" := by
  have hplain := (isNearest_ofRatio_intCast n).wholeOrFloat_eq
  by_cases hn : n.natAbs < limit
  · have hnumber : Transform.numberOf (.int n) = .ok (some (ofRatio (n < 0) n.natAbs 1)) := by
      simp only [Transform.numberOf, Condition.numberOf, ofInt?_eq, if_pos hn]
    rw [if_pos hn] at hplain ⊢
    rw [Transform.run, Transform.run?, hnumber]
    exact congrArg Transformed.changed hplain
  · have hnumber : Transform.numberOf (.int n) = undefinedOn .numberTooLarge := by
      simp only [Transform.numberOf, Condition.numberOf, ofInt?_eq, if_neg hn]
    rw [if_neg hn, Transform.run, Transform.run?, hnumber]
    rfl

theorem numberOf_numeral (hbefore : Text.IsGap before) (hafter : Text.IsGap after) (n : ℤ) :
    ∃ x, Transform.numberOf (.text (String.ofList (before ++ (toString n).toList ++ after))) = .ok (some x) ∧
      IsNearest x n := by
  obtain ⟨x, hx, hnearest⟩ := Numeral.float?_toString n
  have htrim : Text.trim (before ++ (toString n).toList ++ after) = (toString n).toList := by
    rw [Text.trim_append_gap hafter, Text.trim_gap_append hbefore]
    exact (Numeral.tight_toString n).trim_eq
  refine ⟨x, ?_, hnearest⟩
  have hne : (toString n).toList.isEmpty = false := List.isEmpty_eq_false_iff.mpr (Numeral.toString_ne_nil n)
  unfold Transform.numberOf
  dsimp only
  rw [String.toList_ofList, htrim, hne, if_neg Bool.false_ne_true, hx, Option.filter_some,
    hnearest.isNaN_eq_false, Bool.not_false, if_pos rfl]

/-- A numeral is taken to the nearest double, which may be infinite, whatever blanks are around it. -/
theorem run_number_numeral (hbefore : Text.IsGap before) (hafter : Text.IsGap after) (n : ℤ)
    (options : TransformOptions) :
    Transform.number.run (.text (String.ofList (before ++ (toString n).toList ++ after))) options settings =
      .changed (if n.natAbs < limit then .int (nearest n) else .float (if n < 0 then -infinity else infinity)) := by
  obtain ⟨x, hx, hnearest⟩ := numberOf_numeral hbefore hafter n
  have hrun : Transform.number.run (.text (String.ofList (before ++ (toString n).toList ++ after))) options settings =
      .changed (Transform.plainNumber x) := by
    rw [Transform.run, Transform.run?, hx]
    rfl
  exact hrun.trans (congrArg Transformed.changed hnearest.wholeOrFloat_eq)

/-- A whole number and its numeral, whatever blanks are around it, are taken to the nearest double. So just those
that are doubles are kept, among them all of up to 53 bits. Where there is no such double, the number fails and the
numeral is taken to infinity. -/
theorem apply_number_iff (hf : f.transform = .text "number") (hbefore : Text.IsGap before)
    (hafter : Text.IsGap after) (n : ℤ) (settings : Entries) :
    let numeral := Value.text (String.ofList (before ++ (toString n).toList ++ after))
    (f.apply (.int n) settings = .ok (.changed (.int n)) ↔ IsDouble n) ∧
      (f.apply numeral settings = .ok (.changed (.int n)) ↔ IsDouble n) ∧
      (n.natAbs ≤ 2 ^ 53 → IsDouble n) ∧
      (n.natAbs < limit →
        f.apply (.int n) settings = .ok (.changed (.int (nearest n))) ∧
        f.apply numeral settings = .ok (.changed (.int (nearest n))) ∧
        IsDouble (nearest n) ∧ ∀ k, IsDouble k → (nearest n - n).natAbs ≤ (k - n).natAbs) ∧
      (limit ≤ n.natAbs →
        f.apply (.int n) settings = .ok (.failed "int too large to convert to float") ∧
        f.apply numeral settings = .ok (.changed (.float (if n < 0 then -infinity else infinity)))) := by
  intro numeral
  rw [apply_of_number hf, apply_of_number hf, run_number_int, run_number_numeral hbefore hafter]
  refine ⟨?_, ?_, isDouble_of_natAbs_le, fun hlt => ?_, fun hle => ?_⟩
  · rw [isDouble_iff]
    split_ifs with hlt <;> simp [hlt]
  · rw [isDouble_iff]
    split_ifs with hlt <;> simp [hlt]
  · rw [if_pos hlt, if_pos hlt]
    exact ⟨rfl, rfl, isDouble_nearest hlt, fun k hk => hk.natAbs_nearest_sub_le n⟩
  · rw [if_neg hle.not_gt, if_neg hle.not_gt]
    exact ⟨rfl, rfl⟩

/-- A field whose values are taken as numbers. -/
def asNumber : ContractField := Reading.contractField [("path", .text "n"), ("transform", .text "number")]

/-- The whole numbers of up to 53 bits are kept. -/
theorem apply_number_two_pow :
    asNumber.apply (.int (2 ^ 53)) [] = .ok (.changed (.int (2 ^ 53))) ∧
      asNumber.apply (.text (String.ofList ([' '] ++ (toString (2 ^ 53 : ℤ)).toList ++ [' ']))) [] =
        .ok (.changed (.int (2 ^ 53))) := by
  obtain ⟨hint, hnumeral, hsmall, -⟩ := apply_number_iff (f := asNumber) rfl Text.isGap_space Text.isGap_space
    (2 ^ 53) []
  exact ⟨hint.mpr (hsmall le_rfl), hnumeral.mpr (hsmall le_rfl)⟩

/-- The next whole number lies between two doubles and is lost. -/
theorem not_apply_number_keeps_two_pow_add_one :
    asNumber.apply (.int (2 ^ 53 + 1)) [] = .ok (.changed (.int (2 ^ 53))) ∧
      asNumber.apply (.int (2 ^ 53 + 1)) [] ≠ .ok (.changed (.int (2 ^ 53 + 1))) := by
  have hchanged : asNumber.apply (.int (2 ^ 53 + 1)) [] = .ok (.changed (.int (2 ^ 53))) := by
    rw [apply_of_number rfl, run_number_int, if_pos (by decide +kernel)]
    rfl
  refine ⟨hchanged, fun hkept => ?_⟩
  rw [hchanged] at hkept
  simp at hkept

end ContractField

end Pagewright
