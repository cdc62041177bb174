import Pagewright.Calendar.FreeForm
import Pagewright.Condition.Basic
import Pagewright.Locale.Amount
import Pagewright.Locale.DateText

/-!
# Transforms

What a contract field does to its value on the way into the record: trimming, change of case, reading
as a number or a truth value, writing as a date or an amount. A transform keeps the value, changes it,
or fails with a message and keeps it; it never stops the evaluation.
-/

namespace Pagewright

/-- The names of transforms other than `none`. -/
inductive Transform where
  | trim
  | uppercase
  | lowercase
  | titlecase
  | number
  | boolean
  | date
  | currency
  deriving Repr, DecidableEq

/-- The options that a contract field gives to its transform, as they stand in the document. -/
structure TransformOptions where
  locale : Value
  currency : Value
  dateStyle : Value
  deriving Repr, Inhabited

/-- What becomes of a value. -/
inductive Transformed where
  | kept
  | changed (value : Value)
  | failed (problem : String)
  deriving Repr

namespace Transform

/-- All transforms with their names. -/
def names : List (String × Transform) :=
  [("trim", trim), ("uppercase", uppercase), ("lowercase", lowercase), ("titlecase", titlecase),
   ("number", number), ("boolean", boolean), ("date", date), ("currency", currency)]

/-- The transform with a name. -/
def ofName? (s : String) : Option Transform := names.lookup s

/-- The names that a contract field may give. -/
def fieldNames : List String := "none" :: names.map (·.1)

/-- A value as a number; null, lists, objects, dates, NaN and texts that spell no number are none. A
blank text is zero. -/
def numberOf : Value → Outcome (Option Float)
  | .bool b => .ok (some (if b then 1 else 0))
  | .text s =>
    let s := Text.trim s.toList
    if s.isEmpty then .ok (some 0)
    else .ok ((Numeral.float? s).filter fun x => !Binary64.isNaN x)
  | v => Condition.numberOf v

/-- A double as a whole number where it is one. -/
def plainNumber (x : Float) : Value :=
  match Binary64.integer? x with
  | some n => .int n
  | none => .float x

/-- The second that a number of seconds falls in after rounding to microseconds, half to even. -/
def wholeSecond? (t : Float) : Option Int := do
  let whole ← Binary64.truncate? t
  let fraction := t - (← Binary64.ofInt? whole)
  match Binary64.decode (fraction * 1000000) with
  | .finite v =>
    let (n, d) := v.ratio
    let micros := Binary64.roundHalfEven n d
    if v.negative then return if micros = 0 then whole else whole - 1
    else return if micros ≥ 1000000 then whole + 1 else whole
  | _ => none

/-- The date of a number of milliseconds since 1970. -/
def dateOfMillis? (v : Value) : Option Date := do
  let t : Float ←
    match v with
    | .int n =>
      let x := Binary64.ofRatio (n < 0) n.natAbs 1000
      if x.toBits == Binary64.infinity.toBits || x.toBits == (-Binary64.infinity).toBits then none
      else some x
    | .float x => some (x / 1000)
    | _ => none
  let second ← wholeSecond? t
  let day := second.fdiv 86400 + Date.epoch
  if 1 ≤ day && day ≤ 3652059 then some (Date.ofOrdinal day.toNat) else none

/-- A value as a date: a date or moment, milliseconds since 1970, or a text that spells one. -/
def dateOf? : Value → Option Date
  | .date d => some d
  | .moment t => some t.date
  | .int n => dateOfMillis? (.int n)
  | .float x => dateOfMillis? (.float x)
  | .text s => FreeForm.read? s
  | _ => none

/-- Words for true. -/
def trueWords : List String := ["true", "1", "yes", "y"]

/-- Words for false. -/
def falseWords : List String := ["false", "0", "no", "n"]

/-- The text of a value with a change of letters. -/
def mapText (f : List Char → List Char) (v : Value) : Value :=
  .text (String.ofList (f v.display.toList))

/-- The variable that holds the currency of a template. -/
def currencyVariable : String := "currency"

/-- The currency where none is given. -/
def defaultCurrency : Value := .text "USD"

/-- The code of the currency to use, in upper case. -/
def currencyCode (choice : Value) (settings : Entries) : String :=
  let code := (choice.orElse (Entries.get settings currencyVariable)).orElse defaultCurrency
  String.ofList (Text.upper code.display.toList)

/-- A value as a date text. -/
def runDate (v : Value) (options : TransformOptions) : Outcome Transformed := do
  match dateOf? v with
  | none => return .failed ("Cannot parse date: " ++ v.display)
  | some d =>
    let style := options.dateStyle.orElse (.text "medium")
    match style.text?.bind DateStyle.ofName? with
    | none => return .failed ("Unknown date style: " ++ style.display)
    | some style => return .changed (.text ((← Locale.ofTag options.locale).dateText d style))

/-- A value as an amount. -/
def runCurrency (v : Value) (options : TransformOptions) (settings : Entries) :
    Outcome Transformed := do
  match ← numberOf v with
  | none => return .failed ("Cannot parse currency number: " ++ v.display)
  | some x =>
    let code := currencyCode options.currency settings
    return .changed (.text (← Amount.currency (← Locale.ofTag options.locale) x code))

/-- What a transform does, before failures are turned into messages. -/
def run? (t : Transform) (v : Value) (options : TransformOptions) (settings : Entries) :
    Outcome Transformed :=
  match t with
  | trim =>
    match v with
    | .text s => .ok (.changed (.text (Text.trimmed s)))
    | _ => .ok .kept
  | uppercase => .ok (.changed (mapText Text.upper v))
  | lowercase => .ok (.changed (mapText Text.lower v))
  | titlecase => .ok (.changed (mapText Text.title v))
  | number => do
    match ← numberOf v with
    | some x => return .changed (plainNumber x)
    | none => return .failed ("Cannot convert to number: " ++ v.display)
  | boolean =>
    match v with
    | .bool _ => .ok .kept
    | v =>
      let word := String.ofList (Text.lower (Text.trim v.display.toList))
      .ok (.changed (.bool (trueWords.contains word || !falseWords.contains word && v.isGiven)))
  | date => runDate v options
  | currency => runCurrency v options settings

/-- What a transform does. -/
def run (t : Transform) (v : Value) (options : TransformOptions) (settings : Entries) :
    Transformed :=
  match run? t v options settings with
  | .ok r => r
  | .error e => .failed (if e.message.isEmpty then "Transform error" else e.message)

end Transform

namespace Transformed

/-- The value after a transform of `v`. -/
def value (v : Value) : Transformed → Value
  | kept => v
  | changed w => w
  | failed _ => v

/-- The message of a failed transform, empty for any other. -/
def problem : Transformed → String
  | failed p => p
  | _ => ""

end Transformed

end Pagewright
