import Pagewright.Proofs.Store.Appending
import Pagewright.Proofs.Store.Trail

/-!
# Reading a trail line by line

The values of a trail are those of its lines (`linesOf`): a line that is JSON holds a value, and any other line is
passed over (`values_eq_ok_iff`). One kind of line stops the reader instead, a line with a numeral that is too long.

The values are then narrowed down to a template and an action (`admits`), which can be asked of objects alone
(`returns_select_iff`). So the events that are sought are read, and nothing else, just when no numeral is too long and
all that is JSON is an object (`events_eq_sought_iff`).
-/

namespace Pagewright

open Outcome Text

variable {t : AuditTrail} {text line key : String} {wanted template action : Value} {vs : List Value}

theorem isSome_object?_iff {v : Value} : v.object?.isSome = true ↔ IsEvent v := by
  cases v <;> simp [Value.object?, IsEvent]

instance (v : Value) : Decidable (IsEvent v) := decidable_of_iff _ isSome_object?_iff

namespace AuditTrail

/-! ## Lines -/

/-- The lines of a text; the last one is what follows the last line break. -/
def linesOf (text : String) : List String := (text.toList.splitOnP isBreak).map String.ofList

/-- The value that a line holds, if it is JSON with blanks around it. -/
def valueIn? (line : String) : Option Value := (AuditLine.readJson (trimmed line)).toOption

/-- A line with a numeral that is too long to be read. -/
def IsOverlong (line : String) : Prop := ∃ e, AuditLine.readJson (trimmed line) = .error e ∧ e.fault = .longNumber

instance (line : String) : Decidable (IsOverlong line) :=
  match h : AuditLine.readJson (trimmed line) with
  | .ok _ => isFalse fun ⟨_, he, _⟩ => by cases h.symm.trans he
  | .error e => decidable_of_iff (e.fault = .longNumber) (by simp [IsOverlong, h])

/-- The values in the lines of a text. -/
def valuesIn (text : String) : List Value := (linesOf text).filterMap valueIn?

/-- The events in the lines of a text: the values that are objects. -/
def eventsIn (text : String) : List Value := (valuesIn text).filter fun v => v.object?.isSome

/-- Whether an event has a value under a key. What is not given is not asked for. -/
def admits (key : String) (wanted event : Value) : Bool := !wanted.isGiven || (eventField key event).same wanted

/-- The events in the lines of a text that are about a template and have an action. -/
def sought (template action : Value) (text : String) : List Value :=
  (eventsIn text).filter fun event => admits "template_id" template event && admits "action" action event

theorem splitLines_eq (read s : List Char) : (splitLines read s).1 ++ [(splitLines read s).2] =
    ((s.splitOnP isBreak).modifyHead (read.reverse ++ ·)).map String.ofList := by
  induction s generalizing read with
  | nil => simp [splitLines]
  | cons c s ih =>
    rw [splitLines, List.splitOnP_cons_eq_if_modifyHead]
    split
    · have hhead : (List.splitOnP isBreak s).modifyHead (([] : List Char).reverse ++ ·) = List.splitOnP isBreak s :=
        congrFun List.modifyHead_id _
      rw [List.cons_append, ih [], hhead]
      simp
    · rw [ih (c :: read), List.modifyHead_modifyHead]
      simp [Function.comp_def]

theorem values_ofText (text : String) : (ofText text).values = readLines ((linesOf text).map .raw) := by
  have hsplit := splitLines_eq [] ("" ++ text).toList
  have hhead : ((("" ++ text).toList.splitOnP isBreak).modifyHead (([] : List Char).reverse ++ ·)).map
      String.ofList = linesOf text := by
    rw [String.empty_append]
    exact congrArg (List.map String.ofList) (congrFun List.modifyHead_id _)
  rw [values_eq, ofText, addText_eq, ← hhead, ← hsplit, List.map_append]
  rfl

/-- A line is read as JSON, of which a blank line has none. -/
theorem valueOfText_eq (line : String) : AuditLine.valueOfText line =
    match AuditLine.readJson (trimmed line) with
    | .ok v => .ok (some v)
    | .error e => if e.fault = .longNumber then undefinedOn .notJson else .ok none := by
  unfold AuditLine.valueOfText
  by_cases hempty : (trimmed line).isEmpty = true
  · have hread : AuditLine.readJson "" = .error ⟨.value, Json.placeOf [] 0⟩ := rfl
    simp [String.isEmpty_iff.mp hempty, hread]
  · refine (if_neg hempty).trans ?_
    cases AuditLine.readJson (trimmed line) <;> rfl

theorem valueOfText_eq_ok_iff {v : Option Value} :
    AuditLine.valueOfText line = .ok v ↔ ¬ IsOverlong line ∧ valueIn? line = v := by
  rw [valueOfText_eq, IsOverlong, valueIn?]
  cases AuditLine.readJson (trimmed line) with
  | ok w => simp [Except.toOption]
  | error e =>
    by_cases hlong : e.fault = .longNumber
    · simp [hlong, undefinedOn]
    · simp [hlong, Except.toOption]

/-- A trail that holds a text is read when no numeral is too long, and then gives the values in the lines. -/
theorem values_eq_ok_iff (h : t.Holds text) :
    t.values = .ok vs ↔ (∀ line ∈ linesOf text, ¬ IsOverlong line) ∧ valuesIn text = vs := by
  have hall (lines : List String) (all : List (Option Value)) :
      (lines.map AuditLine.raw).mapM AuditLine.value = .ok all ↔
        (∀ line ∈ lines, ¬ IsOverlong line) ∧ lines.map valueIn? = all := by
    induction lines generalizing all with
    | nil => simp
    | cons line lines ih =>
      rw [List.map_cons, List.mapM_cons, bind_eq_ok]
      simp only [bind_eq_ok, ih, AuditLine.value, valueOfText_eq_ok_iff, pure_eq_ok, Except.ok.injEq]
      rw [List.forall_mem_cons, List.map_cons]
      constructor
      · rintro ⟨v, ⟨hline, rfl⟩, more, ⟨hlines, rfl⟩, rfl⟩
        exact ⟨⟨hline, hlines⟩, rfl⟩
      · rintro ⟨⟨hline, hlines⟩, rfl⟩
        exact ⟨_, ⟨hline, rfl⟩, _, ⟨hlines, rfl⟩, rfl⟩
  have hfilter : ((linesOf text).map valueIn?).filterMap id = valuesIn text := by
    rw [List.filterMap_map, Function.id_comp, valuesIn]
  rw [h.values_eq, values_ofText, readLines, bind_eq_ok]
  simp only [hall, pure_eq_ok, Except.ok.injEq]
  constructor
  · rintro ⟨all, ⟨hclear, rfl⟩, rfl⟩
    exact ⟨hclear, hfilter.symm⟩
  · rintro ⟨hclear, rfl⟩
    exact ⟨_, ⟨hclear, rfl⟩, hfilter⟩

/-! ## Filters -/

theorem returns_hasField_iff {v : Value} : Returns (hasField key wanted v) ↔ IsEvent v := by
  cases v <;> simp [hasField, IsEvent, undefinedOn]

/-- Something can be asked of events alone. -/
theorem returns_select_iff :
    Returns (select key wanted vs) ↔ (wanted.isGiven = true → ∀ v ∈ vs, IsEvent v) := by
  unfold select
  by_cases hgiven : wanted.isGiven = true
  · simp only [hgiven, if_true, returns_filterM_iff, returns_hasField_iff, true_implies]
  · simp [hgiven]

theorem select_eq (h : wanted.isGiven = true → ∀ v ∈ vs, IsEvent v) :
    select key wanted vs = .ok (vs.filter (admits key wanted)) := by
  unfold select
  by_cases hgiven : wanted.isGiven = true
  · rw [if_pos hgiven]
    refine filterM_eq_filter fun v hv => ?_
    obtain ⟨entries, rfl⟩ := h hgiven v hv
    simp [hasField, admits, hgiven, eventField]
  · rw [if_neg hgiven, List.filter_eq_self.mpr]
    simp [admits, hgiven]

/-! ## Events -/

/-- A trail is read when no numeral is too long and, if something is asked of the values, they are all events. -/
theorem returns_events_iff (h : t.Holds text) (template action : Value) : Returns (t.events template action) ↔
    (∀ line ∈ linesOf text, ¬ IsOverlong line) ∧
      (template.isGiven = true ∨ action.isGiven = true → ∀ v ∈ valuesIn text, IsEvent v) := by
  constructor
  · rintro ⟨vs, hvs⟩
    obtain ⟨values, hvalues, hselect⟩ := bind_eq_ok.mp hvs
    obtain ⟨about, habout, haction⟩ := bind_eq_ok.mp hselect
    obtain ⟨hclear, rfl⟩ := (values_eq_ok_iff h).mp hvalues
    have htemplate := returns_select_iff.mp ⟨about, habout⟩
    refine ⟨hclear, fun hgiven => ?_⟩
    by_cases hasked : template.isGiven = true
    · exact htemplate hasked
    · -- Nothing was left out before the action is looked at.
      have hall : valuesIn text = about := by
        rw [select, if_neg hasked] at habout
        exact Except.ok.inj habout
      exact hall ▸ returns_select_iff.mp ⟨vs, haction⟩ (hgiven.resolve_left hasked)
  · rintro ⟨hclear, hevents⟩
    have htemplate : select "template_id" template (valuesIn text) = .ok _ :=
      select_eq fun hgiven => hevents (.inl hgiven)
    refine ⟨_, bind_eq_ok.mpr ⟨_, (values_eq_ok_iff h).mpr ⟨hclear, rfl⟩,
      bind_eq_ok.mpr ⟨_, htemplate, select_eq fun hgiven v hv => ?_⟩⟩⟩
    exact hevents (.inr hgiven) v (List.mem_of_mem_filter hv)

theorem events_eq_sought (h : t.Holds text) (hclear : ∀ line ∈ linesOf text, ¬ IsOverlong line)
    (hevents : ∀ v ∈ valuesIn text, IsEvent v) (template action : Value) :
    t.events template action = .ok (sought template action text) := by
  have hall : eventsIn text = valuesIn text :=
    List.filter_eq_self.mpr fun v hv => isSome_object?_iff.mpr (hevents v hv)
  refine bind_eq_ok.mpr ⟨_, (values_eq_ok_iff h).mpr ⟨hclear, rfl⟩, bind_eq_ok.mpr ⟨_, select_eq fun _ => hevents, ?_⟩⟩
  rw [select_eq fun _ v hv => hevents v (List.mem_of_mem_filter hv), List.filter_filter, sought, hall]
  simp only [Bool.and_comm]

theorem events_eq_values (h : t.Holds text) (htemplate : template.isGiven = false) (haction : action.isGiven = false)
    (hread : t.events template action = .ok vs) : vs = valuesIn text := by
  obtain ⟨values, hvalues, hselect⟩ := bind_eq_ok.mp hread
  obtain ⟨-, rfl⟩ := (values_eq_ok_iff h).mp hvalues
  simp only [select, htemplate, haction, Bool.false_eq_true, if_false, ok_bind] at hselect
  exact (Except.ok.inj hselect).symm

/-- A text with events of two templates, a line that is no JSON, a blank line, and an event that blanks surround. -/
def mixedText : String :=
  "\x7b\"template_id\": \"seal\", \"action\": \"a\"\x7d\nbroken\r\n\n\x7b\"template_id\": \"note\"\x7d\n" ++
    " \x7b\"action\": \"b\", \"template_id\": \"seal\"\x7d "

/-- A line that is JSON and no object. -/
def listLine : String := "[1]"

/-- A line of digits, one more than a numeral may have. -/
def overlongLine : String := String.ofList (List.replicate (Numeral.digitLimit + 1) '1')

theorem linesOf_overlongLine : linesOf overlongLine = [overlongLine] := by
  have hones : ∀ c ∈ overlongLine.toList, isBreak c = false := fun c hc => by
    rw [overlongLine, String.toList_ofList] at hc
    rw [List.eq_of_mem_replicate hc]
    rfl
  rw [linesOf, List.splitOnP_eq_singleton hones, List.map_singleton, String.ofList_toList]

theorem isOverlong_overlongLine : IsOverlong overlongLine := by
  have hones {c : Char} (hc : c ∈ List.replicate (Numeral.digitLimit + 1) '1') : c = '1' := List.eq_of_mem_replicate hc
  have hwhole : Json.IsWhole (List.replicate (Numeral.digitLimit + 1) '1') :=
    ⟨by simp, fun c hc => hones hc ▸ rfl, .inr (by simp [List.replicate_succ])⟩
  have htight : Tight (List.replicate (Numeral.digitLimit + 1) '1') :=
    tight_of_forall hwhole.nonempty fun c hc => hones hc ▸ rfl
  have htrimmed : trimmed overlongLine = overlongLine := by
    rw [trimmed, overlongLine, String.toList_ofList, htight.trim_eq]
  rw [IsOverlong, htrimmed]
  exact Json.exists_error_of_long hwhole (by simp)

end AuditTrail

end Pagewright
