import Pagewright.Proofs.Condition.Pieces
import Pagewright.Proofs.Outcome

/-!
# Both conditions at once

The text that `conjoin` writes says both of its conditions: read again, it is their product, each
alternative of the first followed by each of the second (`ofText_of_conjoin`). Where no term of either
condition fails, it is shown just when both are (`shows_conjoin`).

The terms of the first condition come first in every alternative. So what is hidden by the first condition
is hidden by both, even if the second cannot be evaluated (`shows_of_conjoin`).
-/

namespace Pagewright.Condition

open Pagewright.Text

variable {data : Value} {c d : Condition} {ts : List Term}

/-! ## Evaluation from left to right -/

theorem evalAll_eq_allM (data : Value) (ts : List Term) :
    evalAll data ts = ts.allM fun t => t.eval data := by
  induction ts with
  | nil => rfl
  | cons t ts ih =>
    rw [evalAll, List.allM, ih]
    refine bind_congr fun b => ?_
    cases b <;> rfl

theorem evalAny_eq_anyM (data : Value) (c : Condition) :
    evalAny data c = c.anyM fun ts => evalAll data ts := by
  induction c with
  | nil => rfl
  | cons ts c ih =>
    rw [evalAny, List.anyM, ih]
    refine bind_congr fun b => ?_
    cases b <;> rfl

/-- A conjunction that is decided before its end does not come to the rest. -/
theorem evalAll_append_of_false (h : evalAll data ts = .ok false) (us : List Term) :
    evalAll data (ts ++ us) = .ok false := by
  induction ts with
  | nil => simp [evalAll] at h
  | cons t ts ih =>
    obtain ⟨b, hb, h⟩ := Outcome.bind_eq_ok.mp h
    rw [List.cons_append, evalAll, hb, Outcome.ok_bind]
    cases b with
    | true => exact ih h
    | false => rfl

theorem evalAny_eq_false_iff : evalAny data c = .ok false ↔ ∀ ts ∈ c, evalAll data ts = .ok false := by
  induction c with
  | nil => simp [evalAny]
  | cons ts c ih =>
    rw [evalAny, Outcome.bind_eq_ok, List.forall_mem_cons]
    constructor
    · rintro ⟨b, hb, h⟩
      cases b with
      | true => simp at h
      | false => exact ⟨hb, ih.mp h⟩
    · rintro ⟨hts, h⟩
      exact ⟨false, hts, ih.mpr h⟩

theorem eval_eq_false_iff : eval data c = .ok false ↔ c ≠ [] ∧ ∀ ts ∈ c, evalAll data ts = .ok false := by
  cases c with
  | nil => simp [eval]
  | cons ts c => exact (evalAny_eq_false_iff).trans (by simp)

/-! ## Terms that have a truth value -/

/-- What is made of an evaluation: one that fails counts as true. -/
def verdict : Outcome Bool → Bool
  | .ok b => b
  | .error _ => true

/-- Whether every term of a condition can be evaluated. -/
def isDefined (data : Value) (c : Condition) : Bool := c.all fun ts => ts.all fun t => (t.eval data).isOk

/-- The truth of a condition whose terms have a truth value each. -/
def holds (truth : Term → Bool) (c : Condition) : Bool := c.isEmpty || c.any fun ts => ts.all truth

theorem eq_verdict {x : Outcome Bool} (h : x.isOk = true) : x = .ok (verdict x) := by
  obtain ⟨b, rfl⟩ := Outcome.exists_of_isOk h
  rfl

/-- Where every term has a truth value, evaluation is that of a formula. -/
theorem eval_eq_holds (h : isDefined data c = true) :
    eval data c = .ok (holds (fun t => verdict (t.eval data)) c) := by
  have hany : evalAny data c = .ok (c.any fun ts => ts.all fun t => verdict (t.eval data)) := by
    rw [evalAny_eq_anyM]
    refine Outcome.anyM_eq_any fun ts hts => ?_
    rw [evalAll_eq_allM]
    exact Outcome.allM_eq_all fun t ht => eq_verdict (List.all_eq_true.mp
      (List.all_eq_true.mp h ts hts) t ht)
  cases c with
  | nil => rfl
  | cons ts c => simpa [eval, holds] using hany

/-! ## The product of two conditions -/

/-- Both conditions at once: each alternative of the first followed by each of the second. A condition
without alternatives adds nothing. -/
def both (c d : Condition) : Condition :=
  if c.isEmpty then d else if d.isEmpty then c else c.flatMap fun ts => d.map fun us => ts ++ us

theorem holds_both (truth : Term → Bool) (c d : Condition) :
    holds truth (both c d) = (holds truth c && holds truth d) := by
  have hproduct : ((c.flatMap fun ts => d.map fun us => ts ++ us).any fun ts => ts.all truth) =
      ((c.any fun ts => ts.all truth) && d.any fun ts => ts.all truth) := by
    rw [Bool.eq_iff_iff]
    simp only [List.any_flatMap, List.any_map, List.any_eq_true, Function.comp, List.all_append,
      Bool.and_eq_true]
    exact ⟨fun ⟨ts, hts, us, hus, ht, hu⟩ => ⟨⟨ts, hts, ht⟩, us, hus, hu⟩,
      fun ⟨⟨ts, hts, ht⟩, us, hus, hu⟩ => ⟨ts, hts, us, hus, ht, hu⟩⟩
  cases c with
  | nil => simp [both, holds]
  | cons ts c =>
    cases d with
    | nil => simp [both, holds]
    | cons us d =>
      have hempty : ((ts :: c).flatMap fun ts => (us :: d).map fun us => ts ++ us).isEmpty = false := by
        simp
      simp only [both, List.isEmpty_cons, Bool.false_eq_true, if_false]
      simp only [holds, hempty, hproduct, List.isEmpty_cons, Bool.false_or]

theorem isDefined_both (hc : isDefined data c = true) (hd : isDefined data d = true) :
    isDefined data (both c d) = true := by
  unfold both
  split
  · exact hd
  split
  · exact hc
  · simp only [isDefined, List.all_flatMap, List.all_map, List.all_eq_true, Function.comp,
      List.all_append, Bool.and_eq_true] at hc hd ⊢
    exact fun ts hts us hus => ⟨hc ts hts, hd us hus⟩

/-- What is false by the first condition is false by both, whatever the second says. -/
theorem eval_both_of_false (h : eval data c = .ok false) (d : Condition) :
    eval data (both c d) = .ok false := by
  obtain ⟨hne, hall⟩ := eval_eq_false_iff.mp h
  rw [eval_eq_false_iff]
  obtain ⟨ts, c, rfl⟩ := List.exists_cons_of_ne_nil hne
  cases d with
  | nil => exact ⟨hne, hall⟩
  | cons us d =>
    refine ⟨by simp [both], fun vs hvs => ?_⟩
    simp only [both, List.isEmpty_cons, Bool.false_eq_true, if_false] at hvs
    obtain ⟨ts, hts, hvs⟩ := List.mem_flatMap.mp hvs
    obtain ⟨us, -, rfl⟩ := List.mem_map.mp hvs
    exact evalAll_append_of_false (hall ts hts) us

/-! ## What a condition text says -/

/-- The condition that a value states; one that is no text states none. -/
def stated : Value → Condition
  | .text s => ofText s
  | _ => []

@[simp] theorem stated_text (s : String) : stated (.text s) = ofText s := rfl

/-- A condition as an element may have it: a text or none. -/
def given : Option String → Value
  | some s => .text s
  | none => .null

/-- The terms of an alternative. -/
def termsOf (alternative : List Char) : List Term := (splitAt ['&', '&'] alternative).map termOf

/-- The alternatives of two conditions at once, as text. -/
def joined (firsts seconds : List (List Char)) : List (List Char) :=
  if firsts.isEmpty then seconds
  else if seconds.isEmpty then firsts
  else firsts.flatMap fun a => seconds.map fun b => a ++ " && ".toList ++ b

theorem stated_of_alternativesOf {v : Value} {alternatives : List (List Char)}
    (h : alternativesOf v = .ok alternatives) : stated v = alternatives.map termsOf := by
  cases v with
  | text s =>
    obtain rfl := Except.ok.inj h
    rfl
  | _ =>
    simp only [alternativesOf] at h
    split at h
    · simp [undefinedOn] at h
    · obtain rfl := Except.ok.inj h
      rfl

theorem ofText_of_isBlankText {s : String} (h : isBlankText s = true) : ofText s = [] := by
  have hgap : IsGap s.toList := trim_eq_nil_iff.mp ((isBlankText_iff s).mp h)
  have hsplit := splitAt_gap_append (c := '|') (by decide) hgap []
  rw [List.append_nil] at hsplit
  unfold ofText ofChars
  rw [hsplit]
  rfl

/-- An element is shown unless its condition is evaluated and false. -/
theorem shows_text (s : String) (data : Value) :
    shows (.text s) data = .ok (verdict (eval data (ofText s))) := by
  unfold shows
  by_cases h : isBlankText s = true
  · simp only [h, if_true, ofText_of_isBlankText h]
    rfl
  · simp only [h, Bool.false_eq_true, if_false, evalText]
    cases eval data (ofText s) <;> rfl

theorem shows_eq {v : Value} {alternatives : List (List Char)} (h : alternativesOf v = .ok alternatives) :
    shows v data = .ok (verdict (eval data (stated v))) := by
  cases v with
  | text s => exact shows_text s data
  | _ =>
    simp only [alternativesOf] at h
    split at h
    · simp [undefinedOn] at h
    · simp_all [shows, stated, eval, verdict]

theorem conjoin_eq_ok {a b : Value} {s : String} (h : conjoin a b = .ok s) :
    ∃ firsts seconds, alternativesOf a = .ok firsts ∧ alternativesOf b = .ok seconds ∧
      s = String.ofList (join " || ".toList (joined firsts seconds)) := by
  obtain ⟨firsts, hfirsts, h⟩ := Outcome.bind_eq_ok.mp h
  obtain ⟨seconds, hseconds, h⟩ := Outcome.bind_eq_ok.mp h
  exact ⟨firsts, seconds, hfirsts, hseconds, (Except.ok.inj h).symm⟩

/-! ## The text of both conditions -/

theorem termsOf_append (a b : List Char) :
    termsOf (a ++ " && ".toList ++ b) = termsOf a ++ termsOf b := by
  have hsplit := splitAt_spaced (c := '&') (by decide) a b
  have htext : a ++ " && ".toList ++ b = a ++ ' ' :: '&' :: '&' :: ' ' :: b := by simp
  rw [htext, termsOf, hsplit, List.map_append]
  rfl

theorem splitAt_joined_pair {s t a b : List Char} (ha : a ∈ splitAt ['|', '|'] s)
    (hb : b ∈ splitAt ['|', '|'] t) :
    splitAt ['|', '|'] (a ++ " && ".toList ++ b) = [a ++ " && ".toList ++ b] := by
  have htight := (tight_of_mem_splitAt ha).append (tight_of_mem_splitAt hb) " && ".toList
  have hmiddle : ¬ ['|', '|'] <:+: " && ".toList := by decide
  have hoperator : ¬ ['|', '|'] <:+: a ++ " && ".toList ++ b := by
    rw [operator_infix_append_iff, operator_infix_append_iff]
    rintro ((h | h | ⟨-, h⟩) | h | ⟨h, -⟩)
    · exact not_operator_infix_of_mem_splitAt ha h
    · exact hmiddle h
    · exact absurd h (by decide)
    · exact not_operator_infix_of_mem_splitAt hb h
    · rw [List.getLast?_append_of_ne_nil _ (by decide)] at h
      exact absurd h (by decide)
  rw [splitAt_eq_singleton hoperator (by rw [htight.trim_eq]; exact htight.ne_nil), htight.trim_eq]

theorem splitAt_of_mem_joined {s t p : List Char}
    (h : p ∈ joined (splitAt ['|', '|'] s) (splitAt ['|', '|'] t)) : splitAt ['|', '|'] p = [p] := by
  unfold joined at h
  split at h
  · exact splitAt_of_mem h
  split at h
  · exact splitAt_of_mem h
  · obtain ⟨a, ha, h⟩ := List.mem_flatMap.mp h
    obtain ⟨b, hb, rfl⟩ := List.mem_map.mp h
    exact splitAt_joined_pair ha hb

theorem map_termsOf_joined (firsts seconds : List (List Char)) :
    (joined firsts seconds).map termsOf = both (firsts.map termsOf) (seconds.map termsOf) := by
  unfold joined both
  simp only [List.isEmpty_map]
  split
  · rfl
  split
  · rfl
  · simp only [List.map_flatMap, List.flatMap_map, List.map_map]
    refine List.flatMap_congr fun a _ => List.map_congr_left fun b _ => ?_
    exact termsOf_append a b

theorem exists_splitAt_of_alternativesOf {v : Value} {alternatives : List (List Char)}
    (h : alternativesOf v = .ok alternatives) : ∃ s, alternatives = splitAt ['|', '|'] s := by
  cases v with
  | text s => exact ⟨s.toList, (Except.ok.inj h).symm⟩
  | _ =>
    simp only [alternativesOf] at h
    split at h
    · simp [undefinedOn] at h
    · exact ⟨[], (Except.ok.inj h).symm⟩

/-- The text of both conditions is read as their product. -/
theorem ofText_of_conjoin {a b : Value} {s : String} (h : conjoin a b = .ok s) :
    ofText s = both (stated a) (stated b) := by
  obtain ⟨firsts, seconds, hfirsts, hseconds, rfl⟩ := conjoin_eq_ok h
  rw [stated_of_alternativesOf hfirsts, stated_of_alternativesOf hseconds, ← map_termsOf_joined]
  obtain ⟨s, rfl⟩ := exists_splitAt_of_alternativesOf hfirsts
  obtain ⟨t, rfl⟩ := exists_splitAt_of_alternativesOf hseconds
  have hpieces := splitAt_join_spaced (c := '|') (by decide)
    (joined (splitAt ['|', '|'] s) (splitAt ['|', '|'] t))
  rw [flatMap_splitAt_of_forall fun p hp => splitAt_of_mem_joined hp] at hpieces
  unfold ofText ofChars
  rw [String.toList_ofList]
  exact congrArg (List.map termsOf) hpieces

/-- What the first condition hides, both hide, even if the second cannot be evaluated. -/
theorem shows_of_conjoin {a b : Value} {s : String} (h : conjoin a b = .ok s)
    (ha : shows a data = .ok false) : shows (.text s) data = .ok false := by
  obtain ⟨firsts, -, hfirsts, -, -⟩ := conjoin_eq_ok h
  have heval : eval data (stated a) = .ok false := by
    rw [shows_eq hfirsts, Except.ok.injEq] at ha
    cases hx : eval data (stated a) with
    | ok b => simpa [hx, verdict] using ha
    | error e => simp [hx, verdict] at ha
  rw [shows_text, ofText_of_conjoin h, eval_both_of_false heval]
  rfl

theorem alternativesOf_given (a : Option String) :
    ∃ alternatives, alternativesOf (given a) = .ok alternatives := by
  cases a with
  | none => exact ⟨[], rfl⟩
  | some s => exact ⟨_, rfl⟩

theorem exists_conjoin {a : Value} {firsts : List (List Char)} (h : alternativesOf a = .ok firsts)
    (b : Option String) : ∃ text, conjoin a (given b) = .ok text := by
  obtain ⟨seconds, hseconds⟩ := alternativesOf_given b
  exact ⟨_, by rw [conjoin, h, hseconds]; rfl⟩

theorem exists_alternativesOf_of_shows {a : Value} (h : shows a data = .ok false) :
    ∃ firsts, alternativesOf a = .ok firsts := by
  cases a with
  | text s => exact ⟨_, rfl⟩
  | _ => simp only [shows] at h; split at h <;> simp [undefinedOn] at h

/-- Both conditions at once are written as one text, which can be evaluated where the terms of both can be,
and shows an element just when each of them does. -/
theorem shows_conjoin (a b : Option String) (data : Value)
    (ha : isDefined data (stated (given a)) = true) (hb : isDefined data (stated (given b)) = true) :
    ∃ (text : String) (x y : Bool), conjoin (given a) (given b) = .ok text ∧
      shows (given a) data = .ok x ∧ shows (given b) data = .ok y ∧
      evalText text data = .ok (x && y) ∧ shows (.text text) data = .ok (x && y) := by
  obtain ⟨firsts, hfirsts⟩ := alternativesOf_given a
  obtain ⟨seconds, hseconds⟩ := alternativesOf_given b
  obtain ⟨text, htext⟩ := exists_conjoin hfirsts b
  have heval : evalText text data = .ok (holds (fun t => verdict (t.eval data)) (stated (given a)) &&
      holds (fun t => verdict (t.eval data)) (stated (given b))) := by
    rw [evalText, ofText_of_conjoin htext, eval_eq_holds (isDefined_both ha hb), holds_both]
  refine ⟨text, _, _, htext, ?_, ?_, heval, ?_⟩
  · rw [shows_eq hfirsts, eval_eq_holds ha]
    rfl
  · rw [shows_eq hseconds, eval_eq_holds hb]
    rfl
  · rw [shows_text]
    rw [evalText] at heval
    rw [heval]
    rfl

/-- A customer of tier `a|b` without a number. -/
def customer : Value := .object [("tier", .text "a|b"), ("seats", .list [])]

/-- An alternative without terms and a literal with operators in it are joined like any others. -/
theorem shows_conjoin_customer :
    isDefined customer (stated (given (some "tier == 'a|b' || !tier && seats"))) = true ∧
    isDefined customer (stated (given (some "vat == 'x && y == z' || &&"))) = true ∧
    ∃ text : String, conjoin (given (some "tier == 'a|b' || !tier && seats"))
        (given (some "vat == 'x && y == z' || &&")) = .ok text ∧
      shows (.text text) customer = .ok true := by
  have ha : isDefined customer (stated (given (some "tier == 'a|b' || !tier && seats"))) = true := by
    decide +kernel
  have hb : isDefined customer (stated (given (some "vat == 'x && y == z' || &&"))) = true := by
    decide +kernel
  obtain ⟨text, x, y, htext, hx, hy, -, hshows⟩ := shows_conjoin _ _ customer ha hb
  have hx' : verdict (shows (given (some "tier == 'a|b' || !tier && seats")) customer) = true := by
    decide +kernel
  have hy' : verdict (shows (given (some "vat == 'x && y == z' || &&")) customer) = true := by
    decide +kernel
  rw [hx] at hx'
  rw [hy] at hy'
  obtain rfl : x = true := hx'
  obtain rfl : y = true := hy'
  exact ⟨ha, hb, text, htext, hshows⟩

end Pagewright.Condition
