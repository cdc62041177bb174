import Pagewright.Proofs.Json.Seam
import Pagewright.Proofs.Store.Run
import Pagewright.Proofs.Text.Trim

/-!
# Adding an event to any trail

A trail is a text that others write to as well, and its last line may have been cut short. `AuditTrail.Holds` says
that a trail has the lines of a text, as they are read; adding an event adds its text and a line break
(`Holds.add`), whatever the text was.

The event is then read as well, behind all that was read before, just when there are only blanks behind the last
line break (`values_add_iff`). Anything else there makes one line with the event, and two JSON texts in a row are
none (`Json.not_read_append`): neither the event nor what was unfinished is read again (`values_wholeLines_of_add`).
-/

namespace Pagewright

open Text (isBlank isBlankText trim trimStart trimmed Tight)

variable {event : Value} {vs : List Value}

/-! ## Events as they are written -/

/-- A value that is written to a trail: an object that a text can hold, with its id first. -/
structure IsEntry (event : Value) : Prop where
  isData : event.IsData
  idFirst : ∃ id entries, event = .object (("id", id) :: entries)

/-- A text can hold what is recorded of an event. -/
structure AuditEvent.IsData (e : AuditEvent) : Prop where
  templateId : e.templateId.IsData
  actor : e.actor.IsData
  versionId : e.versionId.IsData
  before : e.before.IsData
  after : e.after.IsData
  extra : ∀ field ∈ e.extra, field.2.IsData

/-- A further field stands behind the id, or replaces its value. -/
theorem IsEntry.set {entries : Entries} {v : Value} (h : IsEntry (.object entries)) (key : String)
    (hv : v.IsData) : IsEntry (.object (Entries.set entries key v)) where
  isData := h.isData.set key hv
  idFirst := by
    obtain ⟨id, rest, heq⟩ := h.idFirst
    obtain rfl := Value.object.inj heq
    rw [Entries.set]
    split
    · exact ⟨v, rest, rfl⟩
    · exact ⟨id, Entries.set rest key v, rfl⟩

theorem IsEntry.foldl_set {entries extra : Entries} (h : IsEntry (.object entries))
    (hextra : ∀ field ∈ extra, field.2.IsData) :
    IsEntry (.object (extra.foldl (fun entries field => Entries.set entries field.1 field.2) entries)) := by
  induction extra generalizing entries with
  | nil => exact h
  | cons field extra ih =>
    obtain ⟨hfield, hextra⟩ := List.forall_mem_cons.mp hextra
    exact ih (h.set field.1 hfield) hextra

theorem AuditEvent.IsData.isEntry {e : AuditEvent} (h : e.IsData) (id time : String) :
    IsEntry (e.toValue id time) := by
  refine IsEntry.foldl_set ⟨?_, ⟨_, _, rfl⟩⟩ h.extra
  simp [h.templateId, h.actor, h.versionId, h.before, h.after]

theorem IsEntry.tight (h : IsEntry event) : Tight (Json.compactChars .ascii event) := by
  obtain ⟨id, entries, rfl⟩ := h.idFirst
  have hopen : Tight ['\x7b'] := Text.tight_of_forall (List.cons_ne_nil _ _) (List.forall_mem_singleton.mpr rfl)
  have hclose : Tight ['\x7d'] := Text.tight_of_forall (List.cons_ne_nil _ _) (List.forall_mem_singleton.mpr rfl)
  exact hopen.append hclose (Json.compactEntries .ascii (("id", id) :: entries))

/-! ## One line -/

namespace AuditLine

theorem valueOfText_append_of_blank (h : IsEntry event) {text : String} (hblank : isBlankText text = true) :
    valueOfText (text ++ Json.compact event) = .ok (some event) := by
  have hgap := Text.trim_eq_nil_iff.mp ((Text.isBlankText_iff text).mp hblank)
  have htrimmed : trimmed (text ++ Json.compact event) = Json.compact event := by
    rw [trimmed, String.toList_append, Text.trim_gap_append hgap, Json.compact, String.toList_ofList,
      h.tight.trim_eq]
  have hempty : (Json.compact event).isEmpty = false := by
    rw [← Bool.not_eq_true, String.isEmpty_iff, ← String.toList_inj, Json.compact, String.toList_ofList]
    exact h.tight.ne_nil
  rw [valueOfText, htrimmed, hempty, readJson, Json.read_compact h.isData]
  rfl

theorem isSpace_eq_false {c : Char} (h : isBlank c = false) : Json.isSpace c = false := by
  rw [← Bool.not_eq_true] at h ⊢
  intro hspace
  simp only [Json.isSpace, Bool.or_eq_true, beq_iff_eq] at hspace
  rcases hspace with ((rfl | rfl) | rfl) | rfl <;> exact h (by decide)

/-- Behind anything else an event is not read, and what is in front of it is not read either. -/
theorem eq_none_of_valueOfText_append (h : IsEntry event) {text : String} (hblank : isBlankText text = false)
    {v : Option Value} (hread : valueOfText (text ++ Json.compact event) = .ok v) : v = none := by
  have htrim : trim (text ++ Json.compact event).toList =
      trimStart text.toList ++ Json.compactChars .ascii event := by
    rw [String.toList_append, Json.compact, String.toList_ofList, h.tight.trim_append]
  have hne : trimStart text.toList ≠ [] := fun hnil => by
    have hgap : trim text.toList = [] := by
      rw [trim, hnil]
      rfl
    rw [(Text.isBlankText_iff text).mpr hgap] at hblank
    cases hblank
  obtain ⟨c, tail, hstart⟩ := List.exists_cons_of_ne_nil hne
  have hspace : Json.isSpace c = false :=
    isSpace_eq_false (Text.not_isBlank_of_head?_trimStart (s := text.toList) (by simp [hstart]))
  have hnext : Json.StartsRecord (Json.compactChars .ascii event) := by
    obtain ⟨id, entries, rfl⟩ := h.idFirst
    exact Json.startsRecord_compactChars h.isData
  unfold valueOfText trimmed at hread
  rw [htrim, hstart] at hread
  dsimp only at hread
  split at hread
  · exact (Except.ok.inj hread).symm
  · split at hread
    · rename_i w hw
      exact absurd hw (Json.not_read_append hnext hspace w)
    · split at hread
      · cases hread
      · exact (Except.ok.inj hread).symm

end AuditLine

/-! ## The lines of a trail -/

namespace AuditTrail

variable {t : AuditTrail}

/-- The values that lines hold. -/
def readLines (lines : List AuditLine) : Outcome (List Value) := do
  return (← lines.mapM AuditLine.value).filterMap id

/-- One line more holds a value more, or none. -/
theorem readLines_concat_eq_ok {lines : List AuditLine} {line : AuditLine} : readLines (lines ++ [line]) = .ok vs ↔
    ∃ before last, readLines lines = .ok before ∧ line.value = .ok last ∧ vs = before ++ last.toList := by
  have hfilter (before : List (Option Value)) (last : Option Value) :
      (before ++ [last]).filterMap id = before.filterMap id ++ last.toList := by
    rw [List.filterMap_append]
    cases last <;> rfl
  constructor
  · intro h
    obtain ⟨all, hall, h⟩ := Outcome.bind_eq_ok.mp h
    obtain ⟨before, lasts, hbefore, hlasts, rfl⟩ := Outcome.mapM_append_eq_ok.mp hall
    obtain _ | ⟨hlast, hnil⟩ := Outcome.mapM_eq_ok.mp hlasts
    obtain rfl := List.forall₂_nil_left_iff.mp hnil
    refine ⟨before.filterMap id, _, Outcome.bind_eq_ok.mpr ⟨before, hbefore, rfl⟩, hlast, ?_⟩
    exact (Except.ok.inj h).symm.trans (hfilter _ _)
  · rintro ⟨vs, last, hvs, hlast, rfl⟩
    obtain ⟨before, hbefore, hvs⟩ := Outcome.bind_eq_ok.mp hvs
    obtain rfl := Except.ok.inj hvs
    refine Outcome.bind_eq_ok.mpr ⟨before ++ [last], ?_, congrArg Except.ok (hfilter _ _)⟩
    exact Outcome.mapM_append_eq_ok.mpr ⟨before, [last], hbefore, Outcome.mapM_eq_ok.mpr (.cons hlast .nil), rfl⟩

theorem values_eq (t : AuditTrail) : t.values = readLines (t.lines ++ [AuditLine.raw t.unfinished]) := rfl

theorem values_finished_eq_ok {lines : List AuditLine} :
    (⟨lines, ""⟩ : AuditTrail).values = .ok vs ↔ readLines lines = .ok vs := by
  have hend : (AuditLine.raw "").value = .ok none := rfl
  rw [values_eq, readLines_concat_eq_ok]
  constructor
  · rintro ⟨before, last, hbefore, hlast, rfl⟩
    obtain rfl := Except.ok.inj (hend.symm.trans hlast)
    rwa [Option.toList_none, List.append_nil]
  · intro h
    exact ⟨vs, none, h, hend, (List.append_nil vs).symm⟩

theorem events_all (t : AuditTrail) : t.events .null .null = t.values := by
  unfold events
  cases t.values <;> rfl

/-- An event is added as one line, which is read as the text of that line is. -/
theorem exists_line (h : IsEntry event) (t : AuditTrail) :
    ∃ line : AuditLine, t.add event = ⟨t.lines ++ [line], ""⟩ ∧
      line.value = AuditLine.valueOfText (t.unfinished ++ Json.compact event) := by
  unfold add
  split
  · rename_i hempty
    rw [String.isEmpty_iff.mp hempty]
    exact ⟨.event event, rfl, (AuditLine.valueOfText_append_of_blank h rfl).symm⟩
  · exact ⟨.raw (t.unfinished ++ Json.compact event), rfl, rfl⟩

theorem values_add_of_blank (h : IsEntry event) (hblank : isBlankText t.unfinished = true)
    (hread : t.values = .ok vs) : (t.add event).values = .ok (vs ++ [event]) := by
  obtain ⟨line, hadd, hline⟩ := exists_line h t
  rw [AuditLine.valueOfText_append_of_blank h hblank] at hline
  obtain ⟨before, last, hbefore, hlast, rfl⟩ := readLines_concat_eq_ok.mp hread
  -- Blanks hold no value.
  have hnone : last = none := by
    have hnil : (trimmed t.unfinished).isEmpty = true := by
      rw [trimmed, (Text.isBlankText_iff _).mp hblank]
      rfl
    rw [AuditLine.value, AuditLine.valueOfText, hnil] at hlast
    exact (Except.ok.inj hlast).symm
  rw [hadd, values_finished_eq_ok, hnone]
  exact readLines_concat_eq_ok.mpr ⟨before, some event, hbefore, hline, by simp⟩

/-- A trail without what follows its last line break. -/
def wholeLines (t : AuditTrail) : AuditTrail := { t with unfinished := "" }

/-- Behind anything else neither the event is read nor what was unfinished. -/
theorem values_wholeLines_of_add (h : IsEntry event) (hblank : isBlankText t.unfinished = false)
    (hread : (t.add event).values = .ok vs) : t.wholeLines.values = .ok vs := by
  obtain ⟨line, hadd, hline⟩ := exists_line h t
  rw [hadd, values_finished_eq_ok] at hread
  obtain ⟨before, last, hbefore, hlast, rfl⟩ := readLines_concat_eq_ok.mp hread
  rw [AuditLine.eq_none_of_valueOfText_append h hblank (hline.symm.trans hlast), Option.toList_none,
    List.append_nil]
  exact values_finished_eq_ok.mpr hbefore

/-- A trail with an event more is read as what was read before and the event just when there was nothing but blanks
behind the last line break. -/
theorem values_add_iff (h : IsEntry event) (hread : t.values = .ok vs) :
    (t.add event).values = .ok (vs ++ [event]) ↔ isBlankText t.unfinished = true := by
  constructor
  · intro hadd
    by_contra hblank
    rw [Bool.not_eq_true] at hblank
    -- What is read then is a part of what was read before.
    have hlines := values_finished_eq_ok.mp (values_wholeLines_of_add h hblank hadd)
    obtain ⟨before, last, hbefore, -, rfl⟩ := readLines_concat_eq_ok.mp hread
    have hlength := congrArg List.length (Except.ok.inj (hbefore.symm.trans hlines))
    simp only [List.length_append, List.length_singleton] at hlength
    omega
  · exact fun hblank => values_add_of_blank h hblank hread

/-! ## Texts -/

theorem splitLines_append (read a b : List Char) : splitLines read (a ++ b) =
    ((splitLines read a).1 ++ (splitLines (splitLines read a).2.toList.reverse b).1,
      (splitLines (splitLines read a).2.toList.reverse b).2) := by
  induction a generalizing read with
  | nil => simp [splitLines]
  | cons c a ih =>
    rw [List.cons_append, splitLines, splitLines]
    split
    · rw [ih []]
      rfl
    · rw [ih (c :: read)]

theorem splitLines_of_not_break {s : List Char} (hs : ∀ c ∈ s, isBreak c = false) (read : List Char) :
    splitLines read s = ([], String.ofList (read.reverse ++ s)) := by
  induction s generalizing read with
  | nil => simp [splitLines]
  | cons c s ih =>
    obtain ⟨hc, hs⟩ := List.forall_mem_cons.mp hs
    rw [splitLines, hc, if_neg Bool.false_ne_true, ih hs]
    simp

theorem not_break_of_mem_unfinished {read : List Char} (hread : ∀ c ∈ read, isBreak c = false) (s : List Char) :
    ∀ c ∈ (splitLines read s).2.toList, isBreak c = false := by
  induction s generalizing read with
  | nil => simpa [splitLines] using hread
  | cons c s ih =>
    rw [splitLines]
    split
    · exact ih (by simp)
    · rename_i hc
      exact ih (List.forall_mem_cons.mpr ⟨by simpa using hc, hread⟩)

theorem addText_eq (t : AuditTrail) (text : String) : t.addText text =
    ⟨t.lines ++ (splitLines [] (t.unfinished ++ text).toList).1.map .raw,
      (splitLines [] (t.unfinished ++ text).toList).2⟩ := rfl

theorem not_break_of_mem_addText (t : AuditTrail) (text : String) :
    ∀ c ∈ (t.addText text).unfinished.toList, isBreak c = false :=
  not_break_of_mem_unfinished (by simp) _

theorem addText_append (t : AuditTrail) (a b : String) : t.addText (a ++ b) = (t.addText a).addText b := by
  have ha : splitLines [] (t.addText a).unfinished.toList = ([], (t.addText a).unfinished) := by
    rw [splitLines_of_not_break (not_break_of_mem_addText t a)]
    simp
  have hb : splitLines [] ((t.addText a).unfinished ++ b).toList =
      splitLines (t.addText a).unfinished.toList.reverse b.toList := by
    rw [String.toList_append, splitLines_append, ha]
    rfl
  rw [addText_eq (t.addText a), hb, addText_eq t (a ++ b), ← String.append_assoc, String.toList_append,
    splitLines_append, addText_eq t a, List.map_append, List.append_assoc]

theorem addText_line (t : AuditTrail) {text : String} (htext : ∀ c ∈ text.toList, isBreak c = false)
    (hunfinished : ∀ c ∈ t.unfinished.toList, isBreak c = false) :
    t.addText (text ++ "\n") = ⟨t.lines ++ [AuditLine.raw (t.unfinished ++ text)], ""⟩ := by
  have hsplit : splitLines [] (t.unfinished ++ (text ++ "\n")).toList = ([t.unfinished ++ text], "") := by
    rw [← String.append_assoc, String.toList_append, splitLines_append, splitLines_of_not_break]
    · simp [splitLines, isBreak]
    · rw [String.toList_append]
      exact List.forall_mem_append.mpr ⟨hunfinished, htext⟩
  rw [addText_eq, hsplit]
  rfl

/-- A trail has the lines of a text: each holds the value that is read from the line of the text, and what follows
the last line break is the same. -/
structure Holds (t : AuditTrail) (text : String) : Prop where
  lines : List.Forall₂ (fun line line' : AuditLine => line.value = line'.value) t.lines (ofText text).lines
  unfinished_eq : t.unfinished = (ofText text).unfinished

theorem holds_ofText (text : String) : (ofText text).Holds text := ⟨List.forall₂_same.mpr fun _ _ => rfl, rfl⟩

theorem Holds.values_eq {text : String} (h : t.Holds text) : t.values = (ofText text).values := by
  have hlines : List.Forall₂ (fun line line' : AuditLine => line.value = line'.value)
      (t.lines ++ [AuditLine.raw t.unfinished]) ((ofText text).lines ++ [AuditLine.raw (ofText text).unfinished]) :=
    List.rel_append h.lines (List.Forall₂.cons (by rw [h.unfinished_eq]) List.Forall₂.nil)
  have hmapM {lines lines' : List AuditLine}
      (hall : List.Forall₂ (fun line line' : AuditLine => line.value = line'.value) lines lines') :
      lines.mapM AuditLine.value = lines'.mapM AuditLine.value := by
    induction hall with
    | nil => rfl
    | cons hline _ ih => rw [List.mapM_cons, List.mapM_cons, hline, ih]
  rw [AuditTrail.values_eq t, AuditTrail.values_eq (ofText text), readLines, readLines, hmapM hlines]

theorem Holds.addText {prior : String} (h : t.Holds prior) (text : String) :
    (t.addText text).Holds (prior ++ text) where
  lines := by
    rw [ofText, addText_append, addText_eq t, addText_eq (AuditTrail.addText {} prior), h.unfinished_eq]
    exact List.rel_append h.lines (List.forall₂_same.mpr fun _ _ => rfl)
  unfinished_eq := by
    rw [ofText, addText_append, addText_eq t, addText_eq (AuditTrail.addText {} prior), h.unfinished_eq]
    rfl

/-- An event is in the trail with its text and a line break. -/
theorem Holds.add {prior : String} (h : t.Holds prior) (hevent : IsEntry event) :
    (t.add event).Holds (prior ++ Json.compact event ++ "\n") := by
  have htext : ∀ c ∈ (Json.compact event).toList, isBreak c = false := by
    intro c hc
    rw [Json.compact, String.toList_ofList] at hc
    have hle := Json.le_toNat_of_mem_compactChars hevent.isData hc
    rw [← Bool.not_eq_true]
    intro hbreak
    simp only [isBreak, Bool.or_eq_true, beq_iff_eq] at hbreak
    rcases hbreak with rfl | rfl <;> exact absurd hle (by decide)
  have hofText : ofText (prior ++ Json.compact event ++ "\n") =
      ⟨(ofText prior).lines ++ [AuditLine.raw (t.unfinished ++ Json.compact event)], ""⟩ := by
    rw [String.append_assoc, ofText, addText_append, h.unfinished_eq]
    exact addText_line _ htext (not_break_of_mem_addText {} prior)
  obtain ⟨line, hadd, hline⟩ := exists_line hevent t
  rw [hadd]
  constructor
  · rw [hofText]
    exact List.rel_append h.lines (.cons hline .nil)
  · rw [hofText]

end AuditTrail

/-! ## Recording -/

open AuditTrail Procedure in
/-- An event of a known action is recorded on any trail. Its text and a line break stand behind the prior text, and
what is read then is read from that text. The event is read after all that was read before just when there were only
blanks behind the last line break; if there was anything else, then what is read is what the whole lines held. How
deep a line may be nested before an interpreter gives up on it is outside the model. -/
theorem events_record_iff (supply : Supply) (w : World) {e : AuditEvent} {prior : String}
    (hprior : w.trail.Holds prior) (hread : w.trail.events .null .null = .ok vs) (hcheck : e.check = .ok ())
    (hdata : e.IsData) :
    ∃ w' event, event = e.toValue (supply.id w.ids) (supply.time w.readings) ∧
      Goes supply w (record e) w' (.ok event) ∧ w'.trail.Holds (prior ++ Json.compact event ++ "\n") ∧
      w'.trail.events .null .null = (ofText (prior ++ Json.compact event ++ "\n")).events .null .null ∧
      (w'.trail.events .null .null = .ok (vs ++ [event]) ↔ isBlankText w.trail.unfinished = true) ∧
      (isBlankText w.trail.unfinished = false → ∀ vs', w'.trail.events .null .null = .ok vs' →
        w.trail.wholeLines.events .null .null = .ok vs') := by
  have hentry := hdata.isEntry (supply.id w.ids) (supply.time w.readings)
  simp only [events_all] at hread ⊢
  have hholds := hprior.add hentry
  exact ⟨_, _, rfl, goes_record hcheck, hholds, hholds.values_eq, values_add_iff hentry hread,
    fun hblank vs' => values_wholeLines_of_add hentry hblank⟩

/-- An event of a new template. -/
def creation : AuditEvent where
  action := "template.created"
  templateId := .text "seal"
  actor := .text "ada"
  after := .object [("text", .text "two\nlines")]

theorem check_creation : creation.check = .ok () := by
  rw [AuditEvent.check, if_pos (by decide +kernel)]

theorem isData_creation : creation.IsData := by
  constructor <;> simp [creation]

/-- Ids and times that are all the same. -/
def fixedSupply : Supply := ⟨fun _ => "e2", fun _ => "noon"⟩

/-- A world with an event in its trail, a line that is no JSON, and blanks. -/
def interruptedWorld : World where
  disk := { audit := some ((({} : AuditTrail).add (creation.toValue "e1" "dawn")).addText "broken\n ") }

/-- The text of its trail. -/
def interruptedText : String := Json.compact (creation.toValue "e1" "dawn") ++ "\n" ++ "broken\n "

open AuditTrail Procedure in
/-- The event behind a broken line is read. -/
theorem events_record_iff_interrupted :
    interruptedWorld.trail.Holds interruptedText ∧
      interruptedWorld.trail.events .null .null = .ok [creation.toValue "e1" "dawn"] ∧
      creation.check = .ok () ∧ creation.IsData ∧ isBlankText interruptedWorld.trail.unfinished = true ∧
      (run fixedSupply interruptedWorld (record creation)).1.trail.events .null .null =
        .ok [creation.toValue "e1" "dawn", creation.toValue "e2" "noon"] := by
  have hfirst := isData_creation.isEntry "e1" "dawn"
  have hholds : interruptedWorld.trail.Holds interruptedText := by
    have htext := ((holds_ofText "").add hfirst).addText "broken\n "
    rwa [String.empty_append] at htext
  have hread : interruptedWorld.trail.events .null .null = .ok [creation.toValue "e1" "dawn"] := by
    have hsplit : splitLines [] ("" ++ "broken\n ").toList = (["broken"], " ") := by decide +kernel
    have htrail : interruptedWorld.trail = ⟨[.event (creation.toValue "e1" "dawn"), .raw "broken"], " "⟩ := by
      show AuditTrail.addText ⟨[.event _], ""⟩ "broken\n " = _
      rw [addText_eq, hsplit]
      rfl
    have hbroken : (∃ v, AuditLine.valueOfText "broken" = .ok v ∧ v.isNone = true) ∧
        ∃ v, AuditLine.valueOfText " " = .ok v ∧ v.isNone = true := by decide +kernel
    obtain ⟨⟨v, hv, hnone⟩, u, hu, hnone'⟩ := hbroken
    obtain rfl := Option.isNone_iff_eq_none.mp hnone
    obtain rfl := Option.isNone_iff_eq_none.mp hnone'
    rw [events_all, htrail, values_eq, readLines]
    simp [List.mapM_cons, AuditLine.value, hv, hu]
  have hblank : isBlankText interruptedWorld.trail.unfinished = true := by decide +kernel
  obtain ⟨w', event, rfl, hgoes, -, -, hiff, -⟩ :=
    events_record_iff fixedSupply interruptedWorld hholds hread check_creation isData_creation
  refine ⟨hholds, hread, check_creation, isData_creation, hblank, ?_⟩
  rw [hgoes.world]
  exact hiff.mpr hblank

/-- A world with a text for a trail. -/
def worldOfText (text : String) : World where
  disk := { audit := some (.ofText text) }

/-- The start of an event that was cut off. -/
def tornEvent : String := "\x7b\"id\": \"e1\", \"action\": \"template.cre"

/-- An event without its line break. -/
def bareEvent : String := "\x7b\"id\": \"e1\"\x7d"

open AuditTrail Procedure in
/-- An event behind one that was cut off is not read, and one behind an event without its line break takes that
along. -/
theorem not_events_record_tornEvent :
    ((worldOfText tornEvent).trail.Holds tornEvent ∧ (worldOfText tornEvent).trail.events .null .null = .ok [] ∧
      creation.check = .ok () ∧ creation.IsData ∧
      (run fixedSupply (worldOfText tornEvent) (record creation)).2.outcome = .ok (creation.toValue "e2" "noon") ∧
      (run fixedSupply (worldOfText tornEvent) (record creation)).1.trail.events .null .null ≠
        .ok ([] ++ [creation.toValue "e2" "noon"])) ∧
    ∃ v, (worldOfText bareEvent).trail.events .null .null = .ok [v] ∧
      ∀ vs, (run fixedSupply (worldOfText bareEvent) (record creation)).1.trail.events .null .null = .ok vs →
        vs = [] := by
  have hevent := isData_creation.isEntry "e2" "noon"
  have htorn : (∃ vs, (worldOfText tornEvent).trail.values = .ok vs ∧ vs.isEmpty = true) ∧
      isBlankText (worldOfText tornEvent).trail.unfinished = false := by decide +kernel
  have hbare : (∃ vs, (worldOfText bareEvent).trail.values = .ok vs ∧ vs.length = 1) ∧
      isBlankText (worldOfText bareEvent).trail.unfinished = false ∧
      ∃ vs, (worldOfText bareEvent).trail.wholeLines.values = .ok vs ∧ vs.isEmpty = true := by decide +kernel
  obtain ⟨⟨before, hbefore, hnil⟩, hopen⟩ := htorn
  obtain rfl := List.isEmpty_iff.mp hnil
  obtain ⟨⟨held, hheld, hone⟩, hopen', left, hleft, hnone⟩ := hbare
  obtain ⟨v, rfl⟩ := List.length_eq_one_iff.mp hone
  obtain rfl := List.isEmpty_iff.mp hnone
  have hgoes (text : String) : Goes fixedSupply (worldOfText text) (record creation) _ _ :=
    goes_record check_creation
  simp only [events_all]
  refine ⟨⟨holds_ofText tornEvent, hbefore, check_creation, isData_creation, (hgoes tornEvent).outcome, ?_⟩, v,
    hheld, ?_⟩
  · rw [(hgoes tornEvent).world]
    intro hread
    have hblank := (values_add_iff hevent hbefore).mp hread
    rw [hopen] at hblank
    cases hblank
  · intro vs hread
    rw [(hgoes bareEvent).world] at hread
    exact Except.ok.inj ((values_wholeLines_of_add hevent hopen' hread).symm.trans hleft)

end Pagewright
