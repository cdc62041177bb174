import Pagewright.Proofs.Number.Bits
import Pagewright.Proofs.Store.Integrity
import Pagewright.Proofs.Store.Replay

/-!
# The audit events of a template

The events of a template are listed from the newest on, as many as the limit asks for (`audit_law_iff`). Two
cases stand apart: an infinite limit asks for no number and ends the listing, and the empty id, which names
no template, lists the events of all.
-/

namespace Pagewright.Store

open Procedure

variable {supply : Supply} {w : World} {events : List Value} {id : String} {limit : Value}

/-! ## Limits -/

/-- An infinite double. -/
def IsInfinite (v : Value) : Prop := ∃ x negative, v = .float x ∧ Binary64.decode x = .infinite negative

theorem not_isInfinite_of_ne (h : ∀ x, limit ≠ .float x) : ¬IsInfinite limit := by
  rintro ⟨x, negative, rfl, -⟩
  exact h x rfl

/-- The number of events that a limit asks for: its whole part, brought into the range from 1 to 500, and 100
for zero and for what has no whole part. -/
def askedLimit (limit : Value) : ℕ :=
  match limit.toWhole with
  | .ok n => if n = 0 then 100 else (max 1 (min n 500)).toNat
  | .error _ => 100

theorem one_le_askedLimit (limit : Value) : 1 ≤ askedLimit limit := by
  unfold askedLimit
  split
  · split <;> omega
  · omega

theorem limitOf_of_ok {n : ℤ} (h : limit.toWhole = .ok n) : limitOf limit = .ok (askedLimit limit) := by
  simp only [limitOf, askedLimit, h]
  by_cases hzero : n = 0
  · simp only [hzero, if_true]
    rfl
  · simp only [hzero, if_false]
    rfl

theorem limitOf_eq (h : ¬IsInfinite limit) : limitOf limit = .ok (askedLimit limit) := by
  cases hwhole : limit.toWhole with
  | ok n => exact limitOf_of_ok hwhole
  | error e =>
    have hasked : askedLimit limit = 100 := by simp only [askedLimit, hwhole]
    rw [hasked]
    cases limit with
    | int n => cases hwhole
    | bool b => cases hwhole
    | float x =>
      cases hdecode : Binary64.decode x with
      | finite v => simp [Value.toWhole, Binary64.truncate?, hdecode] at hwhole
      | infinite negative => exact absurd ⟨x, negative, rfl, hdecode⟩ h
      | nan => simp [limitOf, Value.toWhole, Binary64.truncate?, Binary64.isNaN, hdecode, undefinedOn,
          defaultLimit, maxLimit]
    | text s =>
      obtain rfl : .undefinedOn (.wrongKind (.text s)) = e := by
        unfold Value.toWhole at hwhole
        dsimp only at hwhole
        split at hwhole
        · cases hwhole
        · exact Except.error.inj hwhole
      simp only [limitOf, hwhole]
      rfl
    | _ => rfl

theorem limitOf_of_isInfinite (h : IsInfinite limit) : limitOf limit = .error (.undefinedOn .notFinite) := by
  obtain ⟨x, negative, rfl, hdecode⟩ := h
  simp [limitOf, Value.toWhole, Binary64.truncate?, Binary64.isNaN, hdecode, undefinedOn]

/-! ## Events -/

/-- The empty id stands for all templates. -/
theorem events_trailOf_all (events : List Value) : (trailOf events).events (.text "") .null = .ok events := by
  unfold AuditTrail.events
  rw [values_trailOf]
  rfl

/-- The events that are listed for an id. -/
def eventsFor (id : String) (events : List Value) : List Value :=
  if id = "" then events else eventsAbout id events

theorem goes_audit (htrail : w.trail = trailOf events) (htraced : ∀ event ∈ events, IsTraced event)
    (hlimit : ¬IsInfinite limit) (id : String) :
    Goes supply w (audit id limit) w (.ok ((eventsFor id events).reverse.take (askedLimit limit))) := by
  have hevents : (w.disk.audit.getD {}).events (.text id) .null = .ok (eventsFor id events) := by
    change w.trail.events _ _ = _
    rw [htrail, eventsFor]
    by_cases hid : id = ""
    · rw [if_pos hid, hid]
      exact events_trailOf_all events
    · rw [if_neg hid]
      exact events_trailOf (fun event hevent => (htraced event hevent).isEvent) hid
  have hread : Goes supply w (do
      let found ← liftM ((w.disk.audit.getD {}).events (.text id) .null)
      return found.reverse.take (askedLimit limit) : Procedure (List Value)) w
      (.ok ((eventsFor id events).reverse.take (askedLimit limit))) := by
    rw [hevents]
    exact Goes.bind (goes_lift _) (goes_pure _)
  unfold audit
  rw [limitOf_eq hlimit]
  exact Goes.bind (goes_lift _) ⟨hread.world, hread.outcome⟩

theorem goes_audit_error (hlimit : IsInfinite limit) (id : String) :
    Goes supply w (audit id limit) w (.error (.undefinedOn .notFinite)) := by
  unfold audit
  rw [limitOf_of_isInfinite hlimit]
  exact Goes.bind_error (goes_lift _)

theorem eventsAbout_empty (htraced : ∀ event ∈ events, IsTraced event) : eventsAbout "" events = [] := by
  refine List.filter_eq_nil_iff.mpr fun event hevent habout => ?_
  obtain ⟨id, hid, htemplate⟩ := (htraced event hevent).template
  rw [isAbout, htemplate] at habout
  exact hid (beq_iff_eq.mp habout)

theorem sound_runOperations (hids : ∀ k, IsHexId (supply.id k)) (operations : List Operation) :
    Sound (runOperations supply {} operations).1 := by
  rw [runOperations_eq]
  exact (sound_empty.runCalls hids _).sound

/-- After any operations on an empty store, the trail holds events that each name a template, and the listing
for an id is told by them: with a limit that is not infinite it gives the events about the template, the
newest first and as many as the limit asks for, or those of all templates if the id is empty; with an
infinite limit it fails. So it gives the newest events about the template just when the limit is not infinite
and the id is not empty, as long as there are any events. -/
theorem audit_law_iff (hids : ∀ k, IsHexId (supply.id k)) (operations : List Operation) :
    ∃ w events, w = (runOperations supply {} operations).1 ∧ w.trail.values = .ok events ∧
      (∀ event ∈ events, IsTraced event) ∧
      ∀ id limit,
        (¬IsInfinite limit → Goes supply w (audit id limit) w
          (.ok ((eventsFor id events).reverse.take (askedLimit limit)))) ∧
        (IsInfinite limit → Goes supply w (audit id limit) w (.error (.undefinedOn .notFinite))) ∧
        (Goes supply w (audit id limit) w (.ok ((eventsAbout id events).reverse.take (askedLimit limit))) ↔
          ¬IsInfinite limit ∧ (id = "" → events = [])) := by
  obtain ⟨events, htrail, htraced⟩ := (sound_runOperations hids operations).trail
  refine ⟨_, events, rfl, by rw [htrail]; exact values_trailOf events, htraced, fun id limit =>
    ⟨fun hlimit => goes_audit htrail htraced hlimit id, fun hlimit => goes_audit_error hlimit id, ?_⟩⟩
  constructor
  · intro hgoes
    have hlimit : ¬IsInfinite limit := fun hinfinite => hgoes.not_error (goes_audit_error hinfinite id)
    refine ⟨hlimit, ?_⟩
    rintro rfl
    have hsame := Except.ok.inj (hgoes.unique (goes_audit htrail htraced hlimit "")).2
    rw [eventsAbout_empty htraced, eventsFor, if_pos rfl, List.reverse_nil, List.take_nil, eq_comm,
      List.take_eq_nil_iff, List.reverse_eq_nil_iff] at hsame
    exact hsame.resolve_left (by have := one_le_askedLimit limit; omega)
  · rintro ⟨hlimit, hempty⟩
    have hfor : eventsFor id events = eventsAbout id events := by
      by_cases hid : id = ""
      · rw [hempty hid, eventsFor, if_pos hid]
        rfl
      · rw [eventsFor, if_neg hid]
    exact hfor ▸ goes_audit htrail htraced hlimit id

/-- The two newest of the four events about a template are listed, asked for by a text. -/
theorem audit_law_iff_ledger :
    ∃ w events, w = (runOperations counted {} ledger).1 ∧ w.trail.values = .ok events ∧
      Goes counted w (audit (counted.id 0) (.text " 2 ")) w
        (.ok ((eventsAbout (counted.id 0) events).reverse.take 2)) ∧
      ((eventsAbout (counted.id 0) events).map fun event => (eventField "action" event).display) =
        ["template.created", "template.metadata.updated", "template.version.created",
          "template.metadata.updated"] := by
  have htold := ledger_told.2.2
  have hlimit : askedLimit (.text " 2 ") = 2 := by decide +kernel
  have hid : counted.id 0 ≠ "" := fun h => absurd (isHexId_counted 0).length_eq (by rw [h]; decide)
  obtain ⟨w, events, hw, hvalues, -, hlaw⟩ := audit_law_iff isHexId_counted ledger
  rw [← hw, hvalues] at htold
  have hgoes := (hlaw (counted.id 0) (.text " 2 ")).2.2.mpr
    ⟨not_isInfinite_of_ne (by simp), fun h => absurd h hid⟩
  rw [hlimit] at hgoes
  refine ⟨w, events, hw, hvalues, hgoes, ?_⟩
  have hactions := congrArg (List.map Prod.fst) (Option.some.inj htold)
  rwa [List.map_map] at hactions

/-- One template is created. -/
def oneInvoice : List Operation := [.call (.create (.text "Invoice") .null .null .null)]

/-- When one template was created, the empty id, about which there is no event, lists one, and an infinite
limit lists nothing. -/
theorem not_audit_law_oneInvoice :
    ∃ w events, w = (runOperations counted {} oneInvoice).1 ∧ w.trail.values = .ok events ∧
      ¬ Goes counted w (audit "" .null) w (.ok ((eventsAbout "" events).reverse.take (askedLimit .null))) ∧
      ∀ listed, ¬ Goes counted w (audit (counted.id 0) (.float Binary64.infinity)) w (.ok listed) := by
  have hlength : (runOperations counted {} oneInvoice).1.trail.values.toOption.map List.length = some 1 := by
    decide +kernel
  have hnull : ¬IsInfinite .null := not_isInfinite_of_ne (by simp)
  have hinfinite : IsInfinite (.float Binary64.infinity) := ⟨_, false, rfl, by decide +kernel⟩
  obtain ⟨events, htrail, htraced⟩ := (sound_runOperations isHexId_counted oneInvoice).trail
  generalize (runOperations counted {} oneInvoice).1 = w at hlength htrail
  have hvalues : w.trail.values = .ok events := by
    rw [htrail]
    exact values_trailOf events
  refine ⟨w, events, rfl, hvalues, fun hgoes => ?_, fun listed hgoes =>
    hgoes.not_error (goes_audit_error hinfinite _)⟩
  have hsame := Except.ok.inj (hgoes.unique (goes_audit htrail htraced hnull "")).2
  have hnone := congrArg List.length hsame
  rw [eventsAbout_empty htraced, eventsFor, if_pos rfl, List.reverse_nil, List.take_nil, List.length_nil,
    List.length_take, List.length_reverse] at hnone
  rw [hvalues] at hlength
  have hone : events.length = 1 := Option.some.inj hlength
  have hasked := one_le_askedLimit .null
  omega

end Pagewright.Store
