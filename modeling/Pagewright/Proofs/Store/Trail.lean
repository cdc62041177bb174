import Pagewright.Proofs.Store.Run
import Pagewright.Store.Operations

/-!
# Events of an audit trail

A trail that only the store has written to holds its events line by line (`trailOf`), and reading it gives
these events back, all of them (`values_trailOf`) or those of one template (`events_trailOf`).

The events of a template tell its history when they are folded from the oldest on: `contentAfter` is the
content that some events lead to, `metadataAfter` the name, description and status. Events replay to a
template (`Replays`) if each of them starts from what those before it led to, and all of them lead to the
template as it is stored.
-/

namespace Pagewright

/-! ## Fields of events -/

/-- The value under a key of an event. -/
def eventField (key : String) : Value → Value
  | .object entries => Entries.get entries key
  | _ => .null

/-- Whether an event has an action. -/
def hasAction (action : String) (event : Value) : Bool := (eventField "action" event).same (.text action)

/-- Whether an event gives its template a content. -/
def setsContent (event : Value) : Bool :=
  hasAction "template.created" event || hasAction "template.version.created" event

/-- Whether an event gives its template a name, description and status. -/
def setsMetadata (event : Value) : Bool := hasAction "template.metadata.updated" event

/-- Whether an event is about a template. -/
def isAbout (id : String) (event : Value) : Bool := (eventField "template_id" event).same (.text id)

/-- The events about a template. -/
def eventsAbout (id : String) (events : List Value) : List Value := events.filter (isAbout id)

theorem eventsAbout_concat (id : String) (events : List Value) (event : Value) :
    eventsAbout id (events ++ [event]) =
      if isAbout id event then eventsAbout id events ++ [event] else eventsAbout id events := by
  unfold eventsAbout
  rw [List.filter_append, List.filter_singleton]
  cases isAbout id event with
  | false => exact List.append_nil _
  | true => rfl

/-! ## Reading a trail -/

/-- The trail with some events and nothing else. -/
def trailOf (events : List Value) : AuditTrail := ⟨events.map .event, ""⟩

@[simp] theorem trailOf_add (events : List Value) (event : Value) :
    (trailOf events).add event = trailOf (events ++ [event]) := by
  simp [trailOf, AuditTrail.add]

theorem mapM_value_event (events : List Value) :
    (events.map AuditLine.event).mapM AuditLine.value = .ok (events.map some) := by
  induction events with
  | nil => rfl
  | cons event events ih =>
    rw [List.map_cons, List.mapM_cons, ih]
    rfl

/-- What was written is read back. -/
theorem values_trailOf (events : List Value) : (trailOf events).values = .ok events := by
  have hlast : [AuditLine.raw ""].mapM AuditLine.value = .ok [none] := rfl
  unfold AuditTrail.values trailOf
  rw [List.mapM_append, mapM_value_event, hlast]
  change Except.ok (List.filterMap id (events.map some ++ [none])) = _
  rw [List.filterMap_append, List.filterMap_map]
  simp

/-- An event is an object. -/
def IsEvent (event : Value) : Prop := ∃ entries, event = .object entries

/-- The events of a template are read back. -/
theorem events_trailOf {events : List Value} (hevents : ∀ event ∈ events, IsEvent event) {id : String}
    (hid : id ≠ "") : (trailOf events).events (.text id) .null = .ok (eventsAbout id events) := by
  have hgiven : (Value.text id).isGiven = true := by simpa [Value.isGiven] using hid
  have hselect : AuditTrail.select "template_id" (.text id) events = .ok (eventsAbout id events) := by
    rw [AuditTrail.select, if_pos hgiven]
    refine Outcome.filterM_eq_filter fun event hevent => ?_
    obtain ⟨entries, rfl⟩ := hevents event hevent
    rfl
  unfold AuditTrail.events
  rw [values_trailOf]
  change (AuditTrail.select "template_id" (.text id) events >>= AuditTrail.select "action" .null) = _
  rw [hselect]
  rfl

/-! ## Folding events -/

/-- The content that events lead to, from the oldest on. -/
def contentAfter (events : List Value) : Value :=
  events.foldl (fun content event => if setsContent event then eventField "after" event else content) .null

/-- The name, description and status that events lead to, if one of them sets these. -/
def metadataAfter (events : List Value) : Option Value :=
  events.foldl (fun metadata event =>
    if setsMetadata event then some (eventField "after" event) else metadata) none

theorem contentAfter_concat (events : List Value) (event : Value) :
    contentAfter (events ++ [event]) =
      if setsContent event then eventField "after" event else contentAfter events := by
  rw [contentAfter, List.foldl_append]
  rfl

theorem metadataAfter_concat (events : List Value) (event : Value) :
    metadataAfter (events ++ [event]) =
      if setsMetadata event then some (eventField "after" event) else metadataAfter events := by
  rw [metadataAfter, List.foldl_append]
  rfl

theorem isSome_metadataAfter (events : List Value) :
    (metadataAfter events).isSome = events.any setsMetadata := by
  induction events using List.reverseRecOn with
  | nil => rfl
  | append_singleton events event ih =>
    rw [metadataAfter_concat, List.any_append, ← ih]
    cases hsets : setsMetadata event with
    | false => simp [hsets]
    | true => simp [hsets]

/-! ## Replaying events -/

/-- An event starts from what the events before it led to. -/
structure Continues (before : List Value) (event : Value) : Prop where
  content_eq : setsContent event = true → eventField "before" event = contentAfter before
  metadata_eq : setsMetadata event = true → ∀ metadata, metadataAfter before = some metadata →
    eventField "before" event = metadata

/-- The events of a template tell its history: each one starts from what those before it led to, and all
of them lead to the content of the current version and, if one sets them, to the stored name, description
and status. -/
structure Replays (events : List Value) (t : StoredTemplate) : Prop where
  continues : ∀ before event after, events = before ++ event :: after → Continues before event
  content_eq : ∃ current, t.version = some current ∧ contentAfter events = current.content
  metadata_eq : events.any setsMetadata = true → metadataAfter events = some t.record.metadata

theorem continues_concat {events : List Value} {event : Value}
    (h : ∀ before event after, events = before ++ event :: after → Continues before event)
    (hevent : Continues events event) (before : List Value) (e : Value) (after : List Value)
    (heq : events ++ [event] = before ++ e :: after) : Continues before e := by
  -- The event in question is the new one or stands among the others.
  rcases List.eq_nil_or_concat after with rfl | ⟨rest, last, rfl⟩
  · obtain ⟨rfl, hlast⟩ := List.append_inj' heq rfl
    obtain rfl := List.head_eq_of_cons_eq hlast
    exact hevent
  · rw [List.concat_eq_append, ← List.cons_append, ← List.append_assoc] at heq
    exact h before e rest (List.append_inj' heq rfl).1

/-- The event of a new content leads on to a version with it. -/
theorem Replays.concat_content {events : List Value} {event : Value} {t t' : StoredTemplate}
    {current : TemplateVersion} (h : Replays events t) (hsets : setsContent event = true)
    (hnot : setsMetadata event = false) (hbefore : eventField "before" event = contentAfter events)
    (hversion : t'.version = some current) (hafter : eventField "after" event = current.content)
    (hmetadata : t'.record.metadata = t.record.metadata) : Replays (events ++ [event]) t' where
  continues := continues_concat h.continues
    ⟨fun _ => hbefore, fun hsets' => absurd (hnot.symm.trans hsets') Bool.false_ne_true⟩
  content_eq := by
    refine ⟨current, hversion, ?_⟩
    rw [contentAfter_concat, if_pos hsets, hafter]
  metadata_eq hany := by
    rw [List.any_append, List.any_cons, hnot, List.any_nil, Bool.or_self, Bool.or_false] at hany
    rw [metadataAfter_concat, hnot, hmetadata]
    exact h.metadata_eq hany

/-- The event of new metadata leads on to a record with them. -/
theorem Replays.concat_metadata {events : List Value} {event : Value} {t t' : StoredTemplate}
    (h : Replays events t) (hsets : setsMetadata event = true) (hnot : setsContent event = false)
    (hbefore : eventField "before" event = t.record.metadata)
    (hafter : eventField "after" event = t'.record.metadata) (hversion : t'.version = t.version) :
    Replays (events ++ [event]) t' where
  continues := by
    refine continues_concat h.continues ⟨fun hsets' => absurd (hnot.symm.trans hsets') Bool.false_ne_true,
      fun _ metadata hmetadata => ?_⟩
    have hany : events.any setsMetadata = true := by
      rw [← isSome_metadataAfter, hmetadata]
      rfl
    rw [hbefore]
    exact Option.some.inj ((h.metadata_eq hany).symm.trans hmetadata)
  content_eq := by
    rw [contentAfter_concat, hnot, hversion]
    exact h.content_eq
  metadata_eq _ := by rw [metadataAfter_concat, if_pos hsets, hafter]

theorem replays_first {event : Value} {t : StoredTemplate} {current : TemplateVersion}
    (hsets : setsContent event = true) (hnot : setsMetadata event = false)
    (hbefore : eventField "before" event = .null) (hversion : t.version = some current)
    (hafter : eventField "after" event = current.content) : Replays [event] t where
  continues := by
    have hfirst : Continues [] event :=
      ⟨fun _ => hbefore, fun hsets' => absurd (hnot.symm.trans hsets') Bool.false_ne_true⟩
    exact continues_concat (by simp) hfirst
  content_eq := by
    refine ⟨current, hversion, ?_⟩
    rw [← List.nil_append [event], contentAfter_concat, if_pos hsets, hafter]
  metadata_eq hany := by
    rw [List.any_cons, hnot] at hany
    exact absurd hany Bool.false_ne_true

end Pagewright
