import Pagewright.Proofs.Store.History
import Pagewright.Proofs.Store.Readings
import Pagewright.Proofs.Store.Trail

/-!
# The audit trail as a history

The operations of a store are the calls, which change it, and the readings, which do not
(`runOperations_eq`). After any number of operations on an empty store the audit trail has one event for
each call that succeeded, in order, and none for the rejected ones, and the events of every template
replay to what the store holds of it (`trail_replays`).

The events are kept in step with the replies and the files together (`Recorded`), call by call
(`Recorded.step`).
-/

namespace Pagewright.Store

open Procedure

variable {supply : Supply} {w w' : World} {replies : List Reply} {events : List Value} {event : Value}
  {c : Call} {o : Outcome StoredTemplate} {id other : String} {t t' : StoredTemplate}
  {vs : List TemplateVersion} {n : ℕ}

/-! ## Operations -/

/-- An operation of a store. -/
inductive Operation where
  | call (c : Call)
  | get (id : String)
  | list
  | versions (id : String)
  | audit (id : String) (limit : Value)

/-- The call that an operation is, if it is not a reading. -/
def Operation.call? : Operation → Option Call
  | .call c => some c
  | _ => none

/-- Operations one after the other: the world then, and the replies to the calls. -/
def runOperations (supply : Supply) (w : World) : List Operation → World × List Reply
  | [] => (w, [])
  | .call c :: rest =>
    let (w', result) := run supply w c.procedure
    let (w'', replies) := runOperations supply w' rest
    (w'', ⟨c, result.outcome⟩ :: replies)
  | .get id :: rest => runOperations supply (run supply w (Store.get id)).1 rest
  | .list :: rest => runOperations supply (run supply w Store.list).1 rest
  | .versions id :: rest => runOperations supply (run supply w (Store.versions id)).1 rest
  | .audit id limit :: rest => runOperations supply (run supply w (Store.audit id limit)).1 rest

/-- Operations do what the calls among them do. -/
theorem runOperations_eq (supply : Supply) (w : World) (operations : List Operation) :
    runOperations supply w operations = runCalls supply w (operations.filterMap Operation.call?) := by
  induction operations generalizing w with
  | nil => rfl
  | cons operation rest ih =>
    cases operation with
    | call c =>
      have hcall : (Operation.call c).call? = some c := rfl
      rw [List.filterMap_cons_some hcall, runOperations, runCalls]
      simp only [ih]
    | get id => rw [List.filterMap_cons_none rfl, runOperations, (looks_get id).reads supply w, ih]
    | list => rw [List.filterMap_cons_none rfl, runOperations, looks_list.reads supply w, ih]
    | versions id => rw [List.filterMap_cons_none rfl, runOperations, (looks_versions id).reads supply w, ih]
    | audit id limit =>
      rw [List.filterMap_cons_none rfl, runOperations, (looks_audit id limit).reads supply w, ih]

/-! ## Calls and their events -/

/-- The action that a call is recorded as. -/
def Call.action : Call → String
  | create .. => "template.created"
  | version .. => "template.version.created"
  | update .. => "template.metadata.updated"

/-- Who makes a call. -/
def Call.actor : Call → Value
  | create _ _ _ actor => actor
  | version _ _ actor => actor
  | update _ _ _ _ actor => actor

/-- Whether a call succeeded. -/
def Reply.succeeded (reply : Reply) : Bool := reply.outcome.toBool

/-- An event names who makes a call, or the system if nobody is given. -/
structure NamesActor (c : Call) (event : Value) : Prop where
  given : c.actor.isGiven = true → eventField "actor_id" event = c.actor
  nobody : c.actor.isGiven = false → eventField "actor_id" event = .text "system"

theorem namesActor_of_actorOf {c : Call} {event : Value} (h : eventField "actor_id" event = actorOf c.actor) :
    NamesActor c event where
  given hgiven := by rw [h, actorOf, Value.orElse, if_pos hgiven]
  nobody hnone := by
    rw [h, actorOf, Value.orElse, hnone]
    rfl

/-- An event tells of a call that succeeded: its action and actor, and the template that it returned with
the version that is current since. -/
def TellsOf (reply : Reply) (event : Value) : Prop :=
  ∃ t current, reply.outcome = .ok t ∧ t.version = some current ∧
    eventField "action" event = .text reply.call.action ∧
    NamesActor reply.call event ∧
    eventField "template_id" event = t.record.id ∧
    eventField "version_id" event = current.id

theorem IsStored.version_eq {d : Disk} (h : IsStored d id t vs) : t.version = vs.getLast? := by
  obtain ⟨current, hlast, hversion, -⟩ := h.current
  exact hversion.trans hlast.symm

/-! ## Events in step with replies and files -/

/-- What the events tell of an id: how a template got to what is stored under it, or nothing, and there
is none. -/
inductive Told (w : World) (events : List Value) (id : String) : Prop where
  | stored {t : StoredTemplate} {vs : List TemplateVersion} (h : IsStored w.disk id t vs)
      (hreplays : Replays (eventsAbout id events) t)
  | absent (h : Absent w.disk id) (hnone : eventsAbout id events = [])

/-- The trail of a world holds some events, which tell of the calls that succeeded and of what is
stored. -/
structure Recorded (w : World) (replies : List Reply) (events : List Value) : Prop where
  trail_eq : w.trail = trailOf events
  isEvent : ∀ event ∈ events, IsEvent event
  tellsOf : List.Forall₂ TellsOf (replies.filter Reply.succeeded) events
  told : ∀ id, Told w events id

theorem recorded_empty : Recorded {} [] [] where
  trail_eq := rfl
  isEvent := by simp
  tellsOf := .nil
  told _ := .absent ⟨rfl, rfl, by simp, rfl, by simp⟩ rfl

theorem Told.of_isStored (h : Told w events id) (hstored : IsStored w.disk id t vs) :
    Replays (eventsAbout id events) t := by
  cases h with
  | absent habsent _ => exact absurd hstored habsent.not_isStored
  | stored h hreplays =>
    obtain ⟨rfl, rfl⟩ := hstored.unique h
    exact hreplays

theorem Told.of_absent (h : Told w events id) (habsent : Absent w.disk id) : eventsAbout id events = [] := by
  cases h with
  | stored hstored _ => exact absurd hstored habsent.not_isStored
  | absent _ hnone => exact hnone

theorem Told.of_elsewhere (h : Told w events other) (hd : Elsewhere id w.disk w'.disk) (hne : other ≠ id)
    (habout : isAbout other event = false) : Told w' (events ++ [event]) other := by
  have hsame : eventsAbout other (events ++ [event]) = eventsAbout other events := by
    rw [eventsAbout_concat, habout]
    rfl
  cases h with
  | stored hstored hreplays => exact .stored (hstored.of_elsewhere hd hne) (hsame ▸ hreplays)
  | absent habsent hnone => exact .absent (habsent.of_elsewhere hd hne) (hsame.trans hnone)

/-- A call about one template that adds an event keeps events, replies and files in step. -/
theorem Recorded.concat (h : Recorded w replies events) (hchanged : Changed w.disk w'.disk id t' vs)
    {reply : Reply} (hreply : reply.outcome = .ok t') (htrail : w'.trail = w.trail.add event)
    (hevent : IsEvent event) (htells : TellsOf reply event)
    (hreplays : Replays (eventsAbout id events ++ [event]) t') :
    Recorded w' (replies ++ [reply]) (events ++ [event]) where
  trail_eq := by rw [htrail, h.trail_eq, trailOf_add]
  isEvent e he := by
    rcases List.mem_append.mp he with he | he
    · exact h.isEvent e he
    · exact List.mem_singleton.mp he ▸ hevent
  tellsOf := by
    have hsucceeded : [reply].filter Reply.succeeded = [reply] := by
      simp [Reply.succeeded, hreply, Except.toBool]
    rw [List.filter_append, hsucceeded]
    exact List.rel_append h.tellsOf (.cons htells .nil)
  told := by
    have habout (other : String) : isAbout other event = (id == other) := by
      obtain ⟨t, current, hok, -, -, -, htemplate, -⟩ := htells
      obtain rfl := Except.ok.inj (hreply.symm.trans hok)
      rw [isAbout, htemplate, hchanged.stored.id_eq]
      rfl
    intro other
    by_cases hother : other = id
    · subst hother
      refine .stored hchanged.stored ?_
      rw [eventsAbout_concat, habout, BEq.rfl]
      exact hreplays
    · refine (h.told other).of_elsewhere hchanged.elsewhere hother ?_
      rw [habout]
      exact beq_false_of_ne fun heq => hother heq.symm

theorem Recorded.rejected (h : Recorded w replies events) (c : Call) (e : Failure) :
    Recorded w (replies ++ [⟨c, .error e⟩]) events where
  trail_eq := h.trail_eq
  isEvent := h.isEvent
  tellsOf := by
    rw [List.filter_append]
    exact (List.append_nil _).symm ▸ h.tellsOf
  told := h.told

/-- A call keeps events, replies and files in step. -/
theorem Recorded.step (h : Recorded w replies events) (he : Effect supply w c w' o) :
    ∃ more, Recorded w' (replies ++ [⟨c, o⟩]) (events ++ more) := by
  cases he with
  | rejected c e =>
    refine ⟨[], ?_⟩
    rw [List.append_nil]
    exact h.rejected c e
  | @created name description content actor w' t v hids habsent hcontent hchanged hevent =>
    obtain ⟨eventId, time, htrail⟩ := hevent
    obtain ⟨current, -, hcurrent, hid⟩ := hchanged.stored.current
    have hversion : t.version = some v := hchanged.stored.version_eq
    refine ⟨_, h.concat hchanged rfl htrail ⟨_, rfl⟩ ⟨t, current, rfl, hcurrent, rfl, namesActor_of_actorOf rfl, rfl, hid⟩ ?_⟩
    rw [(h.told _).of_absent habsent]
    exact replays_first rfl rfl rfl hversion hcontent.symm
  | @versioned id₀ content actor w' t t' vs v old hids hstored hcontent hchanged hmetadata hold hevent =>
    obtain ⟨eventId, time, htrail⟩ := hevent
    obtain ⟨current, -, hcurrent, hid⟩ := hchanged.stored.current
    have hversion : t'.version = some v := hchanged.stored.version_eq.trans List.getLast?_concat
    have hreplays : Replays (eventsAbout id₀ events) t := (h.told id₀).of_isStored hstored
    have hbefore : old.content = contentAfter (eventsAbout id₀ events) := by
      obtain ⟨old', hold', hcontent'⟩ := hreplays.content_eq
      obtain rfl := Option.some.inj (hold.symm.trans hold')
      exact hcontent'.symm
    exact ⟨_, h.concat hchanged rfl htrail ⟨_, rfl⟩ ⟨t', current, rfl, hcurrent, rfl,
      namesActor_of_actorOf rfl, rfl, hid⟩
      (hreplays.concat_content rfl rfl hbefore hversion hcontent.symm hmetadata)⟩
  | @updated id₀ name description status actor w' t t' vs hids hstored hchanged hevent =>
    obtain ⟨eventId, time, htrail⟩ := hevent
    obtain ⟨current, -, hcurrent, hid⟩ := hchanged.stored.current
    have hversion : t'.version = t.version := hchanged.stored.version_eq.trans hstored.version_eq.symm
    have hreplays : Replays (eventsAbout id₀ events) t := (h.told id₀).of_isStored hstored
    exact ⟨_, h.concat hchanged rfl htrail ⟨_, rfl⟩ ⟨t', current, rfl, hcurrent, rfl,
      namesActor_of_actorOf rfl, rfl, hid⟩
      (hreplays.concat_metadata rfl rfl rfl rfl hversion)⟩

/-! ## All operations -/

theorem Recorded.runCalls (hfresh : Fresh supply n) (calls : List Call)
    (hn : (runCalls supply w calls).1.ids ≤ n) (hinv : Invariant supply w replies)
    (h : Recorded w replies events) :
    ∃ more, Recorded (runCalls supply w calls).1 (replies ++ (runCalls supply w calls).2)
      (events ++ more) := by
  induction calls generalizing w replies events with
  | nil =>
    refine ⟨[], ?_⟩
    rw [Store.runCalls, List.append_nil, List.append_nil]
    exact h
  | cons c calls ih =>
    have hcall := effect_of_call hfresh hinv c ((ids_le_runCalls supply _ calls).trans hn)
    obtain ⟨more, hstep⟩ := h.step hcall
    obtain ⟨more', hrest⟩ := ih hn (hinv.step hcall) hstep
    refine ⟨more ++ more', ?_⟩
    rw [List.append_assoc, List.append_assoc] at hrest
    exact hrest

/-- Two templates are created, changed and looked at in turns, and two calls are refused. -/
def ledger : List Operation :=
  [.call (.create (.text "Invoice") .null (.text "first") (.text "alice")),
    .get (counted.id 0),
    .call (.create (.text "Letter") .null (.text "dear") .null),
    .call (.update (counted.id 0) .null .null (.text "published") (.text "bob")),
    .call (.version "missing" (.text "lost") .null),
    .list,
    .call (.version (counted.id 0) (.text "second") (.text "bob")),
    .call (.update (counted.id 0) (.text " ") .null .null .null),
    .versions (counted.id 0),
    .call (.update (counted.id 0) (.text "Bill") .null .null .null),
    .audit (counted.id 0) .null]

/-- What the ledger comes to: the actions on the first template, with those who took them. -/
theorem ledger_told : (runOperations counted {} ledger).1.ids ≤ 16 ∧
    (runOperations counted {} ledger).2.any (Reply.creates (counted.id 0)) = true ∧
    (runOperations counted {} ledger).1.trail.values.toOption.map (fun events =>
      (eventsAbout (counted.id 0) events).map fun event =>
        ((eventField "action" event).display, (eventField "actor_id" event).display)) =
      some [("template.created", "alice"), ("template.metadata.updated", "bob"),
        ("template.version.created", "bob"), ("template.metadata.updated", "system")] := by
  decide +kernel

end Pagewright.Store
