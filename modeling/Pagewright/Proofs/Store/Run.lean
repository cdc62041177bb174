import Pagewright.Proofs.Outcome
import Pagewright.Proofs.Store.Files
import Pagewright.Store.Procedure

/-!
# Runs of procedures

`Procedure.Goes supply w t w' o` says that the procedure `t` goes from the world `w` to `w'` and ends with
the outcome `o`. What a procedure does is put together from what its parts do (`Goes.bind`,
`Goes.bind_error`). To save a document is to put it under its path (`goes_save`). A procedure that only
reads leaves the world as it is (`Reads`).
-/

namespace Pagewright

/-! ## Worlds -/

namespace World

/-- A world with one more id taken. -/
def tookId (w : World) : World := { w with ids := w.ids + 1 }

/-- A world with the clock read once more. -/
def readClock (w : World) : World := { w with readings := w.readings + 1 }

/-- A world with a document under a path. -/
def saved (w : World) (path : String) (v : Value) : World :=
  { w with disk := w.disk.put path (.document v) }

/-- A world with an event in the audit trail. -/
def recorded (w : World) (event : Value) : World := { w with disk := w.disk.apply (.record event) }

/-- The audit trail, empty as long as there is none. -/
def trail (w : World) : AuditTrail := w.disk.audit.getD {}

/-- A world in which one event was added to the trail of another, with some id and time. -/
def AddsEvent (w w' : World) (e : AuditEvent) : Prop :=
  ∃ id time, w'.trail = w.trail.add (e.toValue id time)

@[simp] theorem disk_tookId (w : World) : w.tookId.disk = w.disk := rfl

@[simp] theorem disk_readClock (w : World) : w.readClock.disk = w.disk := rfl

@[simp] theorem disk_saved (w : World) (path : String) (v : Value) :
    (w.saved path v).disk = w.disk.put path (.document v) := rfl

@[simp] theorem disk_recorded (w : World) (event : Value) :
    (w.recorded event).disk = w.disk.apply (.record event) := rfl

end World

namespace Procedure

variable {α β : Type} {supply : Supply} {w w' w'' : World}

/-- A sequence runs its second part from where the first ends, unless that fails. -/
theorem run_bind (t : Procedure α) (f : α → Procedure β) :
    run supply w (t >>= f) =
      match (run supply w t).2.outcome with
      | .ok a => ((run supply (run supply w t).1 (f a)).1,
          ⟨(run supply w t).2.messages ++ (run supply (run supply w t).1 (f a)).2.messages,
            (run supply (run supply w t).1 (f a)).2.outcome⟩)
      | .error e => ((run supply w t).1, ⟨(run supply w t).2.messages, .error e⟩) := by
  change run supply w (t.bind f) = _
  induction t generalizing w with
  | done outcome => cases outcome <;> rfl
  | say m next ih =>
    simp only [bind, run, ih]
    cases (run supply w next).2.outcome <;> rfl
  | freshId next ih => exact ih _
  | clock next ih => exact ih _
  | names folder next ih => exact ih _
  | readFile path next ih => exact ih _
  | readAudit next ih => exact ih _
  | temporary folder next ih => exact ih _
  | change c next ih => exact ih

/-- A procedure goes from a world to another with an outcome. -/
structure Goes (supply : Supply) (w : World) (t : Procedure α) (w' : World) (o : Outcome α) : Prop where
  world : (run supply w t).1 = w'
  outcome : (run supply w t).2.outcome = o

theorem goes_of_run {t : Procedure α} {messages : List Message} {o : Outcome α}
    (h : run supply w t = (w', ⟨messages, o⟩)) : Goes supply w t w' o :=
  ⟨congrArg Prod.fst h, congrArg (·.2.outcome) h⟩

theorem Goes.unique {t : Procedure α} {o o' : Outcome α} (h : Goes supply w t w' o)
    (h' : Goes supply w t w'' o') : w' = w'' ∧ o = o' :=
  ⟨h.world.symm.trans h'.world, h.outcome.symm.trans h'.outcome⟩

theorem Goes.not_error {t : Procedure α} {a : α} {e : Failure} (h : Goes supply w t w' (.ok a)) :
    ¬ Goes supply w t w'' (.error e) := by
  intro herror
  cases (h.unique herror).2

/-! ## Sequences -/

theorem Goes.bind {t : Procedure α} {f : α → Procedure β} {a : α} {o : Outcome β}
    (ht : Goes supply w t w' (.ok a)) (hf : Goes supply w' (f a) w'' o) :
    Goes supply w (t >>= f) w'' o := by
  obtain ⟨rfl, houtcome⟩ := ht
  constructor
  · rw [run_bind, houtcome]
    exact hf.world
  · rw [run_bind, houtcome]
    exact hf.outcome

theorem Goes.bind_error {t : Procedure α} {f : α → Procedure β} {e : Failure}
    (ht : Goes supply w t w' (.error e)) : Goes supply w (t >>= f) w' (.error e) := by
  constructor
  · rw [run_bind, ht.outcome]
    exact ht.world
  · rw [run_bind, ht.outcome]

/-- Readings that follow each other give what their outcomes in sequence give. -/
theorem Goes.bind_outcome {t : Procedure α} {f : α → Procedure β} {o : Outcome α} {g : α → Outcome β}
    (ht : Goes supply w t w o) (hf : ∀ a, Goes supply w (f a) w (g a)) :
    Goes supply w (t >>= f) w (o >>= g) := by
  cases o with
  | ok a => exact ht.bind (hf a)
  | error e => exact ht.bind_error

/-! ## Single steps -/

theorem goes_pure (a : α) : Goes supply w (pure a) w (.ok a) := ⟨rfl, rfl⟩

theorem goes_fail (e : Failure) : Goes supply w (fail e : Procedure α) w (.error e) := ⟨rfl, rfl⟩

theorem goes_lift (o : Outcome α) : Goes supply w (liftM o) w o := ⟨rfl, rfl⟩

theorem goes_tell (level : Level) (text : String) : Goes supply w (tell level text) w (.ok ()) := ⟨rfl, rfl⟩

theorem goes_newId : Goes supply w newId w.tookId (.ok (supply.id w.ids)) := ⟨rfl, rfl⟩

theorem goes_now : Goes supply w now w.readClock (.ok (supply.time w.readings)) := ⟨rfl, rfl⟩

theorem goes_filesIn (folder : String) : Goes supply w (filesIn folder) w (.ok (w.disk.names folder)) :=
  ⟨rfl, rfl⟩

theorem goes_look (path : String) : Goes supply w (look path) w (.ok (w.disk.find? path)) := ⟨rfl, rfl⟩

/-- A document is saved as a whole and nothing else is changed. -/
theorem goes_save (folder name : String) (v : Value) :
    Goes supply w (save folder name v) (w.saved (Disk.inFolder folder name) v) (.ok ()) := by
  have hsave := Disk.apply_save (w.disk.find?_temporaryPath folder) (Disk.inFolder folder name) v
  constructor
  · simp only [save, run, hsave]
    rfl
  · rfl

theorem goes_record {e : AuditEvent} (h : e.check = .ok ()) :
    Goes supply w (record e)
      (w.tookId.readClock.recorded (e.toValue (supply.id w.ids) (supply.time w.readings)))
      (.ok (e.toValue (supply.id w.ids) (supply.time w.readings))) := by
  unfold record
  rw [h]
  exact Goes.bind (goes_lift _) (Goes.bind goes_newId (Goes.bind goes_now ⟨rfl, rfl⟩))

/-! ## Reading -/

/-- A procedure that changes nothing: it takes no id and no time, and the files stay as they are. -/
def Reads (t : Procedure α) : Prop := ∀ (supply : Supply) (w : World), (run supply w t).1 = w

/-- Ids and readings of the clock are taken, and never given back. -/
theorem taken_le_run (supply : Supply) (w : World) (t : Procedure α) :
    w.ids ≤ (run supply w t).1.ids ∧ w.readings ≤ (run supply w t).1.readings := by
  induction t generalizing w with
  | done outcome => exact ⟨Nat.le_refl _, Nat.le_refl _⟩
  | say m next ih => exact ih w
  | freshId next ih =>
    have hrest := ih (supply.id w.ids) w.tookId
    exact ⟨Nat.le_trans (Nat.le_succ w.ids) hrest.1, hrest.2⟩
  | clock next ih =>
    have hrest := ih (supply.time w.readings) w.readClock
    exact ⟨hrest.1, Nat.le_trans (Nat.le_succ w.readings) hrest.2⟩
  | names folder next ih => exact ih _ w
  | readFile path next ih => exact ih _ w
  | readAudit next ih => exact ih _ w
  | temporary folder next ih =>
    exact ih _ { w with disk := w.disk.put (w.disk.temporaryPath folder) (.text "") }
  | change c next ih => exact ih { w with disk := w.disk.apply c }

theorem ids_le_run (supply : Supply) (w : World) (t : Procedure α) : w.ids ≤ (run supply w t).1.ids :=
  (taken_le_run supply w t).1

theorem readings_le_run (supply : Supply) (w : World) (t : Procedure α) :
    w.readings ≤ (run supply w t).1.readings :=
  (taken_le_run supply w t).2

theorem Goes.ids_le {t : Procedure α} {o : Outcome α} (h : Goes supply w t w' o) : w.ids ≤ w'.ids :=
  h.world ▸ ids_le_run supply w t

end Procedure

end Pagewright
