import Pagewright.Log
import Pagewright.Store.Disk

/-!
# Procedures on the files of a store

A procedure says step by step what an operation reads from the files, takes from the clock and the supply
of fresh ids, and changes. Between any two steps it can be cut off, and steps of other procedures can come
in; `Procedure.run` is a procedure that goes through undisturbed.
-/

namespace Pagewright

/-- A procedure with a result. -/
inductive Procedure (α : Type) where
  | done (outcome : Outcome α)
  /-- Write a message. -/
  | say (message : Message) (next : Procedure α)
  /-- Take a fresh id. -/
  | freshId (next : String → Procedure α)
  /-- Read the clock. -/
  | clock (next : String → Procedure α)
  /-- Look at the names of the files in a folder. -/
  | names (folder : String) (next : List String → Procedure α)
  /-- Look into a file. -/
  | readFile (path : String) (next : Option Contents → Procedure α)
  /-- Look into the audit trail. -/
  | readAudit (next : Option AuditTrail → Procedure α)
  /-- Make an empty temporary file in a folder. -/
  | temporary (folder : String) (next : String → Procedure α)
  /-- Change the files. -/
  | change (c : Change) (next : Procedure α)

/-- Fresh ids and readings of the clock, by their number. -/
structure Supply where
  id : Nat → String
  time : Nat → String

/-- The files of a store with the numbers of ids and clock readings taken so far. -/
structure World where
  disk : Disk := {}
  ids : Nat := 0
  readings : Nat := 0
  deriving Repr, Inhabited

namespace Procedure

/-- A procedure followed by another that gets its result. A failure ends the sequence. -/
def bind (t : Procedure α) (f : α → Procedure β) : Procedure β :=
  match t with
  | done (.ok a) => f a
  | done (.error e) => done (.error e)
  | say m next => say m (next.bind f)
  | freshId next => freshId fun id => (next id).bind f
  | clock next => clock fun time => (next time).bind f
  | names folder next => names folder fun found => (next found).bind f
  | readFile path next => readFile path fun contents => (next contents).bind f
  | readAudit next => readAudit fun trail => (next trail).bind f
  | temporary folder next => temporary folder fun path => (next path).bind f
  | change c next => change c (next.bind f)

instance : Monad Procedure where
  pure a := done (.ok a)
  bind := Procedure.bind

instance : MonadLift Outcome Procedure where
  monadLift := done

/-- The procedure that only writes messages. -/
def ofLogged (x : Logged α) : Procedure α := x.messages.foldr say (done x.outcome)

/-- The outcome as a value, so that a failure does not end the sequence. -/
def attempt : Procedure α → Procedure (Outcome α)
  | done outcome => done (.ok outcome)
  | say m next => say m next.attempt
  | freshId next => freshId fun id => (next id).attempt
  | clock next => clock fun time => (next time).attempt
  | names folder next => names folder fun found => (next found).attempt
  | readFile path next => readFile path fun contents => (next contents).attempt
  | readAudit next => readAudit fun trail => (next trail).attempt
  | temporary folder next => temporary folder fun path => (next path).attempt
  | change c next => change c next.attempt

/-- Stop with a failure. -/
def fail (e : Failure) : Procedure α := done (.error e)

/-- Take a fresh id. -/
def newId : Procedure String := freshId pure

/-- Read the clock. -/
def now : Procedure String := clock pure

/-- Write a message. -/
def tell (level : Level) (text : String) : Procedure Unit := say ⟨some level, text⟩ (pure ())

/-- Look at the names of the files in a folder. -/
def filesIn (folder : String) : Procedure (List String) := names folder pure

/-- Look into a file. -/
def look (path : String) : Procedure (Option Contents) := readFile path pure

/-- Save a document: write it to a temporary file and give that the path of the document. That a file cannot
be written is outside the model. -/
def save (folder name : String) (v : Value) : Procedure Unit :=
  temporary folder fun path =>
    change (.write path v) (change (.replace path (Disk.inFolder folder name)) (pure ()))

/-- Record an event in the audit trail. -/
def record (e : AuditEvent) : Procedure Value := do
  done e.check
  let event := e.toValue (← newId) (← now)
  change (.record event) (pure event)

/-- The next step of a procedure: the message it writes, the world after it, and the rest of the procedure. -/
def step (supply : Supply) (w : World) : Procedure α → List Message × World × Procedure α
  | done outcome => ([], w, done outcome)
  | say m next => ([m], w, next)
  | freshId next => ([], { w with ids := w.ids + 1 }, next (supply.id w.ids))
  | clock next => ([], { w with readings := w.readings + 1 }, next (supply.time w.readings))
  | names folder next => ([], w, next (w.disk.names folder))
  | readFile path next => ([], w, next (w.disk.find? path))
  | readAudit next => ([], w, next w.disk.audit)
  | temporary folder next =>
    let path := w.disk.temporaryPath folder
    ([], { w with disk := w.disk.put path (.text "") }, next path)
  | change c next => ([], { w with disk := w.disk.apply c }, next)

/-- Run a procedure to its end: the world then, the messages and the outcome. -/
def run (supply : Supply) (w : World) : Procedure α → World × Logged α
  | done outcome => (w, ⟨[], outcome⟩)
  | say m next =>
    let (w, result) := run supply w next
    (w, ⟨m :: result.messages, result.outcome⟩)
  | freshId next => run supply { w with ids := w.ids + 1 } (next (supply.id w.ids))
  | clock next => run supply { w with readings := w.readings + 1 } (next (supply.time w.readings))
  | names folder next => run supply w (next (w.disk.names folder))
  | readFile path next => run supply w (next (w.disk.find? path))
  | readAudit next => run supply w (next w.disk.audit)
  | temporary folder next =>
    let path := w.disk.temporaryPath folder
    run supply { w with disk := w.disk.put path (.text "") } (next path)
  | change c next => run supply { w with disk := w.disk.apply c } next

/-- Cut a procedure off after some steps: the world then. -/
def runFor (supply : Supply) : Nat → World → Procedure α → World
  | 0, w, _ => w
  | n + 1, w, t =>
    let (_, w, rest) := step supply w t
    runFor supply n w rest

@[simp] theorem run_done (supply : Supply) (w : World) (outcome : Outcome α) :
    run supply w (done outcome) = (w, ⟨[], outcome⟩) := rfl

/-- An attempt changes the world like the procedure itself and gives its outcome as a value. -/
theorem run_attempt (supply : Supply) (w : World) (t : Procedure α) :
    run supply w t.attempt =
      ((run supply w t).1, (run supply w t).2.attempt) := by
  induction t generalizing w with
  | done outcome => rfl
  | say m next ih => simp [attempt, run, ih, Logged.attempt]
  | freshId next ih => exact ih _ _
  | clock next ih => exact ih _ _
  | names folder next ih => exact ih _ _
  | readFile path next ih => exact ih _ _
  | readAudit next ih => exact ih _ _
  | temporary folder next ih => exact ih _ _
  | change c next ih => exact ih _

/-- Messages alone leave the world as it is. -/
theorem run_ofLogged (supply : Supply) (w : World) (x : Logged α) :
    run supply w (ofLogged x) = (w, x) := by
  obtain ⟨messages, outcome⟩ := x
  induction messages with
  | nil => rfl
  | cons m rest ih =>
    simp only [ofLogged, List.foldr_cons, run] at ih ⊢
    rw [ih]

/-- Taking a step first does not change where a run ends. -/
theorem run_step (supply : Supply) (w : World) (t : Procedure α) :
    (run supply (step supply w t).2.1 (step supply w t).2.2).1 = (run supply w t).1 := by
  cases t <;> rfl

/-- Taking a step first does not change the outcome. -/
theorem outcome_step (supply : Supply) (w : World) (t : Procedure α) :
    (run supply (step supply w t).2.1 (step supply w t).2.2).2.outcome =
      (run supply w t).2.outcome := by
  cases t <;> rfl

end Procedure

end Pagewright
