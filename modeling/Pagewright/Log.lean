import Pagewright.Failure

/-!
# Operations that report as they go

`Logged α` is the outcome of an operation together with the messages it wrote, those before a
failure included. The outcome of a sequence is that of the sequence of outcomes (`outcome_bind`), so
a statement about results never meets the messages.
-/

namespace Pagewright

/-- How serious a message is. -/
inductive Level where
  | debug
  | info
  | success
  | warning
  | error
  deriving Repr, DecidableEq

/-- The name of a level. -/
def Level.name : Level → String
  | debug => "DEBUG"
  | info => "INFO"
  | success => "SUCCESS"
  | warning => "WARNING"
  | error => "ERROR"

/-- A message of the log; one without a level is output of another program, shown as it came. -/
structure Message where
  level : Option Level
  text : String
  deriving Repr, DecidableEq

/-- The outcome of an operation and the messages it wrote. -/
structure Logged (α : Type) where
  messages : List Message
  outcome : Outcome α

namespace Logged

instance : Monad Logged where
  pure a := ⟨[], .ok a⟩
  bind x f :=
    match x.outcome with
    | .ok a => ⟨x.messages ++ (f a).messages, (f a).outcome⟩
    | .error e => ⟨x.messages, .error e⟩

instance : MonadExceptOf Failure Logged where
  throw e := ⟨[], .error e⟩
  tryCatch x handle :=
    match x.outcome with
    | .ok _ => x
    | .error e => ⟨x.messages ++ (handle e).messages, (handle e).outcome⟩

instance : MonadLift Outcome Logged where
  monadLift x := ⟨[], x⟩

@[simp] theorem outcome_pure (a : α) : (pure a : Logged α).outcome = .ok a := rfl

@[simp] theorem messages_pure (a : α) : (pure a : Logged α).messages = [] := rfl

@[simp] theorem outcome_bind (x : Logged α) (f : α → Logged β) :
    (x >>= f).outcome = x.outcome >>= fun a => (f a).outcome := by
  cases h : x.outcome <;> simp [bind, Except.bind, h]

@[simp] theorem outcome_map (g : α → β) (x : Logged α) : (g <$> x).outcome = g <$> x.outcome := by
  cases h : x.outcome <;> simp [Functor.map, Except.map, h]

@[simp] theorem outcome_lift (x : Outcome α) : (liftM x : Logged α).outcome = x := rfl

/-- Write a message. -/
def say (level : Level) (text : String) : Logged Unit := ⟨[⟨some level, text⟩], .ok ()⟩

/-- Write the output of another program. -/
def sayRaw (text : String) : Logged Unit := ⟨[⟨none, text⟩], .ok ()⟩

/-- The outcome as a value, so that a failure does not end the sequence. -/
def attempt (x : Logged α) : Logged (Outcome α) := ⟨x.messages, .ok x.outcome⟩

@[simp] theorem outcome_say (level : Level) (text : String) : (say level text).outcome = .ok () := rfl

@[simp] theorem outcome_attempt (x : Logged α) : x.attempt.outcome = .ok x.outcome := rfl

end Logged

end Pagewright
