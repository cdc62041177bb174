import Pagewright.Proofs.Store.Readings

/-!
# Procedures, step by step

A procedure that stops after some of its single steps (`Procedure.runFor`) may leave a temporary file
behind: an empty one, one that was written, or none (`runFor_save`).

`Procedure.Maintains supply I Q w t` says of the procedure `t` from the world `w` on that the property `I`
of worlds holds wherever it stops, and that `Q` holds of the outcome and the world if it goes through. A
sequence maintains what its parts maintain (`Maintains.after`, `Maintains.after_look`).
-/

namespace Pagewright

/-- A world with a temporary file in a folder. -/
def World.drafted (w : World) (folder : String) (contents : Contents) : World :=
  { w with disk := w.disk.put (w.disk.temporaryPath folder) contents }

namespace Procedure

variable {α β : Type} {supply : Supply} {w w' : World} {I : World → Prop} {Q : Outcome α → World → Prop}

/-- A property holds after every number of steps, and another when the procedure has gone through. -/
structure Maintains (supply : Supply) (I : World → Prop) (Q : Outcome α → World → Prop) (w : World)
    (t : Procedure α) : Prop where
  through : ∀ n, I (runFor supply n w t)
  ends : ∀ w' o, Goes supply w t w' o → Q o w'

theorem Maintains.mono {P : Outcome α → World → Prop} {t : Procedure α} (h : Maintains supply I P w t)
    (hPQ : ∀ w' o, P o w' → Q o w') : Maintains supply I Q w t :=
  ⟨h.through, fun w' o hgoes => hPQ w' o (h.ends w' o hgoes)⟩

/-! ## Sequences -/

/-- A sequence stops in its first part or, where that has a result, in the second. -/
theorem runFor_bind (n : ℕ) (w : World) (t : Procedure α) (f : α → Procedure β) :
    (∃ m, runFor supply n w (t >>= f) = runFor supply m w t) ∨
    ∃ m w' a, Goes supply w t w' (.ok a) ∧ runFor supply n w (t >>= f) = runFor supply m w' (f a) := by
  change (∃ m, runFor supply n w (t.bind f) = _) ∨ ∃ m w' a, _ ∧ runFor supply n w (t.bind f) = _
  induction n generalizing w t with
  | zero => exact .inl ⟨0, rfl⟩
  | succ n ih =>
    -- A step of the first part is one of the sequence.
    have hstep {w' : World} {next : Procedure α} (hfirst : step supply w t = ((step supply w t).1, w', next))
        (hboth : (step supply w (t.bind f)).2 = (w', next.bind f)) :
        (∃ m, runFor supply (n + 1) w (t.bind f) = runFor supply m w t) ∨
          ∃ m w' a, Goes supply w t w' (.ok a) ∧
            runFor supply (n + 1) w (t.bind f) = runFor supply m w' (f a) := by
      have hrun : runFor supply (n + 1) w (t.bind f) = runFor supply n w' (next.bind f) :=
        congrArg (fun p : World × Procedure β => runFor supply n p.1 p.2) hboth
      rw [hrun]
      rcases ih w' next with ⟨m, hm⟩ | ⟨m, w'', a, hgoes, hm⟩
      · refine .inl ⟨m + 1, hm.trans ?_⟩
        rw [runFor, hfirst]
      · refine .inr ⟨m, w'', a, ⟨?_, ?_⟩, hm⟩
        · rw [← run_step, hfirst]
          exact hgoes.world
        · rw [← outcome_step, hfirst]
          exact hgoes.outcome
    cases t with
    | done outcome =>
      cases outcome with
      | ok a => exact .inr ⟨n + 1, w, a, goes_pure a, rfl⟩
      | error e => exact hstep rfl rfl
    | say m next => exact hstep rfl rfl
    | freshId next => exact hstep rfl rfl
    | clock next => exact hstep rfl rfl
    | names folder next => exact hstep rfl rfl
    | readFile path next => exact hstep rfl rfl
    | readAudit next => exact hstep rfl rfl
    | temporary folder next => exact hstep rfl rfl
    | change c next => exact hstep rfl rfl

/-- A first part that goes through is followed by the second. -/
theorem Maintains.after {t : Procedure β} {f : β → Procedure α} {b : β} (ht : Goes supply w t w' (.ok b))
    (hI : ∀ n, I (runFor supply n w t)) (hf : Maintains supply I Q w' (f b)) :
    Maintains supply I Q w (t >>= f) where
  through n := by
    rcases runFor_bind n w t f with ⟨m, hm⟩ | ⟨m, w'', b', hgoes, hm⟩
    · exact hm ▸ hI m
    · obtain ⟨rfl, heq⟩ := ht.unique hgoes
      obtain rfl := Except.ok.inj heq
      exact hm ▸ hf.through m
  ends w'' o h := by
    obtain ⟨u, o', hgoes⟩ : ∃ u o', Goes supply w' (f b) u o' := ⟨_, _, rfl, rfl⟩
    obtain ⟨rfl, rfl⟩ := h.unique (ht.bind hgoes)
    exact hf.ends _ _ hgoes

/-! ## Single parts -/

theorem Looks.runFor_eq {t : Procedure α} (h : t.Looks) (n : ℕ) : runFor supply n w t = w := by
  have hstep : ∀ t : Procedure α, t.Looks → (step supply w t).2.1 = w ∧ (step supply w t).2.2.Looks := by
    intro t ht
    cases t with
    | done outcome => exact ⟨rfl, trivial⟩
    | say m next => exact ⟨rfl, ht⟩
    | names folder next => exact ⟨rfl, ht _⟩
    | readFile path next => exact ⟨rfl, ht _⟩
    | readAudit next => exact ⟨rfl, ht _⟩
    | freshId | clock | temporary | change => exact ht.elim
  induction n generalizing t with
  | zero => rfl
  | succ n ih =>
    obtain ⟨hworld, hrest⟩ := hstep t h
    change runFor supply n (step supply w t).2.1 (step supply w t).2.2 = w
    rw [hworld]
    exact ih hrest

theorem runFor_done (n : ℕ) (o : Outcome α) : runFor supply n w (done o) = w := (looks_done o).runFor_eq n

theorem maintains_done {o : Outcome α} (hI : I w) (hQ : Q o w) : Maintains supply I Q w (done o) where
  through n := by
    rw [runFor_done]
    exact hI
  ends w' o' h := by
    obtain ⟨rfl, rfl⟩ := h.unique (goes_lift o)
    exact hQ

/-- A first part that only looks is followed by the second, with what it saw, or the sequence ends there. -/
theorem Maintains.after_look {t : Procedure β} {f : β → Procedure α} (ht : t.Looks) (hI : I w)
    (hf : ∀ b, Goes supply w t w (.ok b) → Maintains supply I Q w (f b)) (hQ : ∀ e, Q (.error e) w) :
    Maintains supply I Q w (t >>= f) := by
  have hthrough (n : ℕ) : I (runFor supply n w t) := by
    rw [ht.runFor_eq]
    exact hI
  rcases ht.exists_goes supply w with ⟨b, hgoes⟩ | ⟨e, hgoes⟩
  · exact .after hgoes hthrough (hf b hgoes)
  · refine ⟨fun n => ?_, fun w' o h => ?_⟩
    · rcases runFor_bind n w t f with ⟨m, hm⟩ | ⟨m, w', b, hgoes', -⟩
      · exact hm ▸ hthrough m
      · exact absurd hgoes hgoes'.not_error
    · obtain ⟨rfl, rfl⟩ := h.unique hgoes.bind_error
      exact hQ e

theorem runFor_newId (n : ℕ) : runFor supply n w newId = w ∨ runFor supply n w newId = w.tookId := by
  cases n with
  | zero => exact .inl rfl
  | succ n => exact .inr (runFor_done n _)

theorem runFor_now (n : ℕ) : runFor supply n w now = w ∨ runFor supply n w now = w.readClock := by
  cases n with
  | zero => exact .inl rfl
  | succ n => exact .inr (runFor_done n _)


/-- How far the saving of a document has come after some steps. -/
theorem runFor_save (n : ℕ) (folder name : String) (v : Value) :
    runFor supply n w (save folder name v) = w ∨
    runFor supply n w (save folder name v) = w.drafted folder (.text "") ∨
    runFor supply n w (save folder name v) = w.drafted folder (.document v) ∨
    runFor supply n w (save folder name v) = w.saved (Disk.inFolder folder name) v := by
  have hsave := Disk.apply_save (w.disk.find?_temporaryPath folder) (Disk.inFolder folder name) v
  match n with
  | 0 => exact .inl rfl
  | 1 => exact .inr (.inl rfl)
  | 2 =>
    refine .inr (.inr (.inl ?_))
    change World.mk _ _ _ = _
    rw [Disk.apply, Disk.put_put]
    rfl
  | n + 3 =>
    refine .inr (.inr (.inr ((runFor_done n _).trans ?_)))
    rw [hsave]
    rfl

theorem runFor_record {e : AuditEvent} (he : e.check = .ok ()) (n : ℕ) :
    runFor supply n w (record e) = w ∨ runFor supply n w (record e) = w.tookId ∨
    runFor supply n w (record e) = w.tookId.readClock ∨
    runFor supply n w (record e) =
      w.tookId.readClock.recorded (e.toValue (supply.id w.ids) (supply.time w.readings)) := by
  unfold record
  rw [he]
  match n with
  | 0 => exact .inl rfl
  | 1 => exact .inr (.inl rfl)
  | 2 => exact .inr (.inr (.inl rfl))
  | n + 3 => exact .inr (.inr (.inr (runFor_done n _)))

end Procedure

end Pagewright
