import Pagewright.Proofs.Store.Run

/-!
# Procedures, one access at a time

Others meet a procedure only where it looks into a file, a folder or the audit trail, gives a file its
path, or adds an event to the trail. `Procedure.advance` goes on to the next of these accesses. What comes
before it, ids and times that are taken and a temporary file that is written, is done along with it, so a
document is saved by one access (`Procedure.advance_save`).

`Procedure.cutOff` is a procedure that is cut off after some accesses, which is after some of its steps
(`Procedure.exists_runFor_eq_cutOff`), and `Procedure.StopsAt` relates the worlds that it can leave behind.
A sequence is cut off in its first part or, where that has a result, in the second
(`Procedure.StopsAt.bind`). A procedure that only looks (`Procedure.Looks`) leaves no trace wherever it is
cut off.
-/

namespace Pagewright.Procedure

variable {α β : Type} {supply : Supply} {w w' u : World}

/-! ## Accesses -/

/-- An access to the files of a store. -/
inductive Access where
  | look (path : String)
  | list (folder : String)
  | lookAtTrail
  /-- A file gets its path, in place of the one there. -/
  | put (path : String)
  /-- An event goes to the trail. -/
  | append

/-- How far a procedure has come with an access, if it made one. -/
structure Advance (α : Type) where
  access : Option Access
  world : World
  rest : Procedure α

/-- Go on with the next access of a procedure, or to its end. -/
def advance (supply : Supply) (w : World) : Procedure α → Advance α
  | done outcome => ⟨none, w, done outcome⟩
  | say _ next => advance supply w next
  | freshId next => advance supply w.tookId (next (supply.id w.ids))
  | clock next => advance supply w.readClock (next (supply.time w.readings))
  | names folder next => ⟨some (.list folder), w, next (w.disk.names folder)⟩
  | readFile path next => ⟨some (.look path), w, next (w.disk.find? path)⟩
  | readAudit next => ⟨some .lookAtTrail, w, next w.disk.audit⟩
  | temporary folder next =>
    let path := w.disk.temporaryPath folder
    advance supply { w with disk := w.disk.put path (.text "") } (next path)
  | change (.write path v) next => advance supply { w with disk := w.disk.apply (.write path v) } next
  | change (.replace source target) next =>
    ⟨some (.put target), { w with disk := w.disk.apply (.replace source target) }, next⟩
  | change (.record event) next => ⟨some .append, w.recorded event, next⟩

/-- The world when a procedure is cut off after some accesses. -/
def cutOff (supply : Supply) : ℕ → World → Procedure α → World
  | 0, w, _ => w
  | n + 1, w, t => cutOff supply n (advance supply w t).world (advance supply w t).rest

@[simp] theorem cutOff_done (n : ℕ) (w : World) (o : Outcome α) : cutOff supply n w (done o) = w := by
  induction n with
  | zero => rfl
  | succ n ih => exact ih

theorem advance_save (folder name : String) (v : Value) :
    advance supply w (save folder name v) =
      ⟨some (.put (Disk.inFolder folder name)), w.saved (Disk.inFolder folder name) v, pure ()⟩ := by
  have hsave := Disk.apply_save (w.disk.find?_temporaryPath folder) (Disk.inFolder folder name) v
  change Advance.mk _ _ _ = _
  rw [hsave]
  rfl

theorem exists_runFor_advance (w : World) (t : Procedure α) :
    ∃ n, ∀ m, runFor supply (n + m) w t =
      runFor supply m (advance supply w t).world (advance supply w t).rest := by
  have hstep {w w' : World} {t : Procedure α} {next : Procedure α} {a : Advance α}
      (h : step supply w t = ((step supply w t).1, w', next))
      (hrest : ∃ n, ∀ m, runFor supply (n + m) w' next = runFor supply m a.world a.rest) :
      ∃ n, ∀ m, runFor supply (n + m) w t = runFor supply m a.world a.rest := by
    obtain ⟨n, hn⟩ := hrest
    refine ⟨n + 1, fun m => ?_⟩
    rw [Nat.add_right_comm, runFor, h]
    exact hn m
  induction t generalizing w with
  | done outcome => exact ⟨0, fun m => by rw [Nat.zero_add]; rfl⟩
  | say m next ih => exact hstep rfl (ih w)
  | freshId next ih => exact hstep rfl (ih _ w.tookId)
  | clock next ih => exact hstep rfl (ih _ w.readClock)
  | names folder next => exact hstep rfl ⟨0, fun m => by rw [Nat.zero_add]; rfl⟩
  | readFile path next => exact hstep rfl ⟨0, fun m => by rw [Nat.zero_add]; rfl⟩
  | readAudit next => exact hstep rfl ⟨0, fun m => by rw [Nat.zero_add]; rfl⟩
  | temporary folder next ih => exact hstep rfl (ih _ _)
  | change c next ih =>
    cases c with
    | write path v => exact hstep rfl (ih _)
    | replace source target => exact hstep rfl ⟨0, fun m => by rw [Nat.zero_add]; rfl⟩
    | record event => exact hstep rfl ⟨0, fun m => by rw [Nat.zero_add]; rfl⟩

/-- Whatever accesses a procedure is cut off after, it is cut off after some single steps. -/
theorem exists_runFor_eq_cutOff (n : ℕ) (w : World) (t : Procedure α) :
    ∃ m, runFor supply m w t = cutOff supply n w t := by
  induction n generalizing w t with
  | zero => exact ⟨0, rfl⟩
  | succ n ih =>
    obtain ⟨m, hm⟩ := ih (advance supply w t).world (advance supply w t).rest
    obtain ⟨k, hk⟩ := exists_runFor_advance w t
    exact ⟨k + m, (hk m).trans hm⟩

/-- What is left to do after an access leads to where the whole procedure leads. -/
theorem goes_advance_iff {t : Procedure α} {o : Outcome α} :
    Goes supply (advance supply w t).world (advance supply w t).rest w' o ↔ Goes supply w t w' o := by
  have hrun : ∀ (w : World) (t : Procedure α),
      (run supply (advance supply w t).world (advance supply w t).rest).1 = (run supply w t).1 ∧
      (run supply (advance supply w t).world (advance supply w t).rest).2.outcome =
        (run supply w t).2.outcome := by
    intro w t
    induction t generalizing w with
    | done outcome => exact ⟨rfl, rfl⟩
    | say m next ih => exact ih w
    | freshId next ih => exact ih _ w.tookId
    | clock next ih => exact ih _ w.readClock
    | names folder next => exact ⟨rfl, rfl⟩
    | readFile path next => exact ⟨rfl, rfl⟩
    | readAudit next => exact ⟨rfl, rfl⟩
    | temporary folder next ih => exact ih _ _
    | change c next ih =>
      cases c with
      | write path v => exact ih _
      | replace source target => exact ⟨rfl, rfl⟩
      | record event => exact ⟨rfl, rfl⟩
  constructor
  · exact fun h => ⟨(hrun w t).1.symm.trans h.world, (hrun w t).2.symm.trans h.outcome⟩
  · exact fun h => ⟨(hrun w t).1.trans h.world, (hrun w t).2.trans h.outcome⟩

theorem advance_bind {t : Procedure α} (h : (advance supply w t).access ≠ none) (f : α → Procedure β) :
    advance supply w (t >>= f) =
      ⟨(advance supply w t).access, (advance supply w t).world, (advance supply w t).rest >>= f⟩ := by
  change advance supply w (t.bind f) = _
  induction t generalizing w with
  | done outcome => exact absurd rfl h
  | say m next ih => exact ih h
  | freshId next ih => exact ih _ h
  | clock next ih => exact ih _ h
  | names folder next => rfl
  | readFile path next => rfl
  | readAudit next => rfl
  | temporary folder next ih => exact ih _ h
  | change c next ih =>
    cases c with
    | write path v => exact ih h
    | replace source target => rfl
    | record event => rfl

theorem bind_assoc {γ : Type} (t : Procedure α) (f : α → Procedure β) (g : β → Procedure γ) :
    t >>= f >>= g = t >>= fun a => f a >>= g := by
  change (t.bind f).bind g = t.bind fun a => (f a).bind g
  induction t with
  | done outcome => cases outcome <;> rfl
  | say m next ih => exact congrArg (say m) ih
  | freshId next ih => exact congrArg freshId (funext ih)
  | clock next ih => exact congrArg clock (funext ih)
  | names folder next ih => exact congrArg (names folder) (funext ih)
  | readFile path next ih => exact congrArg (readFile path) (funext ih)
  | readAudit next ih => exact congrArg readAudit (funext ih)
  | temporary folder next ih => exact congrArg (temporary folder) (funext ih)
  | change c next ih => exact congrArg (change c) ih

/-- Where the first part of a sequence makes no further access, the sequence goes on with what comes of
it. -/
theorem advance_of_none {t : Procedure α} (h : (advance supply w t).access = none) (f : α → Procedure β) :
    ∃ o, (advance supply w t).rest = done o ∧ Goes supply w t (advance supply w t).world o ∧
      advance supply w (t >>= f) = advance supply (advance supply w t).world (done o >>= f) := by
  suffices ∃ o, (advance supply w t).rest = done o ∧
      advance supply w (t.bind f) = advance supply (advance supply w t).world ((done o).bind f) by
    obtain ⟨o, hrest, hbind⟩ := this
    exact ⟨o, hrest, goes_advance_iff.mp (hrest ▸ ⟨rfl, rfl⟩), hbind⟩
  induction t generalizing w with
  | done outcome => exact ⟨outcome, rfl, rfl⟩
  | say m next ih => exact ih h
  | freshId next ih => exact ih _ h
  | clock next ih => exact ih _ h
  | names folder next => cases h
  | readFile path next => cases h
  | readAudit next => cases h
  | temporary folder next ih => exact ih _ h
  | change c next ih =>
    cases c with
    | write path v => exact ih h
    | replace source target => cases h
    | record event => cases h

/-! ## Cutting off -/

/-- A procedure that is cut off after some accesses, or goes through, leaves the world `u`. -/
def StopsAt (supply : Supply) (w : World) (t : Procedure α) (u : World) : Prop :=
  ∃ n, cutOff supply n w t = u

theorem stopsAt_run (w : World) (t : Procedure α) : StopsAt supply w t (run supply w t).1 := by
  -- One more access is always enough to get past a step.
  suffices ∀ (w : World) (t : Procedure α), ∃ n, cutOff supply (n + 1) w t = (run supply w t).1 by
    obtain ⟨n, hn⟩ := this w t
    exact ⟨n + 1, hn⟩
  intro w t
  induction t generalizing w with
  | done outcome => exact ⟨0, rfl⟩
  | say m next ih => exact ih w
  | freshId next ih => exact ih _ w.tookId
  | clock next ih => exact ih _ w.readClock
  | names folder next ih => exact (ih _ w).imp' (· + 1) fun _ h => h
  | readFile path next ih => exact (ih _ w).imp' (· + 1) fun _ h => h
  | readAudit next ih => exact (ih _ w).imp' (· + 1) fun _ h => h
  | temporary folder next ih => exact ih _ _
  | change c next ih =>
    cases c with
    | write path v => exact ih _
    | replace source target => exact (ih _).imp' (· + 1) fun _ h => h
    | record event => exact (ih _).imp' (· + 1) fun _ h => h

/-- A sequence is cut off in its first part, or in the second where the first has a result. -/
theorem StopsAt.bind {t : Procedure α} {f : α → Procedure β} (h : StopsAt supply w (t >>= f) u) :
    StopsAt supply w t u ∨ ∃ w' a, Goes supply w t w' (.ok a) ∧ StopsAt supply w' (f a) u := by
  obtain ⟨n, rfl⟩ := h
  induction n generalizing w t with
  | zero => exact .inl ⟨0, rfl⟩
  | succ n ih =>
    cases haccess : (advance supply w t).access with
    | none =>
      obtain ⟨o, hrest, hgoes, hbind⟩ := advance_of_none haccess f
      cases o with
      | ok a =>
        refine .inr ⟨_, a, hgoes, n + 1, ?_⟩
        rw [cutOff, cutOff, hbind]
        rfl
      | error e =>
        refine .inl ⟨1, ?_⟩
        rw [cutOff, cutOff, cutOff, hbind]
        exact (cutOff_done n _ (.error e)).symm
    | some access =>
      rw [cutOff, advance_bind (by simp [haccess]) f]
      rcases ih with ⟨m, hm⟩ | ⟨w', a, hgoes, hstops⟩
      · exact .inl ⟨m + 1, hm⟩
      · exact .inr ⟨w', a, goes_advance_iff.mp hgoes, hstops⟩

theorem StopsAt.ids_le {t : Procedure α} (h : StopsAt supply w t u) : w.ids ≤ u.ids := by
  have hadvance (w : World) (t : Procedure α) : w.ids ≤ (advance supply w t).world.ids := by
    induction t generalizing w with
    | done outcome => exact Nat.le_refl _
    | say m next ih => exact ih w
    | freshId next ih => exact (Nat.le_succ w.ids).trans (ih _ w.tookId)
    | clock next ih => exact ih _ w.readClock
    | names folder next => exact Nat.le_refl _
    | readFile path next => exact Nat.le_refl _
    | readAudit next => exact Nat.le_refl _
    | temporary folder next ih => exact ih _ { w with disk := w.disk.put (w.disk.temporaryPath folder) _ }
    | change c next ih =>
      cases c with
      | write path v => exact ih { w with disk := w.disk.apply (.write path v) }
      | replace source target => exact Nat.le_refl _
      | record event => exact Nat.le_refl _
  obtain ⟨n, rfl⟩ := h
  induction n generalizing w t with
  | zero => exact Nat.le_refl _
  | succ n ih => exact (hadvance w t).trans ih

theorem StopsAt.bind_of_goes {t : Procedure α} {f : α → Procedure β} {a : α}
    (h : StopsAt supply w (t >>= f) u) (ht : Goes supply w t w' (.ok a)) :
    StopsAt supply w t u ∨ StopsAt supply w' (f a) u := by
  refine h.bind.imp_right fun ⟨w'', b, hgoes, hstops⟩ => ?_
  obtain ⟨rfl, heq⟩ := ht.unique hgoes
  obtain rfl := Except.ok.inj heq
  exact hstops

/-! ### Single parts -/

theorem stopsAt_done {o : Outcome α} (h : StopsAt supply w (done o) u) : u = w := by
  obtain ⟨n, rfl⟩ := h
  exact cutOff_done n w o

theorem stopsAt_newId (h : StopsAt supply w newId u) : u = w ∨ u = w.tookId := by
  obtain ⟨_ | n, rfl⟩ := h
  · exact .inl rfl
  · exact .inr (cutOff_done n _ _)

theorem stopsAt_now (h : StopsAt supply w now u) : u = w ∨ u = w.readClock := by
  obtain ⟨_ | n, rfl⟩ := h
  · exact .inl rfl
  · exact .inr (cutOff_done n _ _)

/-- A document is saved as a whole or not at all. -/
theorem stopsAt_save {folder name : String} {v : Value} (h : StopsAt supply w (save folder name v) u) :
    u = w ∨ u = w.saved (Disk.inFolder folder name) v := by
  obtain ⟨_ | n, rfl⟩ := h
  · exact .inl rfl
  · refine .inr ?_
    rw [cutOff, advance_save]
    exact cutOff_done n _ _

/-- An event is added as a whole or not at all. -/
theorem stopsAt_record {e : AuditEvent} (he : e.check = .ok ()) (h : StopsAt supply w (record e) u) :
    u.disk = w.disk ∨ ∃ event, u.disk = w.disk.apply (.record event) := by
  unfold record at h
  rw [he] at h
  obtain ⟨_ | n, rfl⟩ := h
  · exact .inl rfl
  · exact .inr ⟨_, congrArg World.disk (cutOff_done n _ _)⟩

/-! ## Looking -/

/-- A procedure that looks at files and does nothing else. -/
def Looks : Procedure α → Prop
  | done _ => True
  | say _ next => next.Looks
  | names _ next => ∀ found, (next found).Looks
  | readFile _ next => ∀ contents, (next contents).Looks
  | readAudit next => ∀ trail, (next trail).Looks
  | freshId _ | clock _ | temporary _ _ | change _ _ => False

theorem looks_done (o : Outcome α) : (done o).Looks := trivial

theorem looks_tell (level : Level) (text : String) : (tell level text).Looks := trivial

theorem looks_look (path : String) : (look path).Looks := fun _ => trivial

theorem looks_filesIn (folder : String) : (filesIn folder).Looks := fun _ => trivial

theorem Looks.bind {t : Procedure α} {f : α → Procedure β} (ht : t.Looks) (hf : ∀ a, (f a).Looks) :
    (t >>= f).Looks := by
  change (t.bind f).Looks
  induction t with
  | done outcome =>
    cases outcome with
    | ok a => exact hf a
    | error e => trivial
  | say m next ih => exact ih ht
  | names folder next ih => exact fun found => ih found (ht found)
  | readFile path next ih => exact fun contents => ih contents (ht contents)
  | readAudit next ih => exact fun trail => ih trail (ht trail)
  | freshId | clock | temporary | change => exact ht.elim

theorem Looks.attempt {t : Procedure α} (h : t.Looks) : t.attempt.Looks := by
  induction t with
  | done outcome => trivial
  | say m next ih => exact ih h
  | names folder next ih => exact fun found => ih found (h found)
  | readFile path next ih => exact fun contents => ih contents (h contents)
  | readAudit next ih => exact fun trail => ih trail (h trail)
  | freshId | clock | temporary | change => exact h.elim

theorem looks_ofLogged (x : Logged α) : (ofLogged x).Looks := by
  obtain ⟨messages, outcome⟩ := x
  induction messages with
  | nil => trivial
  | cons m rest ih => exact ih

theorem Looks.reads {t : Procedure α} (h : t.Looks) : t.Reads := by
  intro supply w
  induction t with
  | done outcome => rfl
  | say m next ih => exact ih h
  | names folder next ih => exact ih _ (h _)
  | readFile path next ih => exact ih _ (h _)
  | readAudit next ih => exact ih _ (h _)
  | freshId | clock | temporary | change => exact h.elim

theorem Looks.exists_goes {t : Procedure α} (h : t.Looks) (supply : Supply) (w : World) :
    (∃ a, Goes supply w t w (.ok a)) ∨ ∃ e, Goes supply w t w (.error e) := by
  cases houtcome : (run supply w t).2.outcome with
  | ok a => exact .inl ⟨a, h.reads supply w, houtcome⟩
  | error e => exact .inr ⟨e, h.reads supply w, houtcome⟩

theorem Looks.eq_of_stopsAt {t : Procedure α} (h : t.Looks) (hu : StopsAt supply w t u) : u = w := by
  have hadvance : ∀ t : Procedure α, t.Looks →
      (advance supply w t).world = w ∧ (advance supply w t).rest.Looks := by
    intro t ht
    induction t with
    | done outcome => exact ⟨rfl, trivial⟩
    | say m next ih => exact ih ht
    | names folder next => exact ⟨rfl, ht _⟩
    | readFile path next => exact ⟨rfl, ht _⟩
    | readAudit next => exact ⟨rfl, ht _⟩
    | freshId | clock | temporary | change => exact ht.elim
  obtain ⟨n, rfl⟩ := hu
  induction n generalizing t with
  | zero => rfl
  | succ n ih =>
    obtain ⟨hworld, hrest⟩ := hadvance t h
    rw [cutOff, hworld]
    exact ih hrest

/-- A sequence that begins with looking is cut off where it began, or after what it saw. -/
theorem StopsAt.bind_of_looks {t : Procedure α} {f : α → Procedure β} (h : StopsAt supply w (t >>= f) u)
    (ht : t.Looks) : u = w ∨ ∃ a, Goes supply w t w (.ok a) ∧ StopsAt supply w (f a) u := by
  rcases h.bind with h | ⟨w', a, hgoes, h⟩
  · exact .inl (ht.eq_of_stopsAt h)
  · have hworld : w' = w := hgoes.world.symm.trans (ht.reads supply w)
    exact .inr ⟨a, hworld ▸ hgoes, hworld ▸ h⟩

end Pagewright.Procedure
