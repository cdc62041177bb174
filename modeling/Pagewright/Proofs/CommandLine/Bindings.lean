import Pagewright.CommandLine.Run
import Pagewright.Proofs.File.Documents
import Pagewright.Proofs.Template.Sync
import Pagewright.Proofs.Template.Valid

/-!
# Bringing the contract of a file in line

A part of a command yields a result if it gives one and leaves a session that meets a condition (`Act.Yields`); such
parts are put together in their order. Printing leaves the files alone (`yields_printAll`), and the command that
shows the bindings of a template changes them in one place, where it saves the document (`yields_showBindings`).

The document that the first run saves is loaded as it was saved, its template has the new contract, and that is in
line already. So the second run saves the document that is there (`sync_exact`). Half of a surrogate pair in a
document cannot be written, and the command breaks off in the middle of the file (`run_bindings_of_cutOff`).
-/

namespace Pagewright.CommandLine

open Pagewright Act

variable {α β : Type} {around : Surroundings} {s : Session}

namespace Act

/-- A part of a command gives a result, and result and session then meet a condition. -/
def Yields (act : Act α) (around : Surroundings) (s : Session) (post : α → Session → Prop) : Prop :=
  ∃ a s', (act around).run s = (.ok a, s') ∧ post a s'

/-- A part of a command ends it with an exit code, and the session then meets a condition. -/
def Leaves (act : Act α) (around : Surroundings) (s : Session) (code : ℕ) (post : Session → Prop) : Prop :=
  ∃ s', (act around).run s = (.error code, s') ∧ post s'

variable {act : Act α} {next : α → Act β} {mid : α → Session → Prop} {post : β → Session → Prop} {code : ℕ}
  {left : Session → Prop}

theorem run_bind_eq (act : Act α) (next : α → Act β) (around : Surroundings) (s : Session) :
    ((act >>= next) around).run s =
      ExceptT.bindCont (fun a => next a around) ((act around).run s).1 ((act around).run s).2 := rfl

theorem Yields.bind (h : act.Yields around s mid) (hnext : ∀ a s', mid a s' → (next a).Yields around s' post) :
    (act >>= next).Yields around s post := by
  obtain ⟨a, s', hact, hmid⟩ := h
  obtain ⟨b, s'', hrun, hpost⟩ := hnext a s' hmid
  refine ⟨b, s'', ?_, hpost⟩
  rw [run_bind_eq, hact]
  exact hrun

theorem Yields.leaves (h : act.Yields around s mid)
    (hnext : ∀ a s', mid a s' → (next a).Leaves around s' code left) : (act >>= next).Leaves around s code left := by
  obtain ⟨a, s', hact, hmid⟩ := h
  obtain ⟨s'', hrun, hpost⟩ := hnext a s' hmid
  refine ⟨s'', ?_, hpost⟩
  rw [run_bind_eq, hact]
  exact hrun

theorem Leaves.bind (h : act.Leaves around s code left) (next : α → Act β) :
    (act >>= next).Leaves around s code left := by
  obtain ⟨s', hact, hpost⟩ := h
  refine ⟨s', ?_, hpost⟩
  rw [run_bind_eq, hact]
  rfl

theorem leaves_leave (h : left s) : (leave code : Act α).Leaves around s code left := ⟨s, rfl, h⟩

theorem Yields.imp {mid post : α → Session → Prop} {act : Act α} (h : act.Yields around s mid)
    (himp : ∀ a s', mid a s' → post a s') : act.Yields around s post := by
  obtain ⟨a, s', hact, hmid⟩ := h
  exact ⟨a, s', hact, himp a s' hmid⟩

theorem yields_get : (get : Act Session).Yields around s fun s₁ s₂ => s₁ = s ∧ s₂ = s :=
  ⟨s, s, rfl, rfl, rfl⟩

theorem yields_pure {a : α} {post : α → Session → Prop} (h : post a s) : (pure a : Act α).Yields around s post :=
  ⟨a, s, rfl, h⟩

theorem yields_print (line : String) : (print line).Yields around s fun _ s' => s'.folder = s.folder :=
  ⟨(), _, rfl, rfl⟩

theorem yields_require {x : Outcome α} {a : α} (h : x = .ok a) :
    (Act.require x).Yields around s fun b s' => b = a ∧ s' = s := by
  subst h
  exact ⟨a, s, rfl, rfl, rfl⟩

theorem yields_obtain {x : Logged α} {a : α} (h : x.outcome = .ok a) :
    (Act.obtain x).Yields around s fun b s' => b = a ∧ s'.folder = s.folder := by
  obtain ⟨messages, outcome⟩ := x
  obtain rfl : outcome = .ok a := h
  exact ⟨a, _, rfl, rfl, rfl⟩

theorem yields_startLog (kind name : String) :
    (startLog kind name).Yields around s fun _ s' => s'.folder = s.folder :=
  ⟨_, _, rfl, rfl⟩

theorem yields_save {path : String} {document : Value} {g : Folder} (h : s.folder.save path document = .ok g) :
    (Act.save path document).Yields around s fun _ s' => s'.folder = g := by
  unfold Act.save
  refine yields_get.bind ?_
  rintro s₁ s₂ ⟨rfl, rfl⟩
  refine (yields_require h).bind ?_
  rintro f s₂ ⟨rfl, rfl⟩
  exact ⟨(), _, rfl, rfl⟩

theorem yields_write {path text : String} {g : Folder} (h : s.folder.write path text = .ok g) :
    (Act.write path text).Yields around s fun _ s' => s'.folder = g := by
  unfold Act.write
  refine yields_get.bind ?_
  rintro s₁ s₂ ⟨rfl, rfl⟩
  refine (yields_require h).bind ?_
  rintro f s₂ ⟨rfl, rfl⟩
  exact ⟨(), _, rfl, rfl⟩

theorem run_of_leaves {act : Act Unit} (h : act.Leaves around s code left) :
    ∃ s', act.run around s = (code, s') ∧ left s' := by
  obtain ⟨s', hrun, hpost⟩ := h
  refine ⟨s', ?_, hpost⟩
  rw [Act.run, hrun]

theorem run_of_yields {act : Act Unit} {post : Unit → Session → Prop} (h : act.Yields around s post) :
    ∃ s', act.run around s = (0, s') ∧ post () s' := by
  obtain ⟨⟨⟩, s', hrun, hpost⟩ := h
  refine ⟨s', ?_, hpost⟩
  rw [Act.run, hrun]

end Act

/-- Lines without half of a surrogate pair are printed. -/
theorem yields_printAll {standIn : Option Char} {lines : List String}
    (h : ∀ line ∈ lines, hasStandIn standIn line.toList = false) :
    (lines.forM (printEncoded standIn)).Yields around s fun _ s' => s'.folder = s.folder := by
  induction lines generalizing s with
  | nil => exact yields_pure rfl
  | cons line lines ih =>
    obtain ⟨hline, hlines⟩ := List.forall_mem_cons.mp h
    have hprint : printEncoded standIn line = print line := by rw [printEncoded, hline, if_neg Bool.false_ne_true]
    rw [List.forM, hprint]
    refine (yields_print line).bind fun _ s₁ h₁ => ?_
    exact (ih hlines).imp fun _ s₂ h₂ => h₂.trans h₁

variable {path : String} {document : Entries} {t : Template} {ds : List String} {g : Folder}

theorem yields_saveEncoded {v : Value} (h : s.folder.save path v = .ok g) :
    (saveEncoded none path v).Yields around s fun _ s' => s'.folder = g := by
  have hwhole : cutOff none v = none := if_neg (by simp [hasStandIn])
  rw [saveEncoded, hwhole]
  exact yields_save h

/-- What gets into the file of a document with half of a surrogate pair is a beginning of its text. -/
theorem prefix_of_cutOff {standIn : Option Char} {v : Value} {text : String} (hdata : v.IsData)
    (h : cutOff standIn v = some text) : text.toList <+: (Json.indented .unicode v).toList := by
  unfold cutOff at h
  dsimp only at h
  split at h
  · obtain ⟨rest, hrest⟩ := List.takeWhile_prefix (fun piece => !hasStandIn standIn piece)
      (l := Json.linePieces .unicode 0 v)
    refine ⟨rest.flatten, ?_⟩
    rw [← Option.some.inj h, String.toList_ofList, ← List.flatten_append, hrest, Json.flatten_linePieces hdata,
      Json.indented, String.toList_ofList]
  · cases h

theorem outcome_syncContractLogged (hds : t.discover = .ok ds) :
    t.syncContractLogged.outcome = .ok (t.withContract (Template.contractFor t.contract ds)) := by
  rw [Template.syncContractLogged, hds]
  rfl

theorem yields_syncFile (hds : t.discover = .ok ds)
    (hsave : s.folder.save path (.object (document.set "dataContract" (Template.contractFor t.contract ds).toValue)) =
      .ok g) :
    (syncFile path document none t).Yields around s fun _ s' => s'.folder = g := by
  unfold syncFile
  refine (yields_startLog _ _).bind fun log s₁ h₁ => ?_
  refine (yields_obtain (outcome_syncContractLogged hds)).bind ?_
  rintro _ s₂ ⟨rfl, h₂⟩
  rw [← h₁, ← h₂] at hsave
  refine (yields_saveEncoded hsave).bind fun _ s₃ h₃ => ?_
  refine (yields_print _).bind fun _ s₄ h₄ => ?_
  refine (yields_print _).imp fun _ s₅ h₅ => ?_
  rw [h₅, h₄, h₃]

theorem leaves_syncFile {standIn : Option Char} {text : String} (hds : t.discover = .ok ds)
    (hcut : cutOff standIn (.object (document.set "dataContract" (Template.contractFor t.contract ds).toValue)) =
      some text)
    (hwrite : s.folder.write path text = .ok g) :
    (syncFile path document standIn t).Leaves around s 1 fun s' => s'.folder = g := by
  unfold syncFile saveEncoded
  refine (yields_startLog _ _).leaves fun log s₁ h₁ => ?_
  refine (yields_obtain (outcome_syncContractLogged hds)).leaves ?_
  rintro _ s₂ ⟨rfl, h₂⟩
  rw [← h₁, ← h₂] at hwrite
  refine Leaves.bind ?_ _
  rw [Template.contract_withContract, hcut]
  exact (yields_write hwrite).leaves fun _ s₃ h₃ => leaves_leave h₃

theorem yields_showBindings (hload : s.folder.load path = .ok document)
    (htemplate : Template.ofValue (.object document) = .ok t) (hds : t.discover = .ok ds)
    (hsave : s.folder.save path (.object (document.set "dataContract" (Template.contractFor t.contract ds).toValue)) =
      .ok g) :
    (showBindings path true).Yields around s fun _ s' => s'.folder = g := by
  unfold showBindings
  refine yields_get.bind ?_
  rintro _ s₁ ⟨rfl, rfl⟩
  simp only [Folder.loadMarked_of_load hload, Outcome.ok_bind, htemplate]
  refine (yields_require hds).bind ?_
  rintro _ s₂ ⟨rfl, rfl⟩
  refine (yields_print _).bind fun _ s₃ h₃ => ?_
  refine (yields_printAll fun _ _ => rfl).bind fun _ s₄ h₄ => ?_
  refine (yields_printAll fun _ _ => rfl).bind fun _ s₅ h₅ => ?_
  rw [← h₃, ← h₄, ← h₅] at hsave
  refine (yields_syncFile hds hsave).bind fun _ s₆ h₆ => ?_
  exact (yields_print _).imp fun _ s₇ h₇ => h₇.trans h₆

/-- Where a document that is loaded has half of a surrogate pair, which is not in what is shown but stays in what is
to be written, the command ends with code 1, and the document in the file is cut off in front of it. -/
theorem run_bindings_of_cutOff {standIn : Option Char} {text : String} {h : Folder}
    (hload : g.loadMarked path = .ok (document, standIn)) (htemplate : Template.ofValue (.object document) = .ok t)
    (hds : t.discover = .ok ds)
    (hshown : ∀ p ∈ ds, hasStandIn standIn (bindingLine (t.contract.map (·.path)) p).toList = false)
    (hstale : ∀ p ∈ sortUnique ((t.contract.map (·.path)).filter fun p => !ds.contains p),
      hasStandIn standIn (staleLine p).toList = false)
    (hcut : cutOff standIn (.object (document.set "dataContract" (Template.contractFor t.contract ds).toValue)) =
      some text)
    (hwrite : g.write path text = .ok h) (around : Surroundings)
    (store : World) : ∃ s, Command.run (.bindings path true) around g store = (1, s) ∧ s.folder = h := by
  refine run_of_leaves ?_
  show (showBindings path true).Leaves _ _ _ _
  unfold showBindings
  refine yields_get.leaves ?_
  rintro _ s₁ ⟨rfl, rfl⟩
  simp only [hload, Outcome.ok_bind, htemplate]
  refine (yields_require hds).leaves ?_
  rintro _ s₂ ⟨rfl, rfl⟩
  refine (yields_print _).leaves fun _ s₃ h₃ => ?_
  refine (yields_printAll (List.forall_mem_map.mpr hshown)).leaves fun _ s₄ h₄ => ?_
  refine (yields_printAll (List.forall_mem_map.mpr hstale)).leaves fun _ s₅ h₅ => ?_
  have hwrite' : s₅.folder.write path text = .ok h := by
    rw [h₅, h₄, h₃]
    exact hwrite
  exact (leaves_syncFile hds hcut hwrite').bind _

theorem run_bindings (hf : g.IsTree) (hjson : DocumentFormat.ofPath path = .json) (hload : g.load path = .ok document)
    (htemplate : Template.ofValue (.object document) = .ok t) (hds : t.discover = .ok ds) (around : Surroundings)
    (store : World) :
    ∃ s, Command.run (.bindings path true) around g store = (0, s) ∧ s.folder.IsTree ∧
      g.save path (.object (document.set "dataContract" (Template.contractFor t.contract ds).toValue)) =
        .ok s.folder := by
  obtain ⟨g', hsave, htree⟩ := Folder.exists_write hf (Folder.isData_of_load hjson hload).1
    ((DocumentFormat.ofPath path).write
      (.object (document.set "dataContract" (Template.contractFor t.contract ds).toValue)))
  have hyields : (showBindings path true).Yields around { folder := g, store := store } fun _ s' => s'.folder = g' :=
    yields_showBindings hload htemplate hds hsave
  obtain ⟨s, hrun, rfl⟩ := run_of_yields hyields
  exact ⟨s, hrun, htree, hsave⟩

/-- The new contract of a template that was read is read from its document as it was. -/
theorem contract_toValue_contractFor (hread : Template.ofValue (.object document) = .ok t)
    (hds : t.discover = .ok ds) :
    Reading.contract (Template.contractFor t.contract ds).toValue = Template.contractFor t.contract ds := by
  obtain ⟨-, -, hcontract⟩ := Validation.ofValue_eq_ok hread
  obtain ⟨read, hall⟩ := Template.exists_allElements hds
  have hne : ∀ p ∈ ds, p ≠ "" := fun p hp => ((Template.mem_discover_iff hall hds).mp hp).2.1
  exact Reading.contract_toValue (Template.forall_mem_contractFor
    (fun f hf => Reading.isStated_of_mem_contract (hcontract ▸ hf))
    fun p hp => Template.isStated_defaultField (hne p hp))

theorem isData_toValue_contractFor (hread : Template.ofValue (.object document) = .ok t)
    (hdata : (Value.object document).IsData) (ds : List String) :
    (Contract.toValue (Template.contractFor t.contract ds)).IsData := by
  obtain ⟨-, -, hcontract⟩ := Validation.ofValue_eq_ok hread
  exact Contract.isData_toValue (Template.forall_mem_contractFor
    (fun f hf => Reading.hasData_of_mem_contract (hdata.get "dataContract") (hcontract ▸ hf))
    fun p _ => Template.hasData_defaultField p)

/-- **Bringing a contract in line.** A template that was read and can be discovered gets the contract that declares
just the paths it reads, in strict order: the last field that was declared for a path, or the default one. To do it
again changes nothing, and the contract is read from its document as it was. So in a JSON file without half of a
surrogate pair, which is loaded as it is, the first run of the command puts the new contract under its key and leaves
the other keys and files alone, and a second run leaves all files as they are. -/
theorem sync_exact {v : Value} {t : Template} {ds : List String} (hread : Template.ofValue v = .ok t)
    (hds : t.discover = .ok ds) :
    ∃ t', t.syncContract = .ok t' ∧ t' = t.withContract t'.contract ∧
      t'.contract.map (·.path) = ds ∧ ds.Pairwise (· < ·) ∧
      (∀ before f after, t.contract = before ++ f :: after → (∀ g ∈ after, g.path ≠ f.path) → f.path ∈ ds →
        f ∈ t'.contract) ∧
      (∀ p ∈ ds, (∀ f ∈ t.contract, f.path ≠ p) → Template.defaultField p ∈ t'.contract) ∧
      t'.syncContract = .ok t' ∧
      Reading.contract t'.contract.toValue = t'.contract ∧
      ∀ (folder : Folder) (path : String) (document : Entries), v = .object document → folder.IsTree →
        DocumentFormat.ofPath path = .json → folder.load path = .ok document → ∀ around store,
        ∃ s, Command.run (.bindings path true) around folder store = (0, s) ∧
          s.folder.load path = .ok (document.set "dataContract" t'.contract.toValue) ∧
          (∀ key ≠ "dataContract", Entries.find? (document.set "dataContract" t'.contract.toValue) key =
            Entries.find? document key) ∧
          (∀ other, FilePath.normal other ≠ FilePath.normal path → s.folder.find? other = folder.find? other) ∧
          ∀ around' store', ∃ s', Command.run (.bindings path true) around' s.folder store' = (0, s') ∧
            s'.folder = s.folder := by
  obtain ⟨document₀, rfl⟩ := Template.exists_object_of_ofValue hread
  have hstated := contract_toValue_contractFor hread hds
  refine ⟨t.withContract (Template.contractFor t.contract ds), Template.syncContract_eq hds, rfl,
    Template.map_path_contractFor _ _, Template.pairwise_discover hds, ?_,
    fun p hp => Template.mem_contractFor_of_undeclared hp, Template.syncContract_withContractFor hds, hstated, ?_⟩
  · intro before f after hparts hlast hpath
    show f ∈ Template.contractFor t.contract ds
    rw [hparts]
    exact Template.mem_contractFor_of_last hpath hlast
  · rintro folder path document ⟨⟩ hf hjson hload around store
    obtain ⟨s, hrun, htree, hsave⟩ := run_bindings hf hjson hload hread hds around store
    obtain ⟨-, hdata⟩ := Folder.isData_of_load hjson hload
    have hdata' := hdata.set "dataContract" (isData_toValue_contractFor hread hdata ds)
    have hload' := Folder.load_of_save hjson hdata' hsave
    refine ⟨s, hrun, hload', fun key hkey => ?_, fun other hother => Folder.find?_of_write hsave hother,
      fun around' store' => ?_⟩
    · rw [Entries.find?, Entries.lookup_set, if_neg hkey, Entries.find?]
    · have hread' := Template.ofValue_set hread (Contract.toValue (Template.contractFor t.contract ds))
      rw [hstated] at hread'
      obtain ⟨s', hrun', -, hsave'⟩ := run_bindings htree hjson hload' hread'
        ((Template.discover_withContract t _).trans hds) around' store'
      refine ⟨s', hrun', ?_⟩
      rw [Template.contract_withContract, Template.contractFor_contractFor, Entries.set_set] at hsave'
      exact Folder.eq_of_save hsave hsave'

/-- A letter that declares its note twice, the second time with a default of null, and a field that it does not
read. -/
def noteLetter : Entries :=
  [("page", .object [("width", .int 200), ("height", .int 100)]),
    ("elements", .list [.object [("id", .text "greeting"), ("type", .text "text"),
      ("text", .text "Dear {{customer.name}}, {{note}}")]]),
    ("dataContract", .object [("fields", .list [.object [("path", .text "note"), ("required", .bool true)],
      .object [("path", .text "stale")], .object [("path", .text "note"), ("defaultValue", .null)]])]),
    ("name", .text "Letter")]

/-- The letter in a file, beside a record. -/
def letterFolder : Folder :=
  ⟨[("letters/note.json", DocumentFormat.json.write (.object noteLetter)), ("ada.json", "\x7b\x7d")]⟩

theorem load_letterFolder : letterFolder.load "letters/note.json" = .ok noteLetter := by
  have hdata : (Value.object noteLetter).IsData := by
    simp [noteLetter]
    decide
  have hfile : letterFolder.find? "letters/note.json" = some (DocumentFormat.json.write (.object noteLetter)) := by
    have hpath : FilePath.normal "letters/note.json" = "letters/note.json" := by decide +kernel
    rw [Folder.find?, hpath]
    exact List.lookup_cons_self
  exact Folder.load_of_find? (by decide +kernel) hdata hfile

/-- A place to run commands in. -/
def desk : Surroundings where
  supply := ⟨fun _ => "", fun _ => ""⟩
  rasterize _ _ := pure { success := false }
  folder := "/desk"
  stamp := "0"
  now := ⟨⟨2024, 3, 5⟩, 12, 0, 0, 0⟩

/-- The letter gets a field for the name of the customer, keeps the second field for the note and loses the stale one.
The second run finds it so. -/
theorem sync_exact_noteLetter : ∃ t t', Template.ofValue (.object noteLetter) = .ok t ∧
    t.discover = .ok ["customer.name", "note"] ∧ t.syncContract = .ok t' ∧
      t'.contract.map (fun f => (f.path, f.required, f.hasDefault)) =
        [("customer.name", false, true), ("note", false, true)] ∧
      ∃ s s', Command.run (.bindings "letters/note.json" true) desk letterFolder {} = (0, s) ∧
        s.folder.load "letters/note.json" = .ok (noteLetter.set "dataContract" t'.contract.toValue) ∧
        s.folder.find? "ada.json" = letterFolder.find? "ada.json" ∧
        Command.run (.bindings "letters/note.json" true) desk s.folder {} = (0, s') ∧ s'.folder = s.folder := by
  have hletter : ∃ t, Template.ofValue (.object noteLetter) = .ok t ∧
      (∀ e ∈ t.elements, e.content.inclusion? = none) ∧
      (t.elements.mapM fun e => Binding.conditionPaths e.visibleIf) = .ok [[]] ∧
      sortUnique ((t.elements.flatMap Template.textPathsOf ++ [[]].flatten).filter fun p =>
        !Template.isPageFigure p && !p.isEmpty) = ["customer.name", "note"] ∧
      (Template.contractFor t.contract ["customer.name", "note"]).map (fun f => (f.path, f.required, f.hasDefault)) =
        [("customer.name", false, true), ("note", false, true)] := by
    decide +kernel
  obtain ⟨t, hread, hplain, hconditions, hpaths, hfields⟩ := hletter
  have hds : t.discover = .ok ["customer.name", "note"] := by
    rw [Template.discover_of_plain hplain, hconditions, Outcome.ok_bind, hpaths]
    rfl
  obtain ⟨t', hsync, -, -, -, -, -, -, -, hfile⟩ := sync_exact hread hds
  obtain rfl := Except.ok.inj ((Template.syncContract_eq hds).symm.trans hsync)
  obtain ⟨s, hrun, hload, -, hothers, hagain⟩ := hfile letterFolder "letters/note.json" noteLetter rfl
    (by decide +kernel) (by decide +kernel) load_letterFolder desk {}
  obtain ⟨s', hrun', hsame⟩ := hagain desk {}
  exact ⟨t, _, hread, hds, hsync, hfields, s, s', hrun, hload, hothers _ (by decide +kernel), hrun', hsame⟩

/-- A letter whose name is half of a surrogate pair. -/
def halfNamed : Folder :=
  ⟨[("letters/half.json", "\x7b\"name\": \"\\ud800\", \"page\": \x7b\"width\": 200, \"height\": 100\x7d\x7d")]⟩

/-- The letter can be read, and there is nothing to discover in it. The command breaks off when it comes to save it,
and what the file then holds up to the name is no document. -/
theorem not_sync_exact_halfNamed : ∃ document standIn t, halfNamed.IsTree ∧
    halfNamed.loadMarked "letters/half.json" = .ok (document, standIn) ∧ Template.ofValue (.object document) = .ok t ∧
    t.discover = .ok [] ∧ ∃ s, Command.run (.bindings "letters/half.json" true) desk halfNamed {} = (1, s) ∧
      s.folder.find? "letters/half.json" = some "\x7b\n  \"name\": " ∧
      ∀ document', s.folder.load "letters/half.json" ≠ .ok document' := by
  have htree : halfNamed.IsTree := by decide +kernel
  have hletter : ∃ loaded, halfNamed.loadMarked "letters/half.json" = .ok loaded ∧
      ∃ t, Template.ofValue (.object loaded.1) = .ok t ∧ (t.elements.isEmpty = true ∧ t.contract.isEmpty = true) ∧
        cutOff loaded.2 (.object (loaded.1.set "dataContract" (Template.contractFor t.contract []).toValue)) =
          some "\x7b\n  \"name\": " := by
    decide +kernel
  obtain ⟨⟨document, standIn⟩, hload, t, ht, ⟨helements, hcontract⟩, hcut⟩ := hletter
  have hnone : t.elements = [] := List.isEmpty_iff.mp helements
  have hds : t.discover = .ok [] := by
    rw [Template.discover_of_plain (by simp [hnone]), hnone]
    rfl
  have hstale : ∀ p ∈ sortUnique ((t.contract.map (·.path)).filter fun p => !([] : List String).contains p),
      hasStandIn standIn (staleLine p).toList = false := by
    rw [List.isEmpty_iff.mp hcontract]
    exact List.forall_mem_nil _
  have hfound : (halfNamed.find? "letters/half.json").isSome = true := by decide +kernel
  obtain ⟨g, hwrite, -⟩ := Folder.exists_write htree hfound "\x7b\n  \"name\": "
  obtain ⟨s, hrun, rfl⟩ := run_bindings_of_cutOff hload ht hds (List.forall_mem_nil _) hstale hcut hwrite desk {}
  have hfile : s.folder.find? "letters/half.json" = some "\x7b\n  \"name\": " := Folder.find?_write hwrite
  refine ⟨document, standIn, t, htree, hload, ht, hds, s, hrun, hfile, fun document' hagain => ?_⟩
  obtain ⟨text, htext, hread⟩ := Folder.exists_read_of_load hagain
  obtain rfl := Option.some.inj (hfile.symm.trans htext)
  have hcutOff : ((DocumentFormat.ofPath "letters/half.json").read none "\x7b\n  \"name\": ").toBool = false := by
    decide +kernel
  rw [hread] at hcutOff
  cases hcutOff

end Pagewright.CommandLine
