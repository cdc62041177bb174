import Pagewright.Proofs.Template.Valid

/-!
# Faults of template documents

A document that is no template is to be reported: reading it either gives a template or says what is malformed
and where. Three things in a document escape that. A whole number beyond the range of doubles where a number
is read, a number of columns that is not finite, and a list or an object as the type of an element stop the
reader without a report. Where none of them stands at a place that is read, every fault is reported
(`guarded_ofValue`), and a document with one of them is never read as a template.

Validation also looks up ids, references and paths as keys, which lists and objects cannot be
(`returns_issuesOf_iff`).
-/

namespace Pagewright

namespace Outcome

/-- An operation that has a result or says what is malformed and where. -/
def Settled (x : Outcome α) : Prop :=
  ∀ e, x = .error e → ∃ problem location, e = .malformedTemplate problem location

instance (x : Outcome α) : Decidable (Settled x) :=
  match x with
  | .ok _ => isTrue fun _ he => by cases he
  | .error e =>
    match e with
    | .malformedTemplate problem location => isTrue fun _ he => ⟨problem, location, (Except.error.inj he).symm⟩
    | .cyclicPartials _ | .missingRequired _ | .malformedCondition _ | .templateNotFound _ | .unreadable _ _ _
    | .unknownRegion _ | .unknownLocale _ | .nameRequired | .nameEmpty | .unknownAction _ | .undefinedOn _ =>
      isFalse fun h => by
        obtain ⟨_, _, he⟩ := h _ rfl
        cases he

/-- An operation that is settled where `c` holds and has no result elsewhere. -/
structure Guarded (c : Bool) (x : Outcome α) : Prop where
  settled : c = true → Settled x
  holds : Returns x → c = true

variable {x : Outcome α} {c d : Bool}

theorem settled_of_returns (h : Returns x) : Settled x := by
  obtain ⟨a, rfl⟩ := h
  simp [Settled]

theorem guarded_of_returns (h : Returns x) : Guarded true x := ⟨fun _ => settled_of_returns h, fun _ => rfl⟩

theorem guarded_ok (a : α) : Guarded true (.ok a : Outcome α) := guarded_of_returns (returns_ok a)

theorem guarded_fault (c : Bool) (problem location : String) :
    Guarded c (Reading.fault problem location : Outcome α) where
  settled _ _ he := ⟨problem, some location, (Except.error.inj he).symm⟩
  holds h := absurd h (not_returns_error _)

theorem guarded_fault_bind (c : Bool) (problem location : String) (f : α → Outcome β) :
    Guarded c (Reading.fault problem location >>= f) :=
  guarded_fault c problem location

theorem guarded_undefinedOn (cause : Cause) : Guarded false (undefinedOn cause : Outcome α) where
  settled h := by cases h
  holds h := absurd h (not_returns_error _)

/-- One after the other, operations have their conditions one after the other. -/
theorem Guarded.bind {f : α → Outcome β} (hx : Guarded c x) (hf : ∀ a, x = .ok a → Guarded d (f a)) :
    Guarded (c && d) (x >>= f) where
  settled h := by
    rw [Bool.and_eq_true] at h
    intro e he
    cases hresult : x with
    | error e' =>
      rw [hresult] at he
      obtain rfl := Except.error.inj he
      exact hx.settled h.1 _ hresult
    | ok a =>
      rw [hresult] at he
      exact (hf a hresult).settled h.2 e he
  holds h := by
    obtain ⟨b, hb⟩ := h
    obtain ⟨a, ha, hb⟩ := bind_eq_ok.mp hb
    rw [hx.holds ⟨a, ha⟩, (hf a ha).holds ⟨b, hb⟩]
    rfl

theorem Guarded.of_eq (h : Guarded c x) (hcd : c = d) : Guarded d x := hcd ▸ h

theorem Guarded.ite {p : Prop} [Decidable p] {y : Outcome α} (hx : Guarded c x) (hy : Guarded c y) :
    Guarded c (if p then x else y) := by
  split
  · exact hx
  · exact hy

theorem Guarded.map (h : Guarded c x) (f : α → β) : Guarded c (x >>= fun a => pure (f a)) := by
  have hbind := h.bind fun a _ => guarded_ok (f a)
  rwa [Bool.and_true] at hbind

theorem guarded_mapM {f : α → Outcome β} {condition : α → Bool} {xs : List α}
    (h : ∀ x ∈ xs, Guarded (condition x) (f x)) : Guarded (xs.all condition) (xs.mapM f) := by
  induction xs with
  | nil => exact guarded_ok []
  | cons x xs ih =>
    rw [List.forall_mem_cons] at h
    rw [List.mapM_cons, List.all_cons]
    exact h.1.bind fun y _ => (ih h.2).map _

end Outcome

namespace Reading

open Outcome

variable {raw : Entries} {v : Value} {location : String}

/-! ## Numbers -/

/-- Whether a value is no whole number beyond the range of doubles. -/
def soundNumber : Value → Bool
  | .int n => (Binary64.ofInt? n).isSome
  | _ => true

/-- Whether the numbers under some keys of an object are in the range of doubles. -/
def soundNumbers (raw : Entries) (keys : List String) : Bool :=
  keys.all fun key => soundNumber (Entries.get raw key)

theorem guarded_number (v : Value) (location : String) (default : Float) :
    Guarded (soundNumber v) (number v location default) := by
  unfold number soundNumber
  cases v with
  | null => exact guarded_ok _
  | int n =>
    dsimp only
    cases Binary64.ofInt? n with
    | some x => exact guarded_ok x
    | none => exact guarded_undefinedOn _
  | float x => exact guarded_ok x
  | text s =>
    dsimp only
    split
    · exact guarded_ok _
    · split
      · exact guarded_ok _
      · exact guarded_fault _ _ _
  | _ => exact guarded_fault _ _ _

theorem guarded_number? (v : Value) (location : String) : Guarded (soundNumber v) (number? v location) := by
  unfold number?
  split
  · rename_i hnull
    obtain rfl : v = .null := by cases v <;> simp_all [Value.isNull]
    exact guarded_ok _
  · exact (guarded_number v location 0).map _

theorem guarded_pin (v : Value) : Guarded (soundNumber v) (pin v) := by
  unfold pin soundNumber
  cases v with
  | int n =>
    dsimp only
    cases Binary64.ofInt? n with
    | some x => exact guarded_ok _
    | none => exact guarded_undefinedOn _
  | float x => exact guarded_ok _
  | text s =>
    dsimp only
    cases Numeral.float? s.toList <;> exact guarded_ok _
  | _ => exact guarded_ok _

theorem guarded_mapping (v : Value) (location : String) : Guarded true (mapping v location) := by
  cases v with
  | null | object entries => exact guarded_ok _
  | _ => exact guarded_fault _ _ _

theorem guarded_list (v : Value) (location : String) : Guarded true (list v location) := by
  cases v with
  | null | list items => exact guarded_ok _
  | _ => exact guarded_fault _ _ _

theorem mapping_eq_ok {entries : Entries} (h : mapping v location = .ok entries) :
    entries = v.object?.getD [] := by
  cases v with
  | null | object _ => exact (Except.ok.inj h).symm
  | _ => cases h

/-! ## Pages -/

/-- Whether the numbers of a page are in the range of doubles. -/
def soundPage (v : Value) : Bool :=
  soundNumbers ((Entries.get (v.object?.getD []) "margin").object?.getD []) ["top", "right", "bottom", "left"] &&
    soundNumbers (v.object?.getD []) ["width", "height", "headerHeight", "footerHeight"]

theorem guarded_page (v : Value) : Guarded (soundPage v) (page v) := by
  cases v with
  | object raw =>
    refine Guarded.of_eq ((guarded_mapping (Entries.get raw "margin") "page.margin").bind (d := soundPage (.object raw))
      fun margins hmargins => ?_) (Bool.true_and _)
    obtain rfl := mapping_eq_ok hmargins
    refine Guarded.of_eq ((guarded_number _ _ _).bind fun _ _ => (guarded_number _ _ _).bind fun _ _ =>
      (guarded_number _ _ _).bind fun _ _ => (guarded_number _ _ _).bind fun _ _ =>
      Guarded.ite (guarded_fault _ _ _) ((guarded_number _ _ _).bind fun _ _ =>
      (guarded_number _ _ _).bind fun _ _ => (guarded_number _ _ _).bind fun _ _ =>
      (guarded_number _ _ _).map _)) ?_
    simp [soundPage, soundNumbers, Value.object?, Bool.and_assoc]
  | _ => exact guarded_fault _ _ _

/-! ## Lists of parts -/

theorem guarded_each {read : ℕ → α → Outcome β} {condition : α → Bool}
    (h : ∀ i x, Guarded (condition x) (read i x)) (i : ℕ) (xs : List α) :
    Guarded (xs.all condition) (each read i xs) := by
  induction xs generalizing i with
  | nil => exact guarded_ok []
  | cons x xs ih =>
    rw [each, List.all_cons]
    exact (h i x).bind fun y _ => (ih (i + 1)).map _

theorem guarded_fonts (items : List Value) : Guarded true (fonts items) := by
  have hall : Guarded (items.all fun _ => true) (fonts items) := by
    unfold fonts
    refine (guarded_each (fun i v => ?_) 0 items).map _
    cases v with
    | object raw => exact ((guarded_list _ _).map _).map _
    | _ => exact guarded_ok _
  exact hall.of_eq (by simp)

/-- Whether the widths of columns are in the range of doubles. -/
def soundColumns (items : List Value) : Bool :=
  items.all fun v => soundNumber (Entries.get (v.object?.getD []) "w")

theorem guarded_columns (items : List Value) (location : String) :
    Guarded (soundColumns items) (columns items location) := by
  unfold soundColumns columns
  refine (guarded_each (fun i v => ?_) 0 items).map _
  cases v with
  | object raw => exact ((guarded_number _ _ _).map _).map _
  | _ => exact guarded_ok _

/-! ## Contents -/

/-- Whether the numbers of a table are in the range of doubles. -/
def soundTable (raw : Entries) : Bool :=
  soundColumns ((Entries.get raw "columns").list?.getD []) &&
    soundNumber (Entries.get ((Entries.get raw "pagination").object?.getD []) "rowHeight") &&
    soundNumbers raw ["continuationY", "continuationH"]

/-- The columns of a table. -/
def columnsOf (raw : Entries) (location : String) : Outcome (List TableColumn) :=
  match (Entries.get raw "columns").orElse (.list []) with
  | .list items => columns items (location ++ ".columns")
  | _ => fault "Table columns must be a list" (location ++ ".columns")

/-- The pagination of a table. -/
def paginationOf (raw : Entries) (location : String) : Outcome (Option TablePagination) :=
  match Entries.get raw "pagination" with
  | .object p => do
    let rowHeight ← number? (Entries.get p "rowHeight") (location ++ ".pagination.rowHeight")
    return some ⟨(Entries.get p "mode").orElse (.text "none"), rowHeight⟩
  | _ => .ok none

theorem table_eq (raw : Entries) (location : String) : table raw location = do
    let columns ← columnsOf raw location
    let pagination ← paginationOf raw location
    let continuationY ← number? (Entries.get raw "continuationY") (location ++ ".continuationY")
    let continuationH ← number? (Entries.get raw "continuationH") (location ++ ".continuationH")
    return {
      rows := (Entries.get raw "rows").orElse (.text "")
      columns := columns
      pagination := pagination
      rowStyle := Style.ofValue? (Entries.get raw "rowStyle")
      headerStyle := Style.ofValue? (Entries.get raw "headerStyle")
      fillMode := Entries.get raw "fillMode"
      continuationY := continuationY
      continuationH := continuationH } := by
  unfold table columnsOf paginationOf
  cases (Entries.get raw "columns").orElse (.list []) with
  | list items =>
    cases Entries.get raw "pagination" with
    | object p => simp only [bind_assoc, pure_bind]
    | _ => rfl
  | _ => rfl

theorem list?_orElse (v : Value) : (v.orElse (.list [])).list?.getD [] = v.list?.getD [] := by
  unfold Value.orElse
  split
  · rfl
  · cases v with
    | list items => simp_all [Value.isGiven, Value.list?]
    | _ => rfl

theorem guarded_columnsOf (raw : Entries) (location : String) :
    Guarded (soundColumns ((Entries.get raw "columns").list?.getD [])) (columnsOf raw location) := by
  rw [← list?_orElse, columnsOf]
  cases (Entries.get raw "columns").orElse (.list []) with
  | list items => exact guarded_columns items _
  | _ => exact guarded_fault _ _ _

theorem guarded_paginationOf (raw : Entries) (location : String) :
    Guarded (soundNumber (Entries.get ((Entries.get raw "pagination").object?.getD []) "rowHeight"))
      (paginationOf raw location) := by
  unfold paginationOf
  cases Entries.get raw "pagination" with
  | object p => exact (guarded_number? _ _).map _
  | _ => exact guarded_ok _

theorem guarded_table (raw : Entries) (location : String) : Guarded (soundTable raw) (table raw location) := by
  rw [table_eq]
  refine Guarded.of_eq ((guarded_columnsOf raw location).bind fun _ _ => (guarded_paginationOf raw location).bind
    fun _ _ => (guarded_number? _ _).bind fun _ _ => (guarded_number? _ _).map _) ?_
  simp [soundTable, soundNumbers, Bool.and_assoc]

/-- Whether a value that is read as a number is read as a finite one. -/
def readsFinite : Value → Bool
  | .int n => (Binary64.ofInt? n).all fun x => (Binary64.truncate? x).isSome
  | .float x => (Binary64.truncate? x).isSome
  | .text s => Text.isBlankText s || (Numeral.float? s.toList).all fun x => (Binary64.truncate? x).isSome
  | _ => true

theorem truncate?_one : (Binary64.truncate? 1).isSome = true := by decide +kernel

theorem readsFinite_of_number {x : Float} (h : number v location 1 = .ok x) :
    readsFinite v = (Binary64.truncate? x).isSome := by
  unfold number at h
  cases v with
  | null => exact Except.ok.inj h ▸ truncate?_one.symm
  | int n =>
    dsimp only at h
    cases hdouble : Binary64.ofInt? n with
    | none =>
      rw [hdouble] at h
      cases h
    | some y =>
      rw [hdouble] at h
      obtain rfl := Except.ok.inj h
      simp [readsFinite, hdouble]
  | float y => exact Except.ok.inj h ▸ rfl
  | text s =>
    dsimp only at h
    cases hblank : Text.isBlankText s with
    | true =>
      rw [hblank] at h
      obtain rfl := Except.ok.inj h
      simp [readsFinite, hblank, truncate?_one]
    | false =>
      rw [hblank, if_neg Bool.false_ne_true] at h
      split at h
      · rename_i y hnumeral
        obtain rfl := Except.ok.inj h
        simp [readsFinite, hblank, hnumeral]
      · cases h
  | _ => cases h

theorem guarded_flowColumns (v : Value) (location : String) :
    Guarded (soundNumber v && readsFinite v) (flowColumns v location) := by
  refine (guarded_number v location 1).bind fun x hx => ?_
  rw [readsFinite_of_number hx]
  cases Binary64.truncate? x with
  | some n => exact guarded_ok _
  | none => exact guarded_undefinedOn _

/-- Whether what the reader looks at for a kind of content is sound. -/
def soundContent (kind : String) (raw : Entries) : Bool :=
  match kind with
  | "flowText" =>
    soundNumber (Entries.get raw "columns") && readsFinite (Entries.get raw "columns") &&
      soundNumber (Entries.get raw "gap")
  | "table" => soundTable raw
  | _ => true

theorem guarded_content (kind : String) (raw : Entries) (location : String) :
    Guarded (soundContent kind raw) (content kind raw location) := by
  unfold soundContent content
  split
  · exact (guarded_flowColumns _ _).bind fun _ _ => (guarded_number? _ _).map _
  · exact (guarded_table _ _).map _
  · rename_i hflow htable
    split
    all_goals first | exact guarded_ok _ | contradiction

/-! ## Elements -/

theorem guarded_kindOf (v : Value) (location : String) : Guarded (!v.isContainer) (kindOf v location) := by
  cases v with
  | text s => exact Guarded.ite (guarded_ok _) (guarded_fault _ _ _)
  | list items | object entries => exact guarded_undefinedOn _
  | _ => exact guarded_fault _ _ _

/-- Whether an element is sound: its type is no list or object, and the numbers that are read of it are in the
range of doubles. -/
def soundElement (v : Value) : Bool :=
  let raw := v.object?.getD []
  !(Entries.get raw "type").isContainer && soundNumbers raw ["x", "y", "w", "h", "page"] &&
    soundContent ((Entries.get raw "type").text?.getD "") raw

theorem guarded_element (v : Value) (location : String) : Guarded (soundElement v) (element v location) := by
  cases v with
  | object raw =>
    have hsound : soundElement (.object raw) = (!(Entries.get raw "type").isContainer &&
        (soundNumbers raw ["x", "y", "w", "h", "page"] &&
          soundContent ((Entries.get raw "type").text?.getD "") raw)) := Bool.and_assoc _ _ _
    rw [hsound]
    refine (guarded_kindOf (Entries.get raw "type") location).bind fun kind hkind => ?_
    have htype : (Entries.get raw "type").text?.getD "" = kind := by
      rw [Validation.kindOf_eq_ok hkind]
      rfl
    rw [htype]
    refine Guarded.of_eq ((guarded_number _ _ _).bind fun _ _ => (guarded_number _ _ _).bind fun _ _ =>
      (guarded_number _ _ _).bind fun _ _ => (guarded_number _ _ _).bind fun _ _ => (guarded_pin _).bind fun _ _ =>
      (guarded_content kind raw location).map _) ?_
    simp [soundNumbers, Bool.and_assoc]
  | _ => exact guarded_fault _ _ _

/-- Whether a list of elements is sound. -/
def soundElements (v : Value) : Bool := (v.list?.getD []).all soundElement

theorem guarded_elements (v : Value) (location : String) : Guarded (soundElements v) (elements v location) := by
  cases v with
  | null => exact guarded_ok _
  | list items => exact guarded_each (fun i v => guarded_element v (item location i)) 0 items
  | _ => exact guarded_fault _ _ _

/-- Whether a partial is sound. -/
def soundPartial (v : Value) : Bool := soundElements (Entries.get (v.object?.getD []) "elements")

/-- Whether nothing stands in a document that its reader can neither read nor report: no number beyond the
range of doubles and no number of columns that is not finite where numbers are read, and no list or object as
the type of an element. -/
def soundDocument (v : Value) : Bool :=
  let raw := v.object?.getD []
  (((Entries.get raw "partials").object?.getD []).all fun p => soundPartial p.2) &&
    soundNumber (Entries.get raw "pageCount") && soundPage (Entries.get raw "page") &&
    soundElements (Entries.get raw "elements")

end Reading

open Reading Outcome

theorem object?_orElse (v : Value) : (v.orElse (.object [])).object?.getD [] = v.object?.getD [] := by
  unfold Value.orElse
  split
  · rfl
  · cases v with
    | object entries => simp_all [Value.isGiven, Value.object?]
    | _ => rfl

/-- Reading a document gives a template or says what is malformed, if the document is sound, and gives no
template otherwise. -/
theorem Template.guarded_ofValue (v : Value) : Guarded (soundDocument v) (Template.ofValue v) := by
  cases v with
  | object raw =>
    have hpartials := object?_orElse (Entries.get raw "partials")
    unfold Template.ofValue
    dsimp only
    cases horElse : (Entries.get raw "partials").orElse (.object []) with
    | object ps =>
      rw [horElse] at hpartials
      have hread : Guarded (ps.all fun p => soundPartial p.2) (ps.mapM fun p => do
          return (p.1, ← partialNamed p.1 p.2)) := guarded_mapM fun p _ => (guarded_elements _ _).map _
      refine Guarded.of_eq (hread.bind fun _ _ => (guarded_mapping _ _).bind fun _ _ =>
        (guarded_pin _).bind fun _ _ => (guarded_page _).bind fun _ _ => (guarded_list _ _).bind fun _ _ =>
        (guarded_fonts _).bind fun _ _ => (guarded_elements _ _).bind fun _ _ => (guarded_mapping _ _).map _) ?_
      have hsame : (Entries.get raw "partials").object?.getD [] = ps := hpartials.symm
      simp [soundDocument, Value.object?, Bool.and_assoc, ← hsame]
    | _ => exact guarded_fault_bind _ _ _ _
  | _ =>
    refine ⟨fun _ e he => ⟨_, none, (Except.error.inj he).symm⟩, fun h => absurd h (not_returns_error _)⟩

end Pagewright
