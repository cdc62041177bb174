import Pagewright.Proofs.Json.Data

/-!
# Layouts of JSON

A value is written on one line or with one item a line. The two differ only in the blanks inside lists and
objects, so both are one way of writing (`laidChars`) with a layout that says which blanks these are.
-/

namespace Pagewright.Json

/-- The blanks inside a list or object at a level: behind its opening bracket, behind a comma, and in front of its
closing bracket. -/
structure Layout where
  first : ℕ → List Char
  next : ℕ → List Char
  last : ℕ → List Char

namespace Layout

/-- One item a line. -/
def lines : Layout := ⟨fun level => newLine (level + 1), fun level => newLine (level + 1), newLine⟩

/-- Everything on one line. -/
def line : Layout := ⟨fun _ => [], fun _ => [' '], fun _ => []⟩

/-- All characters of a layout are of a kind. -/
structure All (p : Char → Prop) (L : Layout) : Prop where
  first : ∀ level, ∀ c ∈ L.first level, p c
  next : ∀ level, ∀ c ∈ L.next level, p c
  last : ∀ level, ∀ c ∈ L.last level, p c

theorem all_lines {p : Char → Prop} (hbreak : p '\n') (hspace : p ' ') : lines.All p := by
  have hnew (level : ℕ) : ∀ c ∈ newLine level, p c := by
    intro c hc
    rcases List.mem_cons.mp hc with rfl | hc
    · exact hbreak
    · rwa [List.eq_of_mem_replicate hc]
  exact ⟨fun _ => hnew _, fun _ => hnew _, hnew⟩

theorem all_line {p : Char → Prop} (hspace : p ' ') : line.All p where
  first _ _ hc := absurd hc List.not_mem_nil
  next _ c hc := by rwa [List.mem_singleton.mp hc]
  last _ _ hc := absurd hc List.not_mem_nil

end Layout

mutual

/-- A value in a layout, nested `level` deep. -/
def laidChars (L : Layout) (charset : Charset) (level : ℕ) : Value → List Char
  | .list [] => ['[', ']']
  | .list items => '[' :: (L.first level ++ (laidItems L charset level items ++ (L.last level ++ [']'])))
  | .object [] => ['\x7b', '\x7d']
  | .object entries =>
    '\x7b' :: (L.first level ++ (laidEntries L charset level entries ++ (L.last level ++ ['\x7d'])))
  | v => leafChars charset v

/-- The items of a list at a level. -/
def laidItems (L : Layout) (charset : Charset) (level : ℕ) : List Value → List Char
  | [] => []
  | [v] => laidChars L charset (level + 1) v
  | v :: rest => laidChars L charset (level + 1) v ++ ',' :: (L.next level ++ laidItems L charset level rest)

/-- The entries of an object at a level. -/
def laidEntries (L : Layout) (charset : Charset) (level : ℕ) : List (String × Value) → List Char
  | [] => []
  | [(k, v)] => stringChars charset k ++ ':' :: ' ' :: laidChars L charset (level + 1) v
  | (k, v) :: rest =>
    stringChars charset k ++ ':' :: ' ' :: (laidChars L charset (level + 1) v ++
      ',' :: (L.next level ++ laidEntries L charset level rest))

end

variable {charset : Charset} {level : ℕ} {v : Value} {items : List Value} {entries : Entries}

theorem laidItems_cons (L : Layout) (v w : Value) (items : List Value) :
    laidItems L charset level (v :: w :: items) =
      laidChars L charset (level + 1) v ++ ',' :: (L.next level ++ laidItems L charset level (w :: items)) := rfl

theorem laidEntries_cons (L : Layout) (key : String) (v : Value) (e : String × Value) (entries : Entries) :
    laidEntries L charset level ((key, v) :: e :: entries) =
      stringChars charset key ++ ':' :: ' ' :: (laidChars L charset (level + 1) v ++
        ',' :: (L.next level ++ laidEntries L charset level (e :: entries))) := rfl

/-! ## Pieces -/

theorem flatten_leadPieces (lead : List Char) (v : Value) (pieces : List (List Char)) :
    (leadPieces lead v pieces).flatten = lead ++ pieces.flatten := by
  unfold leadPieces
  cases v.isContainer <;> simp

theorem flatten_itemPieces (mark : Char) (hne : items ≠ [])
    (h : ∀ v ∈ items, (linePieces charset level v).flatten = indentedChars charset level v) :
    (itemPieces charset level mark items).flatten = mark :: indentedItems charset level items := by
  induction items generalizing mark with
  | nil => exact absurd rfl hne
  | cons v items ih =>
    obtain ⟨hv, hitems⟩ := List.forall_mem_cons.mp h
    rw [itemPieces, List.flatten_append, flatten_leadPieces, hv]
    cases items with
    | nil => simp [itemPieces, indentedItems]
    | cons w items =>
      rw [ih ',' (List.cons_ne_nil _ _) hitems]
      simp [indentedItems]

theorem flatten_entryPieces (lead : List Char) (hne : entries ≠ [])
    (h : ∀ e ∈ entries, (linePieces charset level e.2).flatten = indentedChars charset level e.2) :
    (entryPieces charset level lead entries).flatten = lead ++ indentedEntries charset level entries := by
  induction entries generalizing lead with
  | nil => exact absurd rfl hne
  | cons e entries ih =>
    obtain ⟨key, v⟩ := e
    obtain ⟨(hv : (linePieces charset level v).flatten = _), hentries⟩ := List.forall_mem_cons.mp h
    rw [entryPieces, List.flatten_append, List.flatten_cons, List.flatten_cons, List.flatten_cons, hv]
    cases entries with
    | nil => simp [entryPieces, indentedEntries]
    | cons e' entries =>
      rw [ih [','] (List.cons_ne_nil _ _) hentries]
      simp [indentedEntries]

/-- The pieces of a value are its text with one item a line. -/
theorem flatten_linePieces (h : v.IsData) (level : ℕ) :
    (linePieces charset level v).flatten = indentedChars charset level v := by
  induction h generalizing level with
  | list items hdata ih =>
    cases items with
    | nil => rfl
    | cons v items =>
      have hitems := flatten_itemPieces '[' (List.cons_ne_nil v items) fun w hw => ih w hw (level + 1)
      simp [linePieces, indentedChars, hitems]
  | object entries hkeys hdata ih =>
    cases entries with
    | nil => rfl
    | cons e entries =>
      have hentries := flatten_entryPieces [] (List.cons_ne_nil e entries) fun w hw => ih w hw (level + 1)
      simp [linePieces, indentedChars, hentries]
  | _ => simp [linePieces, indentedChars]

/-! ## One item a line -/

theorem laidItems_lines (hne : items ≠ [])
    (h : ∀ v ∈ items, laidChars .lines charset (level + 1) v = indentedChars charset (level + 1) v) :
    newLine (level + 1) ++ laidItems .lines charset level items = indentedItems charset (level + 1) items := by
  induction items with
  | nil => exact absurd rfl hne
  | cons v items ih =>
    obtain ⟨hv, hitems⟩ := List.forall_mem_cons.mp h
    cases items with
    | nil => rw [laidItems, indentedItems, hv]
    | cons w items =>
      have hrest := ih (List.cons_ne_nil _ _) hitems
      rw [laidItems_cons, hv]
      show _ ++ (_ ++ ',' :: (newLine (level + 1) ++ _)) = newLine (level + 1) ++ _ ++ ',' :: _
      rw [hrest, List.append_assoc]

theorem laidEntries_lines (hne : entries ≠ [])
    (h : ∀ e ∈ entries, laidChars .lines charset (level + 1) e.2 = indentedChars charset (level + 1) e.2) :
    newLine (level + 1) ++ laidEntries .lines charset level entries =
      indentedEntries charset (level + 1) entries := by
  induction entries with
  | nil => exact absurd rfl hne
  | cons e entries ih =>
    obtain ⟨key, v⟩ := e
    obtain ⟨(hv : laidChars .lines charset (level + 1) v = _), hentries⟩ := List.forall_mem_cons.mp h
    cases entries with
    | nil => rw [laidEntries, indentedEntries, hv, List.append_assoc]
    | cons e' entries =>
      have hrest := ih (List.cons_ne_nil _ _) hentries
      rw [laidEntries_cons, hv]
      show _ ++ (_ ++ ':' :: ' ' :: (_ ++ ',' :: (newLine (level + 1) ++ _))) =
        newLine (level + 1) ++ _ ++ ':' :: ' ' :: _ ++ ',' :: _
      rw [hrest]
      simp only [List.append_assoc, List.cons_append]

/-- With one item a line a value is written by the layout of lines. -/
theorem laidChars_lines (h : v.IsData) (level : ℕ) :
    laidChars .lines charset level v = indentedChars charset level v := by
  induction h generalizing level with
  | list items hdata ih =>
    cases items with
    | nil => rfl
    | cons v items =>
      have hitems := laidItems_lines (List.cons_ne_nil v items) fun w hw => ih w hw (level + 1)
      show '[' :: (newLine (level + 1) ++ (_ ++ (newLine level ++ [']']))) = '[' :: _ ++ newLine level ++ [']']
      rw [← List.append_assoc, hitems, List.cons_append, List.cons_append, List.append_assoc]
  | object entries hkeys hdata ih =>
    cases entries with
    | nil => rfl
    | cons e entries =>
      have hentries := laidEntries_lines (List.cons_ne_nil e entries) fun w hw => ih w hw (level + 1)
      show '\x7b' :: (newLine (level + 1) ++ (_ ++ (newLine level ++ ['\x7d']))) =
        '\x7b' :: _ ++ newLine level ++ ['\x7d']
      rw [← List.append_assoc, hentries, List.cons_append, List.cons_append, List.append_assoc]
  | _ => rfl

/-! ## One line -/

theorem laidItems_line (h : ∀ v ∈ items, laidChars .line charset (level + 1) v = compactChars charset v) :
    laidItems .line charset level items = compactItems charset items := by
  induction items with
  | nil => rfl
  | cons v items ih =>
    obtain ⟨hv, hitems⟩ := List.forall_mem_cons.mp h
    cases items with
    | nil => exact hv
    | cons w items =>
      rw [laidItems_cons, hv, ih hitems]
      rfl

theorem laidEntries_line (h : ∀ e ∈ entries, laidChars .line charset (level + 1) e.2 = compactChars charset e.2) :
    laidEntries .line charset level entries = compactEntries charset entries := by
  induction entries with
  | nil => rfl
  | cons e entries ih =>
    obtain ⟨key, v⟩ := e
    obtain ⟨(hv : laidChars .line charset (level + 1) v = _), hentries⟩ := List.forall_mem_cons.mp h
    cases entries with
    | nil => rw [laidEntries, compactEntries, hv]
    | cons e' entries =>
      rw [laidEntries_cons, hv, ih hentries]
      show _ = _ ++ ':' :: ' ' :: _ ++ ',' :: ' ' :: _
      rw [List.append_assoc]
      rfl

theorem laidChars_line (h : v.IsData) (level : ℕ) : laidChars .line charset level v = compactChars charset v := by
  induction h generalizing level with
  | list items hdata ih =>
    cases items with
    | nil => rfl
    | cons v items =>
      have hitems := laidItems_line fun w hw => ih w hw (level + 1)
      show '[' :: (_ ++ [']']) = '[' :: _ ++ [']']
      rw [hitems, List.cons_append]
  | object entries hkeys hdata ih =>
    cases entries with
    | nil => rfl
    | cons e entries =>
      have hentries := laidEntries_line fun w hw => ih w hw (level + 1)
      show '\x7b' :: (_ ++ ['\x7d']) = '\x7b' :: _ ++ ['\x7d']
      rw [hentries, List.cons_append]
  | _ => rfl

end Pagewright.Json
