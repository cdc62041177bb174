import Pagewright.Proofs.Json.Data
import Pagewright.Proofs.Record.KeyOrder
import Pagewright.Template.Discovery
import Pagewright.Template.Reader

/-!
# Contracts as documents

A field that was read from a document, and one that a path gets on its own, is stated in full
(`ContractField.IsStated`): it has a path, and where a value is not given it is the one that the reader puts in for a
missing key. The document of such a field leaves out just what the reader puts in again, so it is read as the field
(`Reading.contractField_toValue`). A default is written whenever the field has one, null included, and so comes back.

A contract of such fields is read from its document as it was (`Reading.contract_toValue`).
-/

namespace Pagewright

/-- A field as a document can state it. -/
structure ContractField.IsStated (f : ContractField) : Prop where
  path : f.path ≠ ""
  type : f.type.isGiven = true
  source : f.source.isGiven = true
  transform : f.transform.isGiven = true
  externalPath : Reading.orNull f.externalPath = f.externalPath
  locale : Reading.orNull f.locale = f.locale
  currency : Reading.orNull f.currency = f.currency
  dateStyle : Reading.orNull f.dateStyle = f.dateStyle
  defaultValue : f.hasDefault = false → f.defaultValue = .null

namespace Entries

theorem has_eq_isSome (entries : Entries) (key : String) : has entries key = (entries.lookup key).isSome := by
  induction entries with
  | nil => rfl
  | cons e rest ih =>
    obtain ⟨k, u⟩ := e
    rw [lookup_cons]
    by_cases h : key = k
    · simp [has, h]
    · rw [if_neg h, ← ih, has, List.any_cons, beq_eq_false_iff_ne.mpr (Ne.symm h), Bool.false_or]
      rfl

/-- A part that is written only if there is one. -/
theorem lookup_optional (written : Bool) (key other : String) (v : Value) :
    List.lookup other (if written then [(key, v)] else []) =
      if other = key then (if written then some v else none) else none := by
  cases written with
  | true => exact lookup_cons key other v []
  | false => exact (ite_self _).symm

theorem lookup_filter_cons (key other : String) (v : Value) (rest : Entries) :
    List.lookup other (((key, v) :: rest).filter fun e => e.2.isGiven) =
      (if other = key then (if v.isGiven then some v else none) else none).or
        (List.lookup other (rest.filter fun e => e.2.isGiven)) := by
  rw [← lookup_optional, ← List.lookup_append, List.filter_cons]
  split <;> rfl

end Entries

namespace Value

variable {v : Value}

theorem getD_optional (v w : Value) : (if v.isGiven then some v else none).getD w = v.orElse w := by
  unfold orElse
  split <;> rfl

theorem isGiven_orElse {w : Value} (hw : w.isGiven = true) (v : Value) : (v.orElse w).isGiven = true := by
  unfold orElse
  split
  · assumption
  · exact hw

theorem orElse_orElse_null (v : Value) : (v.orElse .null).orElse .null = v.orElse .null := by
  unfold orElse
  split <;> simp [*]

theorem toList_text_ne_nil (x : Float) : (Binary64.text x).toList ≠ [] := by
  cases hx : Binary64.decode x with
  | finite u =>
    obtain ⟨y, hdouble, htext, -⟩ := Json.exists_spelling_of_decode hx
    rw [htext]
    cases u.negative
    · exact List.append_ne_nil_of_left_ne_nil hdouble.isWhole.nonempty _
    · exact List.cons_ne_nil _ _
  | infinite negative =>
    rw [Binary64.text, hx]
    cases negative <;> decide
  | nan =>
    rw [Binary64.text, hx]
    decide

theorem isoChars_ne_nil (d : Date) : d.isoChars ≠ [] := by
  simp [Date.isoChars]

theorem display_ne_empty (h : v.isGiven = true) : v.display ≠ "" := by
  suffices v.display.toList ≠ [] from fun hempty => this (by rw [hempty]; rfl)
  cases v with
  | null => cases h
  | bool b => cases b <;> decide
  | int n =>
    show (toString n).toList ≠ []
    rw [Json.toList_toString_int]
    cases decide (n < 0)
    · exact Decimal.digitsOf_ne_nil _
    · exact List.cons_ne_nil _ _
  | float x => exact toList_text_ne_nil x
  | text s => simpa [isGiven, display] using h
  | list items => simp [display, quoted]
  | object entries => simp [display, quoted]
  | date d =>
    rw [display, Date.iso, String.toList_ofList]
    exact isoChars_ne_nil d
  | moment t =>
    rw [display, DateTime.isoWith, String.toList_ofList, List.append_assoc]
    exact List.append_ne_nil_of_left_ne_nil (isoChars_ne_nil _) _

end Value

namespace Reading

theorem orElse_of_isGiven {v : Value} (h : v.isGiven = true) (w : Value) : v.orElse w = v := by
  rw [Value.orElse, if_pos h]

theorem contractField_toValue {f : ContractField} (hf : f.IsStated) :
    ∃ raw, f.toValue = .object raw ∧ (Entries.get raw "path").isGiven = true ∧ contractField raw = f := by
  obtain ⟨hpath, htype, hsource, htransform, hexternal, hlocale, hcurrency, hstyle, hdefault⟩ := hf
  have hpathGiven : (Value.text f.path).isGiven = true := by simpa [Value.isGiven] using hpath
  refine ⟨_, rfl, hpathGiven, ?_⟩
  simp only [contractField, Entries.get, Entries.has_eq_isSome, List.append_assoc, List.lookup_append,
    Entries.lookup_optional, Entries.lookup_filter_cons, Entries.lookup_cons, String.reduceEq, if_true, if_false,
    List.lookup_nil, Option.none_or, Option.or_none, Option.getD_some, Value.getD_optional,
    List.filter_nil, orElse_of_isGiven htype, orElse_of_isGiven hsource, orElse_of_isGiven htransform]
  obtain ⟨path, required, type, source, externalPath, defaultValue, hasDefault, transform, locale, currency,
    dateStyle⟩ := f
  simp only [orNull] at hexternal hlocale hcurrency hstyle
  simp only [orNull, hexternal, hlocale, hcurrency, hstyle, textOf, hpathGiven, if_true, Value.display]
  cases hasDefault with
  | true => rfl
  | false =>
    obtain rfl : defaultValue = .null := hdefault rfl
    rfl

theorem contract_toValue {c : Contract} (hc : ∀ f ∈ c, f.IsStated) : contract c.toValue = c := by
  show (c.map ContractField.toValue).filterMap _ = c
  induction c with
  | nil => rfl
  | cons f rest ih =>
    obtain ⟨hf, hrest⟩ := List.forall_mem_cons.mp hc
    obtain ⟨raw, hraw, hgiven, hread⟩ := contractField_toValue hf
    rw [List.map_cons, hraw, List.filterMap_cons]
    simp only [hgiven, if_true, hread, ih hrest]

theorem isStated_contractField {raw : Entries} (h : (Entries.get raw "path").isGiven = true) :
    (contractField raw).IsStated where
  path := by
    show textOf _ ≠ ""
    rw [textOf, if_pos h]
    exact Value.display_ne_empty h
  type := Value.isGiven_orElse rfl _
  source := Value.isGiven_orElse rfl _
  transform := Value.isGiven_orElse rfl _
  externalPath := Value.orElse_orElse_null _
  locale := Value.orElse_orElse_null _
  currency := Value.orElse_orElse_null _
  dateStyle := Value.orElse_orElse_null _
  defaultValue hnone := by
    have hlookup : (List.lookup "defaultValue" raw).isSome = false := (Entries.has_eq_isSome raw _).symm.trans hnone
    show Entries.get raw "defaultValue" = .null
    rw [Option.isSome_eq_false_iff, Option.isNone_iff_eq_none] at hlookup
    rw [Entries.get, hlookup]
    rfl

/-- The fields of a contract come from the objects of its document that give a path. -/
theorem exists_of_mem_contract {v : Value} {f : ContractField} (hf : f ∈ contract v) :
    ∃ entries items raw, v = .object entries ∧ Entries.get entries "fields" = .list items ∧ .object raw ∈ items ∧
      (Entries.get raw "path").isGiven = true ∧ contractField raw = f := by
  unfold contract at hf
  split at hf
  · rename_i entries
    split at hf
    · rename_i items hitems
      obtain ⟨item, hitem, hread⟩ := List.mem_filterMap.mp hf
      split at hread
      · rename_i raw
        split at hread
        · rename_i hgiven
          exact ⟨entries, items, raw, rfl, hitems, hitem, hgiven, Option.some.inj hread⟩
        · cases hread
      · cases hread
    · cases hf
  · cases hf

theorem isStated_of_mem_contract {v : Value} {f : ContractField} (hf : f ∈ contract v) : f.IsStated := by
  obtain ⟨_, _, raw, -, -, -, hgiven, rfl⟩ := exists_of_mem_contract hf
  exact isStated_contractField hgiven

end Reading

theorem Template.isStated_defaultField {p : String} (hp : p ≠ "") : (defaultField p).IsStated where
  path := hp
  type := rfl
  source := rfl
  transform := rfl
  externalPath := Reading.orElse_of_isGiven (by simpa [defaultField, Value.isGiven] using hp) _
  locale := rfl
  currency := rfl
  dateStyle := rfl
  defaultValue h := by cases h

/-! ## Contracts in texts -/

/-- A field with values that a text can hold. -/
structure ContractField.HasData (f : ContractField) : Prop where
  type : f.type.IsData
  source : f.source.IsData
  externalPath : f.externalPath.IsData
  defaultValue : f.defaultValue.IsData
  transform : f.transform.IsData
  locale : f.locale.IsData
  currency : f.currency.IsData
  dateStyle : f.dateStyle.IsData

theorem Template.hasData_defaultField (p : String) : (defaultField p).HasData :=
  ⟨.text _, .text _, .text _, .text _, .text _, .null, .null, .null⟩

namespace Value.IsData

variable {v w : Value} {entries : Entries} {items : List Value}

theorem get (h : (Value.object entries).IsData) (key : String) : (Entries.get entries key).IsData := by
  cases h with
  | object _ _ hentries =>
    unfold Entries.get
    cases hlookup : entries.lookup key with
    | none => exact .null
    | some u =>
      obtain ⟨before, after, rfl, -⟩ := List.lookup_eq_some_iff.mp hlookup
      exact hentries (key, u) (by simp)

theorem item (h : (Value.list items).IsData) (hv : v ∈ items) : v.IsData := by
  cases h with
  | list _ hitems => exact hitems v hv

theorem orElse (hv : v.IsData) (hw : w.IsData) : (v.orElse w).IsData := by
  unfold Value.orElse
  split
  · exact hv
  · exact hw

end Value.IsData

theorem Reading.hasData_of_mem_contract {v : Value} (hv : v.IsData) {f : ContractField} (hf : f ∈ contract v) :
    f.HasData := by
  obtain ⟨entries, items, raw, rfl, hitems, hraw, -, rfl⟩ := exists_of_mem_contract hf
  have hdata : (Value.object raw).IsData := (hitems ▸ hv.get "fields").item hraw
  exact ⟨(hdata.get _).orElse (.text _), (hdata.get _).orElse (.text _), (hdata.get _).orElse .null, hdata.get _,
    (hdata.get _).orElse (.text _), (hdata.get _).orElse .null, (hdata.get _).orElse .null,
    (hdata.get _).orElse .null⟩

/-- Everything that the document of a field can hold. -/
def ContractField.allEntries (f : ContractField) : Entries :=
  [("path", .text f.path), ("required", .bool f.required), ("type", f.type), ("source", f.source),
    ("transform", f.transform), ("externalPath", f.externalPath), ("defaultValue", f.defaultValue),
    ("transformLocale", f.locale), ("transformCurrency", f.currency), ("transformDateStyle", f.dateStyle)]

theorem ContractField.exists_sublist_allEntries (f : ContractField) :
    ∃ entries, f.toValue = .object entries ∧ entries.Sublist f.allEntries := by
  have hoptional (written : Bool) (e : String × Value) : (if written then [e] else []).Sublist [e] := by
    cases written
    · exact List.nil_sublist _
    · exact .refl _
  exact ⟨_, rfl, (((List.Sublist.refl _).append (hoptional _ _)).append (hoptional _ _)).append List.filter_sublist⟩

theorem ContractField.isData_toValue {f : ContractField} (hf : f.HasData) : f.toValue.IsData := by
  obtain ⟨entries, hentries, hsublist⟩ := f.exists_sublist_allEntries
  have hkeys : (f.allEntries.map (·.1)).Nodup :=
    (by decide : ["path", "required", "type", "source", "transform", "externalPath", "defaultValue",
      "transformLocale", "transformCurrency", "transformDateStyle"].Nodup)
  have hdata : ∀ e ∈ f.allEntries, e.2.IsData := by
    simp only [allEntries, List.forall_mem_cons]
    exact ⟨.text _, .bool _, hf.type, hf.source, hf.transform, hf.externalPath, hf.defaultValue, hf.locale,
      hf.currency, hf.dateStyle, fun e he => absurd he List.not_mem_nil⟩
  rw [hentries]
  exact .object _ ((hsublist.map _).nodup hkeys) fun e he => hdata e (hsublist.subset he)

theorem Contract.isData_toValue {c : Contract} (hc : ∀ f ∈ c, f.HasData) : c.toValue.IsData := by
  refine .object _ (List.nodup_singleton _) ?_
  intro e he
  obtain rfl := List.mem_singleton.mp he
  refine .list _ fun v hv => ?_
  obtain ⟨f, hf, rfl⟩ := List.mem_map.mp hv
  exact ContractField.isData_toValue (hc f hf)

end Pagewright
