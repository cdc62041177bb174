import Mathlib.Data.String.Basic
import Pagewright.Proofs.Store.Run
import Pagewright.Proofs.Text.Trim
import Pagewright.Store.Operations
import Std.Data.String.ToInt

/-!
# The files of a template

A template is stored (`IsStored`) in the file of its record and the files of its versions, which are
numbered from one on. What is stored is read back: the record with its current version (`goes_get`), and
the versions, the newest first (`goes_versions`).

Files of one template are not those of another (`Elsewhere`), so writing a version (`HasVersions.add`) or
a record leaves all other templates as they are.
-/

namespace Pagewright

open Text

/-! ## Documents of records and versions -/

theorem TemplateRecord.ofValue_toValue (r : TemplateRecord) : ofValue r.toValue = .ok r := rfl

theorem TemplateVersion.ofValue_toValue {v : TemplateVersion} (h : Store.contentOf v.content = v.content) :
    ofValue v.toValue = .ok v := by
  have hvalue : ofValue v.toValue = .ok { v with content := Store.contentOf v.content } := rfl
  rw [hvalue, h]

namespace Store

variable {d d' : Disk} {id other : String} {v : TemplateVersion} {vs : List TemplateVersion}

@[simp] theorem contentOf_contentOf (v : Value) : contentOf (contentOf v) = contentOf v := by
  unfold contentOf Value.orElse
  by_cases h : v.isGiven
  · simp [h]
  · simp [h]

/-! ## Ids and paths -/

/-- The ids that are given out: 32 hexadecimal digits. -/
structure IsHexId (id : String) : Prop where
  length_eq : id.length = 32
  isHex : ∀ c ∈ id.toList, c ∈ "0123456789abcdef".toList

theorem IsHexId.isId (h : IsHexId id) : isId id = true := by
  have hempty : id.isEmpty = false := by
    rw [Bool.eq_false_iff]
    intro hid
    rw [String.isEmpty_iff] at hid
    rw [hid] at h
    exact absurd h.length_eq (by decide)
  have hdigits : ∀ c ∈ "0123456789abcdef".toList, isAlphanumeric c = true :=
    List.all_eq_true.mp (by decide)
  simp only [Store.isId, hempty, Bool.not_false, Bool.true_and, List.all_eq_true]
  exact fun c hc => hdigits c (h.isHex c hc)

theorem IsHexId.utf8ByteSize_eq (h : IsHexId id) : id.utf8ByteSize = 32 := by
  have hsizes : ("0123456789abcdef".toList.all fun c => c.utf8Size == 1) = true := by decide
  have hdigits : ∀ c ∈ "0123456789abcdef".toList, c.utf8Size = 1 := fun c hc => by
    simpa using List.all_eq_true.mp hsizes c hc
  have hlen : ∀ s : List Char, (∀ c ∈ s, c.utf8Size = 1) → String.utf8Len s = s.length := by
    intro s hs
    induction s with
    | nil => rfl
    | cons c s ih =>
      rw [String.utf8Len_cons, ih fun x hx => hs x (List.mem_cons_of_mem _ hx), hs c (by simp)]
      rfl
  rw [← String.ofList_toList (s := id), String.utf8ByteSize_ofList,
    hlen _ fun c hc => hdigits c (h.isHex c hc), String.length_toList, h.length_eq]

theorem IsHexId.checkName_eq (h : IsHexId id) : checkName id = .ok () := by
  rw [checkName, h.utf8ByteSize_eq]
  rfl

theorem IsHexId.checkName_recordName (h : IsHexId id) : checkName (recordName id) = .ok () := by
  rw [checkName, recordName, String.utf8ByteSize_append, h.utf8ByteSize_eq]
  rfl

/-- The path of a record. -/
def recordPath (id : String) : String := Disk.inFolder recordFolder (recordName id)

/-- The path of a version. -/
def versionPath (id : String) (number : ℤ) : String :=
  Disk.inFolder (versionFolder id) (versionName (.int number))

theorem isName_recordName (h : isId id = true) : Disk.IsName (recordName id) := by
  simp only [isId, Bool.and_eq_true, List.all_eq_true] at h
  have hslash : '/' ∉ id.toList := fun hmem => absurd (h.2 _ hmem) (by decide)
  simp [Disk.IsName, recordName, hslash]

theorem slash_not_mem_repr (n : ℤ) : '/' ∉ n.repr.toList := by
  have hnat (m : ℕ) : '/' ∉ m.repr.toList := by
    rw [Nat.repr_eq_ofList_toDigits, String.toList_ofList]
    exact fun h => absurd (Nat.isDigit_of_mem_toDigits (by decide) (by decide) h) (by decide)
  rw [Int.repr_eq_if]
  split
  · exact hnat _
  · rw [String.toList_append, List.mem_append, not_or]
    exact ⟨by decide, hnat _⟩

theorem versionName_eq (number : ℤ) : versionName (.int number) = "v" ++ number.repr ++ ".json" := rfl

theorem isName_versionName (number : ℤ) : Disk.IsName (versionName (.int number)) := by
  rw [Disk.IsName, versionName_eq, String.toList_append, String.toList_append, List.mem_append,
    List.mem_append]
  rintro ((h | h) | h)
  · exact absurd h (by decide)
  · exact slash_not_mem_repr number h
  · exact absurd h (by decide)

theorem versionName_inj {m n : ℤ} : versionName (.int m) = versionName (.int n) ↔ m = n := by
  rw [versionName_eq, versionName_eq, String.append_left_inj, String.append_right_inj, Int.repr_inj]

theorem isVersionName_versionName (number : ℤ) : isVersionName (versionName (.int number)) = true := by
  have hlist : (versionName (.int number)).toList = 'v' :: (number.repr.toList ++ ".json".toList) := by
    simp [versionName_eq]
  simp only [isVersionName, hlist, List.isSuffixOf_iff_suffix]
  exact List.suffix_append _ _

theorem recordFolder_ne (id : String) : recordFolder ≠ versionFolder id := by
  intro h
  have hlist := congrArg String.toList h
  simp [recordFolder, versionFolder] at hlist

theorem versionFolder_inj : versionFolder id = versionFolder other ↔ id = other := by
  rw [versionFolder, versionFolder, String.append_right_inj]

theorem recordPath_inj : recordPath id = recordPath other ↔ id = other := by
  simp only [recordPath, Disk.inFolder, recordName, String.append_right_inj, String.append_left_inj]

theorem recordPath_ne_versionPath (id other : String) (number : ℤ) :
    recordPath id ≠ versionPath other number := by
  intro h
  have hhead := congrArg (fun path => path.toList.head?) h
  simp [recordPath, versionPath, Disk.inFolder, recordFolder, versionFolder] at hhead

theorem versionPath_inj {m n : ℤ} :
    versionPath id m = versionPath other n ↔ id = other ∧ m = n := by
  rw [versionPath, versionPath, Disk.inFolder_inj (isName_versionName m) (isName_versionName n),
    versionFolder_inj, versionName_inj]

/-! ## Numbers -/

/-- The numbers from one to `n`. -/
def numbersTo (n : ℕ) : List ℤ := (List.range n).map fun i : ℕ => (i : ℤ) + 1

theorem numbersTo_succ (n : ℕ) : numbersTo (n + 1) = numbersTo n ++ [(n : ℤ) + 1] := by
  rw [numbersTo, List.range_succ, List.map_append]
  rfl

theorem mem_numbersTo {k : ℤ} {n : ℕ} : k ∈ numbersTo n ↔ 1 ≤ k ∧ k ≤ n := by
  simp only [numbersTo, List.mem_map, List.mem_range]
  constructor
  · rintro ⟨i, hi, rfl⟩
    omega
  · rintro ⟨hpos, hle⟩
    exact ⟨(k - 1).toNat, by omega, by omega⟩

theorem pairwise_numbersTo (n : ℕ) : (numbersTo n).Pairwise (· < ·) := by
  refine List.pairwise_map.mpr (List.pairwise_lt_range.imp fun h => ?_)
  omega

/-! ## What is stored -/

/-- The versions of a template are in its folder, numbered from one on. -/
structure HasVersions (d : Disk) (id : String) (vs : List TemplateVersion) : Prop where
  names_eq : d.names (versionFolder id) = vs.map fun v => versionName (.int v.number)
  find?_eq : ∀ v ∈ vs, d.find? (versionPath id v.number) = some (.document v.toValue)
  numbers_eq : vs.map (·.number) = numbersTo vs.length
  content_eq : ∀ v ∈ vs, contentOf v.content = v.content

/-- A template is stored with its versions, the last of which is the current one. -/
structure IsStored (d : Disk) (id : String) (t : StoredTemplate) (vs : List TemplateVersion) : Prop
    extends HasVersions d id vs where
  isHexId : IsHexId id
  record_eq : d.find? (recordPath id) = some (.document t.record.toValue)
  id_eq : t.record.id = .text id
  number_eq : t.record.versionNumber = .int vs.length
  current : ∃ v, vs.getLast? = some v ∧ t.version = some v ∧ t.record.versionId = v.id
  name : ∃ name, t.record.name = .text name ∧ name ≠ "" ∧ trimmed name = name

/-- The files of all templates but one are the same. -/
structure Elsewhere (id : String) (d d' : Disk) : Prop where
  record_eq : ∀ other, other ≠ id → d'.find? (recordPath other) = d.find? (recordPath other)
  names_eq : ∀ other, other ≠ id → d'.names (versionFolder other) = d.names (versionFolder other)
  version_eq : ∀ other number, other ≠ id →
    d'.find? (versionPath other number) = d.find? (versionPath other number)

theorem number_le_of_numbers (h : vs.map (·.number) = numbersTo vs.length) (hv : v ∈ vs) :
    v.number ≤ vs.length := by
  have hmem : v.number ∈ vs.map (·.number) := List.mem_map_of_mem hv
  rw [h] at hmem
  exact (mem_numbersTo.mp hmem).2

theorem number_of_getLast? (h : vs.map (·.number) = numbersTo vs.length) (hlast : vs.getLast? = some v) :
    v.number = vs.length := by
  obtain ⟨init, rfl⟩ := List.getLast?_eq_some_iff.mp hlast
  rw [List.map_append, List.length_append, List.length_singleton, numbersTo_succ] at h
  have hnumber := (List.append_inj' h rfl).2
  simpa using hnumber

theorem pairwise_of_numbers {n : ℕ} (h : vs.map (·.number) = numbersTo n) :
    vs.Pairwise fun a b => a.number < b.number := by
  have hpairwise := pairwise_numbersTo n
  rw [← h] at hpairwise
  exact List.pairwise_map.mp hpairwise

theorem HasVersions.number_le (h : HasVersions d id vs) (hv : v ∈ vs) : v.number ≤ vs.length :=
  number_le_of_numbers h.numbers_eq hv

theorem HasVersions.number_of_getLast? (h : HasVersions d id vs) (hlast : vs.getLast? = some v) :
    v.number = vs.length :=
  Store.number_of_getLast? h.numbers_eq hlast

/-! ### Writing -/

theorem HasVersions.put_record (h : HasVersions d id vs) (hid : isId id = true) (v : Value) :
    HasVersions (d.put (recordPath id) (.document v)) id vs where
  names_eq := by
    rw [recordPath, Disk.names_put_of_ne (isName_recordName hid) (recordFolder_ne id).symm]
    exact h.names_eq
  find?_eq v hv := by
    rw [Disk.find?_put_of_ne (recordPath_ne_versionPath id id v.number).symm]
    exact h.find?_eq v hv
  numbers_eq := h.numbers_eq
  content_eq := h.content_eq

theorem HasVersions.exists_of_find? (h : HasVersions d id vs) {number : ℤ}
    (hfind : d.find? (versionPath id number) ≠ none) : ∃ v ∈ vs, v.number = number := by
  have hmem := Disk.mem_names_of_find?_ne_none (isName_versionName _) hfind
  rw [h.names_eq, List.mem_map] at hmem
  obtain ⟨v, hv, hname⟩ := hmem
  exact ⟨v, hv, versionName_inj.mp hname⟩

theorem HasVersions.le_of_find? (h : HasVersions d id vs) {number : ℤ}
    (hfind : d.find? (versionPath id number) ≠ none) : number ≤ vs.length := by
  obtain ⟨v, hv, rfl⟩ := h.exists_of_find? hfind
  exact h.number_le hv

theorem HasVersions.find?_eq_none (h : HasVersions d id vs) :
    d.find? (versionPath id (vs.length + 1)) = none := by
  by_contra hfind
  have hle := h.le_of_find? hfind
  omega

/-- A version with the next number is added as the last one. -/
theorem HasVersions.add (h : HasVersions d id vs) (hnumber : v.number = vs.length + 1)
    (hcontent : contentOf v.content = v.content) :
    HasVersions (d.put (versionPath id v.number) (.document v.toValue)) id (vs ++ [v]) where
  names_eq := by
    have hnew : d.find? (versionPath id v.number) = none := hnumber ▸ h.find?_eq_none
    rw [versionPath, Disk.names_put_of_find?_eq_none (isName_versionName _) hnew, h.names_eq,
      List.map_append]
    rfl
  find?_eq u hu := by
    rcases List.mem_append.mp hu with hu | hu
    · have hne : u.number ≠ v.number := by
        have hle := h.number_le hu
        omega
      rw [Disk.find?_put_of_ne (fun heq => hne (versionPath_inj.mp heq).2)]
      exact h.find?_eq u hu
    · obtain rfl := List.mem_singleton.mp hu
      exact Disk.find?_put_self _ _ _
  numbers_eq := by
    rw [List.map_append, h.numbers_eq, List.length_append, List.length_singleton, numbersTo_succ,
      List.map_singleton, hnumber]
  content_eq u hu := by
    rcases List.mem_append.mp hu with hu | hu
    · exact h.content_eq u hu
    · obtain rfl := List.mem_singleton.mp hu
      exact hcontent

theorem Elsewhere.trans {d₁ d₂ d₃ : Disk} (h : Elsewhere id d₁ d₂) (h' : Elsewhere id d₂ d₃) :
    Elsewhere id d₁ d₃ where
  record_eq other hne := (h'.record_eq other hne).trans (h.record_eq other hne)
  names_eq other hne := (h'.names_eq other hne).trans (h.names_eq other hne)
  version_eq other number hne := (h'.version_eq other number hne).trans (h.version_eq other number hne)

theorem elsewhere_put_record (hid : isId id = true) (d : Disk) (contents : Contents) :
    Elsewhere id d (d.put (recordPath id) contents) where
  record_eq _ hne := Disk.find?_put_of_ne (fun h => hne (recordPath_inj.mp h)) d contents
  names_eq other _ := Disk.names_put_of_ne (isName_recordName hid) (recordFolder_ne other).symm d contents
  version_eq other number _ :=
    Disk.find?_put_of_ne (recordPath_ne_versionPath id other number).symm d contents

theorem elsewhere_put_version (id : String) (number : ℤ) (d : Disk) (contents : Contents) :
    Elsewhere id d (d.put (versionPath id number) contents) where
  record_eq other _ := Disk.find?_put_of_ne (recordPath_ne_versionPath other id number) d contents
  names_eq _ hne := Disk.names_put_of_ne (isName_versionName number)
    (fun h => hne (versionFolder_inj.mp h)) d contents
  version_eq _ _ hne := Disk.find?_put_of_ne (fun h => hne (versionPath_inj.mp h).1) d contents

theorem IsStored.of_elsewhere {t : StoredTemplate} (h : IsStored d other t vs) (hd : Elsewhere id d d')
    (hne : other ≠ id) : IsStored d' other t vs where
  names_eq := (hd.names_eq other hne).trans h.names_eq
  find?_eq v hv := (hd.version_eq other v.number hne).trans (h.find?_eq v hv)
  numbers_eq := h.numbers_eq
  content_eq := h.content_eq
  isHexId := h.isHexId
  record_eq := (hd.record_eq other hne).trans h.record_eq
  id_eq := h.id_eq
  number_eq := h.number_eq
  current := h.current
  name := h.name

/-! ### Reading -/

section Reading

open Procedure

variable {supply : Supply} {w : World} {t : StoredTemplate} {path : String}

theorem goes_document? {v : Value} (h : w.disk.find? path = some (.document v)) :
    Goes supply w (document? path) w (.ok (some v)) := by
  refine Goes.bind (goes_look path) ?_
  rw [h]
  exact Goes.bind (goes_lift _) (goes_pure _)

theorem goes_document?_none (h : w.disk.find? path = none) :
    Goes supply w (document? path) w (.ok none) := by
  refine Goes.bind (goes_look path) ?_
  rw [h]
  exact goes_pure _

theorem goes_document?_error {contents : Contents} {e : Failure} (h : w.disk.find? path = some contents)
    (hjson : contents.json = .error e) : Goes supply w (document? path) w (.error e) := by
  have hread : Goes supply w (liftM contents.json : Procedure Value) w (.error e) := by
    rw [hjson]
    exact goes_lift _
  refine Goes.bind (goes_look path) ?_
  rw [h]
  exact hread.bind_error

theorem goes_loadRecord {r : TemplateRecord} (hid : isId id = true) (hname : checkName (recordName id) = .ok ())
    (h : w.disk.find? (recordPath id) = some (.document r.toValue)) :
    Goes supply w (loadRecord id) w (.ok (some r)) := by
  unfold loadRecord
  rw [hid, hname]
  refine Goes.bind (goes_lift _) (Goes.bind (goes_document? h) ?_)
  exact Goes.bind (goes_lift _) (goes_pure _)

theorem goes_requireRecord {r : TemplateRecord} (hid : IsHexId id)
    (h : w.disk.find? (recordPath id) = some (.document r.toValue)) :
    Goes supply w (requireRecord id) w (.ok r) :=
  Goes.bind (goes_loadRecord hid.isId hid.checkName_recordName h) (goes_pure _)

theorem goes_requireRecord_of_not_isId (hid : isId id = false) :
    Goes supply w (requireRecord id) w (.error (.templateNotFound id)) := by
  refine Goes.bind (a := none) ?_ (goes_fail _)
  unfold loadRecord
  rw [hid]
  exact goes_pure _

theorem goes_requireRecord_of_checkName {e : Failure} (hid : isId id = true)
    (hname : checkName (recordName id) = .error e) : Goes supply w (requireRecord id) w (.error e) := by
  refine Goes.bind_error ?_
  unfold loadRecord
  rw [hid, hname]
  exact Goes.bind_error (goes_lift _)

theorem goes_requireRecord_error (h : w.disk.find? (recordPath id) = none) :
    ∃ e, Goes supply w (requireRecord id) w (.error e) := by
  by_cases hid : isId id = true
  · cases hname : checkName (recordName id) with
    | ok _ =>
      refine ⟨.templateNotFound id, Goes.bind (a := none) ?_ (goes_fail _)⟩
      unfold loadRecord
      rw [hid, hname]
      exact Goes.bind (goes_lift _) (Goes.bind (goes_document?_none h) (goes_pure _))
    | error e => exact ⟨e, goes_requireRecord_of_checkName hid hname⟩
  · exact ⟨_, goes_requireRecord_of_not_isId (Bool.eq_false_iff.mpr hid)⟩

theorem find?_of_goes_requireRecord {r : TemplateRecord} (h : Goes supply w (requireRecord id) w' (.ok r)) :
    isId id = true ∧ checkName (recordName id) = .ok () ∧
      ∃ contents, w.disk.find? (recordPath id) = some contents := by
  have hid : isId id = true := by
    by_contra hid
    exact h.not_error (goes_requireRecord_of_not_isId (Bool.eq_false_iff.mpr hid))
  refine ⟨hid, ?_, ?_⟩
  · cases hname : checkName (recordName id) with
    | ok _ => rfl
    | error e => exact absurd (goes_requireRecord_of_checkName hid hname) h.not_error
  · cases hfind : w.disk.find? (recordPath id) with
    | none =>
      obtain ⟨e, herror⟩ : ∃ e, Goes supply w (requireRecord id) w (.error e) :=
        goes_requireRecord_error hfind
      exact absurd herror h.not_error
    | some contents => exact ⟨contents, rfl⟩

theorem goes_loadVersion (h : HasVersions w.disk id vs) (hv : v ∈ vs) :
    Goes supply w (loadVersion id (.int v.number)) w (.ok (some v)) := by
  unfold loadVersion
  refine Goes.bind (goes_document? (h.find?_eq v hv)) (Goes.bind (a := v) ?_ (goes_pure _))
  rw [TemplateVersion.ofValue_toValue (h.content_eq v hv)]
  exact goes_lift _

/-- A template is found as it is stored, with its current version. -/
theorem goes_get (h : IsStored w.disk id t vs) : Goes supply w (get id) w (.ok (some t)) := by
  obtain ⟨v, hlast, hversion, -⟩ := h.current
  have hload : Goes supply w (loadVersion id (.int v.number)) w (.ok (some v)) :=
    goes_loadVersion h.toHasVersions (List.mem_of_getLast? hlast)
  rw [h.number_of_getLast? hlast, ← h.number_eq] at hload
  refine Goes.bind (goes_loadRecord h.isHexId.isId h.isHexId.checkName_recordName h.record_eq)
    (Goes.bind hload ?_)
  rw [← hversion]
  exact goes_pure _

/-- What reading a file of a folder gives. -/
def readIn {α : Type} (d : Disk) (read : Value → Outcome α) (folder name : String) : Outcome α :=
  match d.find? (Disk.inFolder folder name) with
  | some contents => contents.json >>= read
  | none => undefinedOn (.missingFile (Disk.inFolder folder name))

theorem goes_readAll_mapM {α : Type} (read : Value → Outcome α) (folder : String) (names : List String) :
    Goes supply w (readAll read folder names) w (names.mapM (readIn w.disk read folder)) := by
  induction names with
  | nil => exact goes_pure _
  | cons name rest ih =>
    rw [List.mapM_cons, readIn, readAll]
    refine Goes.bind (goes_look _) ?_
    cases w.disk.find? (Disk.inFolder folder name) with
    | none => exact goes_lift _
    | some contents =>
      exact (goes_lift _).bind_outcome fun _ => ih.bind_outcome fun _ => goes_pure _

theorem goes_readAll {us : List TemplateVersion}
    (hfind : ∀ v ∈ us, w.disk.find? (versionPath id v.number) = some (.document v.toValue))
    (hcontent : ∀ v ∈ us, contentOf v.content = v.content) :
    Goes supply w (readAll TemplateVersion.ofValue (versionFolder id)
      (us.map fun v => versionName (.int v.number))) w (.ok us) := by
  have hread : (us.map fun v => versionName (.int v.number)).mapM
      (readIn w.disk TemplateVersion.ofValue (versionFolder id)) = .ok us := by
    rw [Outcome.mapM_eq_ok, List.forall₂_map_left_iff, List.forall₂_same]
    intro v hv
    rw [readIn, ← versionPath, hfind v hv]
    exact TemplateVersion.ofValue_toValue (hcontent v hv)
  exact hread ▸ goes_readAll_mapM _ _ _

/-- Versions in ascending order are sorted into descending order. -/
theorem foldl_insertVersion {us : List TemplateVersion} (h : us.Pairwise fun a b => a.number < b.number)
    {sorted : List TemplateVersion} (hsorted : ∀ s ∈ sorted, ∀ u ∈ us, s.number < u.number) :
    us.foldl (fun sorted v => insertVersion v sorted) sorted = us.reverse ++ sorted := by
  induction us generalizing sorted with
  | nil => rfl
  | cons u us ih =>
    obtain ⟨hu, hus⟩ := List.pairwise_cons.mp h
    have hinsert : insertVersion u sorted = u :: sorted := by
      cases sorted with
      | nil => rfl
      | cons s sorted => rw [insertVersion, if_pos (hsorted s (by simp) u (by simp))]
    rw [List.foldl_cons, hinsert, ih hus, List.reverse_cons, List.append_assoc]
    · rfl
    · rintro s hs v hv
      rcases List.mem_cons.mp hs with rfl | hs
      · exact hu v hv
      · exact hsorted s hs v (List.mem_cons_of_mem _ hv)

/-- The versions of a template are found, the newest first. -/
theorem goes_versions (hid : IsHexId id) (h : HasVersions w.disk id vs) :
    Goes supply w (versions id) w (.ok vs.reverse) := by
  unfold versions
  rw [hid.isId, hid.checkName_eq]
  have hnames : (w.disk.names (versionFolder id)).filter isVersionName =
      vs.map fun v => versionName (.int v.number) := by
    rw [h.names_eq, List.filter_eq_self]
    intro name hname
    obtain ⟨v, -, rfl⟩ := List.mem_map.mp hname
    exact isVersionName_versionName v.number
  have hread : Goes supply w (readAll TemplateVersion.ofValue (versionFolder id)
      ((w.disk.names (versionFolder id)).filter isVersionName)) w (.ok vs) := by
    rw [hnames]
    exact goes_readAll h.find?_eq h.content_eq
  refine Goes.bind (goes_lift _) (Goes.bind (goes_filesIn _) (Goes.bind hread ?_))
  rw [foldl_insertVersion (pairwise_of_numbers h.numbers_eq) (by simp), List.append_nil]
  exact goes_pure _

/-- The greatest of the numbers from one on is their count. -/
theorem latest_reverse (h : vs.map (·.number) = numbersTo vs.length) : latest vs.reverse = vs.length := by
  have hmax : ∀ (l : List ℤ) (n : ℤ), (∀ x ∈ l, x ≤ n) → l.foldl max n = n := by
    intro l n hl
    induction l with
    | nil => rfl
    | cons x l ih =>
      rw [List.foldl_cons, max_eq_left (hl x (by simp))]
      exact ih fun y hy => hl y (List.mem_cons_of_mem _ hy)
  rcases List.eq_nil_or_concat vs with rfl | ⟨init, v, rfl⟩
  · rfl
  · rw [List.concat_eq_append] at h ⊢
    have hlast : (init ++ [v]).getLast? = some v := by simp
    rw [← number_of_getLast? h hlast, List.reverse_append]
    refine hmax (init.reverse.map (·.number)) v.number fun x hx => ?_
    obtain ⟨u, hu, rfl⟩ := List.mem_map.mp hx
    rw [number_of_getLast? h hlast]
    exact number_le_of_numbers h (List.mem_append_left _ (List.mem_reverse.mp hu))

theorem IsStored.unique {t' : StoredTemplate} {vs' : List TemplateVersion} (h : IsStored w.disk id t vs)
    (h' : IsStored w.disk id t' vs') : t = t' ∧ vs = vs' := by
  -- Reading gives one result, and it gives both.
  have supply : Supply := ⟨fun _ => "", fun _ => ""⟩
  have hget : Goes supply w (get id) w (.ok (some t)) := goes_get h
  have hversions : Goes supply w (versions id) w (.ok vs.reverse) :=
    goes_versions h.isHexId h.toHasVersions
  have hresult := hget.outcome.symm.trans (goes_get h').outcome
  have hresults := hversions.outcome.symm.trans (goes_versions h'.isHexId h'.toHasVersions).outcome
  exact ⟨by simpa using hresult, by simpa using hresults⟩

end Reading

end Store

end Pagewright
