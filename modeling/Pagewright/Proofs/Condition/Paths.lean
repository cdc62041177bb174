import Pagewright.Proofs.Binding.Scan
import Pagewright.Proofs.Condition.Conjunction
import Pagewright.Proofs.Record.Segments

/-!
# The paths of a condition

A condition looks data up at the paths of its operands and nowhere else (`shows_congr`). Each of these paths
stands alone in the text of the condition (`standsAlone_of_mem_paths`): an operand ends where a blank, a
sign, an operator or a bracket stands, and none of these belongs to a token. So the scan of a condition text
finds a path of the condition just when the path is a dotted token (`mem_conditionPaths_iff`).
-/

namespace Pagewright.Condition

open Pagewright.Text Pagewright.Binding

variable {data data' : Value} {c d : Condition} {ts : List Term} {s left literal : List Char} {p : String}

/-! ## Where data are looked up -/

/-- The text of an operand that should be a path. -/
def Operand.text : Operand → List Char
  | path text | isPresent text | length text => text

/-- The path of an operand, if its text is one. -/
def Operand.path? (o : Operand) : Option String := (pathOf o.text).toOption

/-- The paths of an atom. -/
def Atom.paths : Atom → List String
  | constant _ => []
  | compare operand _ _ | test operand => operand.path?.toList

/-- The paths at which a condition looks data up. -/
def paths (c : Condition) : List String := c.flatten.flatMap fun t => t.atom.paths

theorem mem_paths_iff : p ∈ c.paths ↔ ∃ ts ∈ c, ∃ t ∈ ts, p ∈ t.atom.paths := by
  simp only [paths, List.mem_flatMap, List.mem_flatten]
  exact ⟨fun ⟨t, ⟨ts, hts, ht⟩, hp⟩ => ⟨ts, hts, t, ht, hp⟩, fun ⟨ts, hts, t, ht, hp⟩ => ⟨t, ⟨ts, hts, ht⟩, hp⟩⟩

theorem Operand.eval_congr {o : Operand} (h : ∀ p ∈ o.path?, data.find p = data'.find p) :
    o.eval data = o.eval data' := by
  unfold Operand.path? at h
  cases o with
  | path text | isPresent text | length text =>
    simp only [Operand.eval]
    simp only [Operand.text] at h
    cases hpath : pathOf text with
    | error e => rfl
    | ok p =>
      rw [hpath] at h
      rw [Outcome.ok_bind, Outcome.ok_bind, h p rfl]

theorem Atom.eval_congr {a : Atom} (h : ∀ p ∈ a.paths, data.find p = data'.find p) :
    a.eval data = a.eval data' := by
  cases a with
  | constant value => rfl
  | compare operand relation literal =>
    rw [Atom.eval, Atom.eval, Operand.eval_congr fun p hp => h p (Option.mem_toList.mpr hp)]
  | test operand =>
    rw [Atom.eval, Atom.eval, Operand.eval_congr fun p hp => h p (Option.mem_toList.mpr hp)]

theorem evalAll_congr (h : ∀ t ∈ ts, ∀ p ∈ t.atom.paths, data.find p = data'.find p) :
    evalAll data ts = evalAll data' ts := by
  induction ts with
  | nil => rfl
  | cons t ts ih =>
    rw [List.forall_mem_cons] at h
    rw [evalAll, evalAll, Term.eval, Term.eval, Atom.eval_congr h.1, ih h.2]

theorem evalAny_congr (h : ∀ ts ∈ c, ∀ t ∈ ts, ∀ p ∈ t.atom.paths, data.find p = data'.find p) :
    evalAny data c = evalAny data' c := by
  induction c with
  | nil => rfl
  | cons ts c ih =>
    rw [List.forall_mem_cons] at h
    rw [evalAny, evalAny, evalAll_congr h.1, ih h.2]

theorem eval_congr (h : ∀ p ∈ c.paths, data.find p = data'.find p) : eval data c = eval data' c := by
  cases c with
  | nil => rfl
  | cons ts c =>
    exact evalAny_congr fun us hus t ht p hp => h p (mem_paths_iff.mpr ⟨us, hus, t, ht, hp⟩)

/-- Whether an element is shown depends on the data at the paths of its condition alone. -/
theorem shows_congr {v : Value} (h : ∀ p ∈ (stated v).paths, data.find p = data'.find p) :
    shows v data = shows v data' := by
  cases v with
  | text s => rw [shows_text, shows_text, eval_congr (c := ofText s) h]
  | _ => rfl

theorem mem_paths_of_both (h : p ∈ (both c d).paths) : p ∈ c.paths ∨ p ∈ d.paths := by
  unfold both at h
  split at h
  · exact .inr h
  split at h
  · exact .inl h
  · obtain ⟨vs, hvs, t, ht, hp⟩ := mem_paths_iff.mp h
    obtain ⟨ts, hts, hvs⟩ := List.mem_flatMap.mp hvs
    obtain ⟨us, hus, rfl⟩ := List.mem_map.mp hvs
    rcases List.mem_append.mp ht with ht | ht
    · exact .inl (mem_paths_iff.mpr ⟨ts, hts, t, ht, hp⟩)
    · exact .inr (mem_paths_iff.mpr ⟨us, hus, t, ht, hp⟩)

/-! ## Where the paths stand in the text -/

theorem standsAlone_of_mem_splitOn {x : Char} (hx : isTokenChar x = false) {piece : List Char}
    (h : piece ∈ splitOn [x, x] s) : StandsAlone piece s := by
  obtain ⟨a, b, hjoin, ha, hb⟩ := exists_of_mem_join h [x, x]
  rw [join_splitOn] at hjoin
  refine ⟨a, b, hjoin, fun y hy => ?_, fun y hy => ?_⟩
  · rcases ha with rfl | ⟨a', rfl⟩
    · cases hy
    · obtain rfl : x = y := by simpa using hy
      exact hx
  · rcases hb with rfl | ⟨b', rfl⟩
    · cases hy
    · obtain rfl : x = y := by simpa using hy
      exact hx

theorem standsAlone_of_mem_splitAt {x : Char} (hx : isTokenChar x = false) {piece : List Char}
    (h : piece ∈ splitAt [x, x] s) : StandsAlone piece s := by
  obtain ⟨q, hq, rfl⟩ := List.mem_map.mp (List.mem_filter.mp h).1
  exact (standsAlone_trim q).trans (standsAlone_of_mem_splitOn hx hq)

theorem standsAlone_negationsOf (n : ℕ) (s : List Char) : StandsAlone (negationsOf n s).2 s := by
  fun_induction negationsOf n s with
  | case1 n => exact standsAlone_refl []
  | case2 n c rest hblank ih => exact ih.cons (isTokenChar_of_isBlank hblank)
  | case3 n c rest hblank hnot ih =>
    obtain rfl : c = '!' := by simpa using hnot
    exact ih.cons (by decide)
  | case4 n c rest hblank hnot => exact standsAlone_trimEnd (c :: rest)

theorem isTokenChar_head_of_relationsAt {c : Char} {rest : List Char}
    (h : relationsAt (trimStart (c :: rest)) ≠ []) : isTokenChar c = false := by
  cases hblank : isBlank c with
  | true => exact isTokenChar_of_isBlank hblank
  | false =>
    rw [trimStart_eq_self (by simpa using hblank)] at h
    unfold relationsAt at h
    split at h
    case h_7 => exact absurd rfl h
    all_goals
      rename_i heq
      obtain ⟨rfl, -⟩ := List.cons.inj heq
      decide

/-- The left side of a comparison ends where a sign stands, blanks before it apart. -/
theorem comparisonFrom_eq_some {l rest behind : List Char} {relation : Relation}
    (h : comparisonFrom l rest = some (left, relation, behind)) :
    ∃ m b, rest = m ++ b ∧ left = l.reverse ++ m ∧ relationsAt (trimStart b) ≠ [] := by
  induction rest generalizing l with
  | nil =>
    simp [comparisonFrom, trimStart, relationsAt] at h
  | cons c rest ih =>
    rw [comparisonFrom] at h
    split at h
    · rename_i found hfound
      obtain rfl := Option.some.inj h
      obtain ⟨⟨sign, after⟩, hmem, hsome⟩ := List.exists_of_findSome?_eq_some hfound
      obtain ⟨text, -, htext⟩ := Option.map_eq_some_iff.mp hsome
      obtain ⟨rfl, -⟩ := Prod.mk.inj htext
      exact ⟨[], c :: rest, rfl, by simp, List.ne_nil_of_mem hmem⟩
    · split at h
      · cases h
      · obtain ⟨m, b, rfl, rfl, hsign⟩ := ih h
        exact ⟨c :: m, b, rfl, by simp, hsign⟩

theorem standsAlone_of_comparison? {relation : Relation} (h : comparison? s = some (left, relation, literal)) :
    StandsAlone left s := by
  unfold comparison? at h
  split at h
  · cases h
  · split at h
    · cases h
    · obtain ⟨m, b, rfl, rfl, hsign⟩ := comparisonFrom_eq_some h
      refine ⟨[], b, by simp, by simp, fun c hc => ?_⟩
      obtain ⟨b, rfl⟩ := List.head?_eq_some_iff.mp hc
      exact isTokenChar_head_of_relationsAt hsign

theorem standsAlone_of_callOf? {name inner : List Char} (h : callOf? name s = some inner) :
    StandsAlone inner s := by
  unfold callOf? at h
  split at h
  · cases h
  · rename_i rest hrest
    rw [List.isPrefixOf?_eq_some_iff_append_eq] at hrest
    dsimp only at h
    split at h
    · rename_i hcall
      obtain rfl := Option.some.inj h
      simp only [Bool.and_eq_true, beq_iff_eq] at hcall
      refine ⟨name ++ ['('], [')'], ?_, ?_, ?_⟩
      · rw [← hrest, List.append_assoc _ rest.dropLast,
          List.dropLast_append_getLast? ')' hcall.1.1]
      · simpa using (by decide : isTokenChar '(' = false)
      · simpa using (by decide : isTokenChar ')' = false)
    · cases h

theorem standsAlone_operandOf (s : List Char) : StandsAlone (operandOf s).text s := by
  unfold operandOf
  dsimp only
  split
  · rename_i inner hcall
    exact (standsAlone_of_callOf? hcall).trans (standsAlone_trim s)
  · split
    · rename_i inner hcall
      exact (standsAlone_of_callOf? hcall).trans (standsAlone_trim s)
    · exact standsAlone_trim s

theorem standsAlone_of_path? {o : Operand} (h : p ∈ o.path?) : StandsAlone p.toList o.text := by
  unfold Operand.path? pathOf at h
  dsimp only at h
  split at h
  · cases h
  · obtain rfl := Option.some.inj h
    rw [String.toList_ofList]
    exact standsAlone_trim o.text

theorem standsAlone_of_mem_atomOf (h : p ∈ (atomOf s).paths) : StandsAlone p.toList s := by
  unfold atomOf at h
  split at h
  · cases h
  split at h
  · cases h
  split at h
  · rename_i left relation literal hcomparison
    exact ((standsAlone_of_path? (Option.mem_toList.mp h)).trans (standsAlone_operandOf left)).trans
      (standsAlone_of_comparison? hcomparison)
  · exact (standsAlone_of_path? (Option.mem_toList.mp h)).trans (standsAlone_operandOf s)

/-- The paths of a condition stand alone in its text. -/
theorem standsAlone_of_mem_paths {text : String} (h : p ∈ (ofText text).paths) :
    StandsAlone p.toList text.toList := by
  obtain ⟨ts, hts, t, ht, hp⟩ := mem_paths_iff.mp h
  obtain ⟨alternative, halternative, rfl⟩ := List.mem_map.mp hts
  obtain ⟨piece, hpiece, rfl⟩ := List.mem_map.mp ht
  exact (((standsAlone_of_mem_atomOf hp).trans (standsAlone_negationsOf 0 piece)).trans
    (standsAlone_of_mem_splitAt (by decide) hpiece)).trans
    (standsAlone_of_mem_splitAt (by decide) halternative)

/-! ## What the scan of a condition finds -/

/-- Whether a path is a token with a dot in it. -/
def isDotted (p : String) : Bool := isToken p.toList && p.toList.contains '.'

theorem isDotted_of_two_le_segments (htoken : isToken p.toList = true) (h : 2 ≤ (Path.segments p).length) :
    isDotted p = true := by
  have hbracket : '[' ∉ p.toList := fun hmem => absurd (isTokenChar_of_mem htoken hmem) (by decide)
  rw [isDotted, htoken, Bool.true_and]
  by_contra hdot
  have hplain : Path.unbracket false p.toList = p.toList :=
    Path.unbracket_eq_self fun w hw hinside => hbracket (hinside.subset List.mem_cons_self)
  have hpieces : p.toList.splitOn '.' = [p.toList] := List.splitOn_eq_singleton (by simpa using hdot)
  have hone : (Path.segments p).length ≤ 1 := by
    rw [Path.segments, Path.pieces_eq, hplain, hpieces, List.length_map]
    exact List.length_filter_le _ _
  omega

/-- The scan of a condition text finds a path of the condition just when it is a dotted token that is no
figure of the page. -/
theorem mem_conditionPaths_iff {text : String} (h : p ∈ (ofText text).paths) {found : List String}
    (hfound : Binding.conditionPaths (.text text) = .ok found) :
    p ∈ found ↔ isDotted p = true ∧ p ≠ pageNumber ∧ p ≠ pageCount := by
  obtain rfl := Except.ok.inj hfound
  have htokens := mem_tokens_iff_of_standsAlone (standsAlone_of_mem_paths h)
  rw [String.ofList_toList] at htokens
  rw [List.mem_filter, htokens, isDotted, Bool.and_eq_true, Bool.and_eq_true]
  have hreserved (hdot : p.toList.contains '.' = true) :
      (!reserved.contains p) = true ↔ p ≠ pageNumber ∧ p ≠ pageCount := by
    have hne (word : String) (hword : word.toList.contains '.' = false) : p ≠ word := by
      rintro rfl
      exact absurd (hdot.symm.trans hword) (by decide)
    simp [reserved, hne "true" (by decide), hne "false" (by decide), hne "exists" (by decide),
      hne "len" (by decide)]
  constructor
  · rintro ⟨htoken, hdot, hnot⟩
    exact ⟨⟨htoken, hdot⟩, (hreserved hdot).mp hnot⟩
  · rintro ⟨⟨htoken, hdot⟩, hnot⟩
    exact ⟨htoken, hdot, (hreserved hdot).mpr hnot⟩

end Pagewright.Condition
