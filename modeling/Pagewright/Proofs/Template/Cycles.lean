import Mathlib.Data.List.Chain
import Mathlib.Data.List.Perm.Subperm
import Pagewright.Proofs.Template.Checks

/-!
# Circles of partials

Partials are the nodes of a graph: one leads to another that an inclusion among its elements refers to. The
search for a circle finds one just when the graph has one, and what it finds is one
(`Template.findCycle_decides`).

A finished search is read as a derivation (`Searched`), and both halves are inductions on it. The chain that
the search goes down is a path of the graph without repetition, so a name that is met again closes a circle
(`Searched.isCircle`). A partial that the search has finished has only finished ones below it, so no path from
it goes on forever (`Searched.ends_of_clear`). Here `Room` says that the depth of the search is never used up: the
partials of the chain are different and known.
-/

namespace Pagewright.Template

open Outcome

variable {t : Template} {names : List String} {a b name : String} {elements : List Element}

/-! ## The graph of partials -/

/-- The names of the partials. -/
def partialNames (t : Template) : List String := t.partials.map Prod.fst

/-- A partial leads to each name, other than the empty one, that an inclusion among its elements refers to. -/
def LeadsTo (t : Template) (a b : String) : Prop :=
  ∃ elements, t.partials.lookup a = some elements ∧
    ∃ e ∈ elements, e.content.inclusion? = some (.text b) ∧ b ≠ ""

/-- A partial leads to another partial that is there. -/
def LeadsToPartial (t : Template) (a b : String) : Prop := t.LeadsTo a b ∧ b ∈ t.partialNames

/-- A closed path of the graph without repetition, its first name repeated at the end. -/
structure IsCircle (t : Template) (names : List String) : Prop where
  two_le_length : 2 ≤ names.length
  head?_eq_getLast? : names.head? = names.getLast?
  nodup : names.dropLast.Nodup
  isChain : names.IsChain t.LeadsTo

theorem mem_partialNames_iff : name ∈ t.partialNames ↔ ∃ elements, t.partials.lookup name = some elements := by
  rw [partialNames, ← Option.isSome_iff_exists]
  induction t.partials with
  | nil => simp
  | cons p rest ih =>
    obtain ⟨first, children⟩ := p
    rw [List.map_cons, List.mem_cons, ih, List.lookup_cons]
    cases h : name == first with
    | true => simp [beq_iff_eq.mp h]
    | false => simp [beq_eq_false_iff_ne.mp h]

theorem text_mem_references : Value.text b ∈ references elements ↔
    ∃ e ∈ elements, e.content.inclusion? = some (.text b) ∧ b ≠ "" := by
  simp only [references, List.mem_filter, List.mem_filterMap, Value.isGiven, Bool.not_eq_true',
    String.isEmpty_eq_false_iff]
  constructor
  · rintro ⟨⟨e, he, href⟩, hb⟩
    exact ⟨e, he, href, hb⟩
  · rintro ⟨e, he, href, hb⟩
    exact ⟨⟨e, he, href⟩, hb⟩

theorem leadsTo_iff (h : t.partials.lookup a = some elements) :
    t.LeadsTo a b ↔ Value.text b ∈ references elements := by
  rw [LeadsTo, h, text_mem_references]
  simp

theorem LeadsTo.mem_partialNames (h : t.LeadsTo a b) : a ∈ t.partialNames :=
  mem_partialNames_iff.mpr (h.imp fun _ h => h.1)

/-- A circle leads from its first name back to it, by way of partials that are there. -/
theorem IsCircle.exists_transGen (h : IsCircle t names) : ∃ a, Relation.TransGen t.LeadsToPartial a a := by
  obtain ⟨hlength, hclosed, -, hchain⟩ := h
  match names, hlength with
  | a :: b :: rest, _ =>
    -- Each name but the last leads on, and the last is the first.
    have hknown : ∀ x ∈ a :: b :: rest, x ∈ t.partialNames := by
      intro x hx
      obtain ⟨before, after, hsplit⟩ := List.append_of_mem hx
      cases after with
      | cons y after =>
        rw [hsplit] at hchain
        have hlink := (List.isChain_append.mp hchain).2.1
        exact (List.isChain_cons_cons.mp hlink).1.mem_partialNames
      | nil =>
        have hlast : (a :: b :: rest).getLast? = some x := by rw [hsplit, List.getLast?_append]; rfl
        obtain rfl : a = x := Option.some.inj (hclosed.trans hlast)
        exact (List.isChain_cons_cons.mp hchain).1.mem_partialNames
    have hchain' : (a :: b :: rest).IsChain t.LeadsToPartial :=
      hchain.imp_of_mem_imp fun x y _ hy hxy => ⟨hxy, hknown y hy⟩
    have hlast : (b :: rest).getLast (List.cons_ne_nil b rest) = a := by
      have h := hclosed.symm
      rw [List.getLast?_cons_cons, List.getLast?_eq_some_getLast (List.cons_ne_nil b rest)] at h
      exact Option.some.inj h
    obtain ⟨hfirst, hrest⟩ := List.isChain_cons_cons.mp hchain'
    exact ⟨a, .head' hfirst (List.relationReflTransGen_of_exists_isChain_cons rest hrest hlast)⟩

/-! ## Runs of the search -/

/-- How a search that looks for a circle from each of some references, down a chain, comes to its end. -/
inductive Searched (t : Template) : ℕ → List String → List String → List Value → Search → Prop where
  | nil (depth : ℕ) (chain finished : List String) : Searched t depth chain finished [] (.clear finished)
  /-- A name of the chain is met again. -/
  | closed {name : String} {chain : List String} (depth : ℕ) (finished : List String) (rest : List Value)
    (h : name ∈ chain) :
    Searched t depth chain finished (.text name :: rest) (.circle (chainFrom chain name ++ [name]))
  /-- A reference is passed over. -/
  | passed {depth : ℕ} {chain finished : List String} {ref : Value} {rest : List Value} {found : Search}
    (h : ∀ name, ref = .text name → name ∈ finished ∨ name ∉ t.partialNames ∨ depth = 0 ∧ name ∉ chain)
    (hrest : Searched t depth chain finished rest found) : Searched t depth chain finished (ref :: rest) found
  /-- There is a circle below a partial. -/
  | found {depth : ℕ} {chain finished names : List String} {name : String} {elements : List Element}
    (rest : List Value) (hnew : name ∉ chain) (hlookup : t.partials.lookup name = some elements)
    (h : Searched t depth (chain ++ [name]) finished (references elements) (.circle names)) :
    Searched t (depth + 1) chain finished (.text name :: rest) (.circle names)
  /-- There is none below a partial, and the search goes on. -/
  | left {depth : ℕ} {chain finished below : List String} {name : String} {elements : List Element}
    {rest : List Value} {found : Search} (hnew : name ∉ chain)
    (hlookup : t.partials.lookup name = some elements)
    (h : Searched t depth (chain ++ [name]) finished (references elements) (.clear below))
    (hrest : Searched t (depth + 1) chain (name :: below) rest found) :
    Searched t (depth + 1) chain finished (.text name :: rest) found

variable {depth : ℕ} {chain finished cleared : List String} {refs : List Value} {found : Search}

/-- A step of the search, when what lies below is known to be read as a derivation. -/
theorem searched_of_visit
    (hbelow : ∀ d, depth = d + 1 → ∀ chain finished refs found, t.visitAll d chain finished refs = .ok found →
      Searched t d chain finished refs found)
    {ref : Value} {rest : List Value} {first : Search} (h : t.visit depth chain finished ref = .ok first)
    (hrest : ∀ cleared, first = .clear cleared → Searched t depth chain cleared rest found)
    (hcircle : ∀ names, first = .circle names → found = .circle names) :
    Searched t depth chain finished (ref :: rest) found := by
  unfold visit at h
  split at h
  · rename_i name
    split at h
    · rename_i hmet
      obtain rfl := Except.ok.inj h
      rw [hcircle _ rfl]
      exact .closed depth finished rest (List.contains_iff_mem.mp hmet)
    rename_i hnew
    rw [List.contains_iff_mem] at hnew
    split at h
    · rename_i hfinished
      obtain rfl := Except.ok.inj h
      refine .passed (fun other hother => .inl ?_) (hrest _ rfl)
      obtain rfl := Value.text.inj hother
      exact List.contains_iff_mem.mp hfinished
    split at h
    · rename_i elements d hlookup
      obtain ⟨inside, hinside, h⟩ := bind_eq_ok.mp h
      have hinside := hbelow d rfl _ _ _ _ hinside
      cases inside with
      | circle names =>
        obtain rfl := Except.ok.inj h
        rw [hcircle _ rfl]
        exact .found rest hnew hlookup hinside
      | clear cleared =>
        obtain rfl := Except.ok.inj h
        exact .left hnew hlookup hinside (hrest _ rfl)
    · rename_i depth _ _ hnone
      obtain rfl := Except.ok.inj h
      refine .passed (fun other hother => .inr ?_) (hrest _ rfl)
      obtain rfl := Value.text.inj hother
      by_cases hdepth : depth = 0
      · exact .inr ⟨hdepth, hnew⟩
      · refine .inl fun hknown => ?_
        obtain ⟨elements, hlookup⟩ := mem_partialNames_iff.mp hknown
        exact hnone elements (depth - 1) hlookup (Nat.succ_pred_eq_of_ne_zero hdepth).symm
  · rename_i htext
    split at h
    · cases h
    · obtain rfl := Except.ok.inj h
      exact .passed (fun name hname => absurd hname (htext name)) (hrest _ rfl)

theorem searched_of_visitAll (h : t.visitAll depth chain finished refs = .ok found) :
    Searched t depth chain finished refs found := by
  induction depth using Nat.strongRecOn generalizing chain finished refs found with
  | ind depth ih =>
    have hbelow : ∀ d, depth = d + 1 → ∀ chain finished refs found,
        t.visitAll d chain finished refs = .ok found → Searched t d chain finished refs found :=
      fun d hd _ _ _ _ h => ih d (by omega) h
    induction refs generalizing finished with
    | nil =>
      rw [visitAll] at h
      obtain rfl := Except.ok.inj h
      exact .nil depth chain finished
    | cons ref rest ihrest =>
      rw [visitAll] at h
      obtain ⟨first, hfirst, h⟩ := bind_eq_ok.mp h
      cases first with
      | circle names =>
        obtain rfl := Except.ok.inj h
        exact searched_of_visit hbelow hfirst (fun _ hclear => by cases hclear) fun _ hcircle => hcircle
      | clear cleared =>
        refine searched_of_visit hbelow hfirst (fun _ hclear => ?_) fun _ hcircle => by cases hcircle
        obtain rfl := Search.clear.inj hclear
        exact ihrest h

/-! ## What is found is a circle -/

/-- A chain is a path without repetition that goes on with a reference. -/
structure IsPathTo (t : Template) (chain : List String) (ref : Value) : Prop where
  isChain : chain.IsChain t.LeadsTo
  nodup : chain.Nodup
  leadsTo : ∀ a ∈ chain.getLast?, ∀ b, ref = .text b → t.LeadsTo a b

theorem IsPathTo.snoc (h : IsPathTo t chain (.text name)) (hnew : name ∉ chain)
    (hlookup : t.partials.lookup name = some elements) {ref : Value} (href : ref ∈ references elements) :
    IsPathTo t (chain ++ [name]) ref where
  isChain := List.isChain_append.mpr ⟨h.isChain, .singleton name, fun a ha b hb => by
    obtain rfl := Option.some.inj hb
    exact h.leadsTo a ha name rfl⟩
  nodup := List.nodup_append.mpr ⟨h.nodup, List.pairwise_singleton _ name, by
    rintro a ha b hb rfl
    exact hnew (List.mem_singleton.mp hb ▸ ha)⟩
  leadsTo := fun a ha b hb => by
    rw [List.getLast?_concat] at ha
    obtain rfl := Option.some.inj ha
    exact (leadsTo_iff hlookup).mpr (hb ▸ href)

theorem exists_chainFrom (h : name ∈ chain) : ∃ rest, chainFrom chain name = name :: rest := by
  induction chain with
  | nil => cases h
  | cons a chain ih =>
    rw [chainFrom, List.dropWhile_cons]
    by_cases ha : a = name
    · exact ⟨chain, by simp [ha]⟩
    · rw [if_pos (by simpa using ha)]
      exact ih ((List.mem_cons.mp h).resolve_left (Ne.symm ha))

/-- A path that comes back to one of its names closes a circle. -/
theorem IsPathTo.isCircle (h : IsPathTo t chain (.text name)) (hmet : name ∈ chain) :
    IsCircle t (chainFrom chain name ++ [name]) := by
  obtain ⟨rest, hrest⟩ := exists_chainFrom hmet
  obtain ⟨before, hbefore⟩ : chainFrom chain name <:+ chain := List.dropWhile_suffix _
  have hchain : (chainFrom chain name).IsChain t.LeadsTo := h.isChain.suffix ⟨before, hbefore⟩
  have hlast : chain.getLast? = (chainFrom chain name).getLast? := by
    conv_lhs => rw [← hbefore, List.getLast?_append, hrest]
    rw [hrest, List.getLast?_eq_some_getLast (List.cons_ne_nil name rest), Option.some_or]
  refine ⟨by simp [hrest], ?_, ?_, ?_⟩
  · rw [List.getLast?_concat, hrest]
    rfl
  · rw [List.dropLast_concat]
    exact h.nodup.sublist (List.IsSuffix.sublist ⟨before, hbefore⟩)
  · refine List.isChain_append.mpr ⟨hchain, .singleton name, fun a ha b hb => ?_⟩
    obtain rfl := Option.some.inj hb
    exact h.leadsTo a (hlast ▸ ha) name rfl

theorem Searched.isCircle (h : Searched t depth chain finished refs found)
    (hpath : ∀ ref ∈ refs, IsPathTo t chain ref) (hfound : found = .circle names) : IsCircle t names := by
  induction h with
  | nil => cases hfound
  | closed depth finished rest hmet =>
    obtain rfl := Search.circle.inj hfound
    exact (hpath _ List.mem_cons_self).isCircle hmet
  | passed _ _ ih => exact ih (fun ref href => hpath ref (List.mem_cons_of_mem _ href)) hfound
  | found rest hnew hlookup _ ih =>
    exact ih (fun ref href => (hpath _ List.mem_cons_self).snoc hnew hlookup href) hfound
  | left _ _ _ _ _ ih => exact ih (fun ref href => hpath ref (List.mem_cons_of_mem _ href)) hfound

/-! ## A clear search has met every circle -/

/-- The names of a chain are different partials, and with the depth that is left there are enough steps for
all partials. -/
structure Room (t : Template) (depth : ℕ) (chain : List String) : Prop where
  nodup : chain.Nodup
  subset : chain ⊆ t.partialNames
  length_le : t.partialNames.length ≤ depth + chain.length

/-- A chain that is not of all partials can be made longer by another one. -/
theorem Room.exists_depth (h : Room t depth chain) (hname : name ∈ t.partialNames) (hnew : name ∉ chain) :
    ∃ d, depth = d + 1 ∧ Room t d (name :: chain) := by
  have hnodup : (name :: chain).Nodup := List.nodup_cons.mpr ⟨hnew, h.nodup⟩
  have hsubset : name :: chain ⊆ t.partialNames := List.cons_subset.mpr ⟨hname, h.subset⟩
  have hlength : chain.length + 1 ≤ t.partialNames.length := (hnodup.subperm hsubset).length_le
  have hbound := h.length_le
  refine ⟨depth - 1, by omega, hnodup, hsubset, ?_⟩
  rw [List.length_cons]
  omega

theorem Room.perm {chain' : List String} (h : Room t depth chain) (hperm : chain.Perm chain') :
    Room t depth chain' where
  nodup := hperm.nodup_iff.mp h.nodup
  subset := fun _ ha => h.subset (hperm.mem_iff.mpr ha)
  length_le := hperm.length_eq ▸ h.length_le

/-- No path of partials from a name goes on forever. -/
def Ends (t : Template) (a : String) : Prop := Acc (Function.swap t.LeadsToPartial) a

theorem Ends.not_transGen (h : Ends t a) : ¬Relation.TransGen t.LeadsToPartial a a := by
  have hacc : Acc (Relation.TransGen (Function.swap t.LeadsToPartial)) a := Acc.transGen h
  intro hcycle
  rw [← Relation.transGen_swap] at hcycle
  clear h
  induction hacc with
  | intro a _ ih => exact ih a hcycle hcycle

/-- If all that was finished before ends, so does all that is finished by a clear search, and that are all
partials that were looked at. -/
theorem Searched.ends_of_clear (h : Searched t depth chain finished refs found) (hroom : Room t depth chain)
    (hends : ∀ a ∈ finished, Ends t a) (hfound : found = .clear cleared) :
    (∀ a ∈ cleared, Ends t a) ∧ finished ⊆ cleared ∧
      ∀ name, Value.text name ∈ refs → name ∈ t.partialNames → name ∈ cleared := by
  induction h generalizing cleared with
  | nil depth chain finished =>
    obtain rfl := Search.clear.inj hfound
    exact ⟨hends, List.Subset.refl finished, by simp⟩
  | closed => cases hfound
  | found => cases hfound
  | @passed depth chain finished ref rest found hpassed _ ih =>
    obtain ⟨hall, hsubset, hrest⟩ := ih hroom hends hfound
    refine ⟨hall, hsubset, fun name hname hknown => ?_⟩
    rcases List.mem_cons.mp hname with href | hname
    · rcases hpassed name href.symm with hfinished | hunknown | ⟨hdepth, hnew⟩
      · exact hsubset hfinished
      · exact absurd hknown hunknown
      · obtain ⟨d, hd, -⟩ := hroom.exists_depth hknown hnew
        omega
    · exact hrest name hname hknown
  | @left depth chain finished below name elements rest found hnew hlookup _ _ ihbelow ihrest =>
    have hknown : name ∈ t.partialNames := mem_partialNames_iff.mpr ⟨elements, hlookup⟩
    obtain ⟨d, hd, hroom'⟩ := hroom.exists_depth hknown hnew
    obtain rfl := Nat.succ.inj hd
    obtain ⟨hall, hsubset, hinside⟩ := ihbelow (hroom'.perm (List.perm_append_singleton name chain).symm) hends rfl
    have hname : Ends t name := by
      refine ⟨_, fun b hb => hall b ?_⟩
      exact hinside b ((leadsTo_iff hlookup).mp hb.1) hb.2
    obtain ⟨hall', hsubset', hrest⟩ := ihrest hroom (List.forall_mem_cons.mpr ⟨hname, hall⟩) hfound
    obtain ⟨hin, hsubset'⟩ := List.cons_subset.mp hsubset'
    refine ⟨hall', List.Subset.trans hsubset hsubset', fun other hother hknown => ?_⟩
    rcases List.mem_cons.mp hother with heq | hother
    · obtain rfl := Value.text.inj heq
      exact hin
    · exact hrest other hother hknown

/-! ## The search decides -/

/-- Where references can be looked up, the search for a circle of partials comes to an end. It finds none just
when no partial leads back to itself by way of partials, and what it finds is a circle. -/
theorem findCycle_decides (t : Template)
    (h : ∀ p ∈ t.partials, ∀ e ∈ p.2, ∀ ref ∈ e.content.inclusion?, ref.isContainer = false) :
    ∃ circle?, t.findCycle = .ok circle? ∧
      (circle? = none ↔ ∀ a, ¬Relation.TransGen t.LeadsToPartial a a) ∧
      ∀ names, circle? = some names → IsCircle t names := by
  have hrefs : ∀ p ∈ t.partials, ∀ ref ∈ references p.2, ref.isContainer = false := by
    intro p hp ref href
    obtain ⟨e, he, hinclusion⟩ := List.mem_filterMap.mp (List.mem_filter.mp href).1
    exact h p hp e he ref hinclusion
  have hstart : ∀ ref ∈ t.partials.map fun p => Value.text p.1, IsPathTo t [] ref :=
    fun _ _ => ⟨.nil, List.nodup_nil, fun _ ha => by cases ha⟩
  obtain ⟨found, hfound⟩ := returns_visitAll hrefs t.partials.length [] [] (t.partials.map fun p => .text p.1)
    fun ref href => by
      obtain ⟨p, -, rfl⟩ := List.mem_map.mp href
      rfl
  have hsearched := searched_of_visitAll hfound
  unfold findCycle
  rw [hfound, ok_bind]
  cases found with
  | circle names =>
    have hcircle := hsearched.isCircle hstart rfl
    refine ⟨some names, rfl, ?_, fun _ h => Option.some.inj h ▸ hcircle⟩
    obtain ⟨a, ha⟩ := hcircle.exists_transGen
    exact ⟨nofun, fun h => absurd ha (h a)⟩
  | clear cleared =>
    refine ⟨none, rfl, ⟨fun _ a hcycle => ?_, fun _ => rfl⟩, nofun⟩
    have hroom : Room t t.partials.length [] := ⟨List.nodup_nil, List.nil_subset _, by simp [partialNames]⟩
    obtain ⟨hends, -, hall⟩ := hsearched.ends_of_clear hroom (by simp) rfl
    obtain ⟨b, -, hb⟩ := Relation.TransGen.tail'_iff.mp hcycle
    obtain ⟨p, hp, rfl⟩ := List.mem_map.mp hb.2
    exact (hends p.1 (hall p.1 (List.mem_map_of_mem hp) hb.2)).not_transGen hcycle

/-- An element that includes a partial. -/
def inclusionOf (name : String) : Element :=
  { (default : Element) with id := name, content := .inclusion (.text name) }

/-- A letter with a seal and a stamp that is nowhere. The seal and its crest include each other. -/
def sealedLetter : Template :=
  { (default : Template) with
    partials := [("letter", [inclusionOf "seal", inclusionOf "stamp"]),
      ("seal", [inclusionOf "", inclusionOf "crest"]), ("crest", [inclusionOf "seal"])] }

theorem leadsToPartial_sealedLetter :
    sealedLetter.LeadsToPartial "seal" "crest" ∧ sealedLetter.LeadsToPartial "crest" "seal" :=
  ⟨⟨⟨_, rfl, inclusionOf "crest", by simp, rfl, by decide⟩, by decide⟩,
    ⟨_, rfl, inclusionOf "seal", by simp, rfl, by decide⟩, by decide⟩

/-- The search finds a circle in the letter. -/
theorem findCycle_decides_sealedLetter :
    (∀ p ∈ sealedLetter.partials, ∀ e ∈ p.2, ∀ ref ∈ e.content.inclusion?, ref.isContainer = false) ∧
    ∃ names, sealedLetter.findCycle = .ok (some names) ∧ IsCircle sealedLetter names := by
  have hrefs : ∀ p ∈ sealedLetter.partials, ∀ e ∈ p.2, ∀ ref ∈ e.content.inclusion?,
      ref.isContainer = false := by decide
  obtain ⟨circle?, hfound, hnone, hcircle⟩ := findCycle_decides sealedLetter hrefs
  cases circle? with
  | some names => exact ⟨hrefs, names, hfound, hcircle names rfl⟩
  | none =>
    obtain ⟨hout, hback⟩ := leadsToPartial_sealedLetter
    exact absurd (.tail (.single hout) hback) (hnone.mp rfl "seal")

end Pagewright.Template
