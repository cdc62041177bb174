import Mathlib.Data.List.Dedup
import Pagewright.Proofs.Store.Integrity
import Pagewright.Proofs.Store.Listing

/-!
# The order of the list

When the clock gives ever greater texts, the list of templates has every template that was created once, the
one that was changed last at the top (`list_by_last_change`).

A call that succeeds takes its template to the end of those that were changed before (`ByLastChange.append`), and a
rejected one moves none (`ByLastChange.rejected`), so by induction the templates are kept in the order of their last
change, which is that of their times.
-/

namespace Pagewright.Store

open Procedure Disk

variable {supply : Supply} {w w' : World} {replies : List Reply} {reply : Reply} {c : Call}
  {o : Outcome StoredTemplate} {id : String} {t : StoredTemplate} {ts : List StoredTemplate} {n : ℕ}

/-! ## Changes -/

/-- The id of the template that a successful call changed. -/
def Reply.changed (reply : Reply) : Option String :=
  match reply.call, reply.outcome with
  | .create .., .ok t => some t.record.id.display
  | .version id .., .ok _ => some id
  | .update id .., .ok _ => some id
  | _, .error _ => none

theorem Reply.changed_error (c : Call) (e : Failure) : Reply.changed ⟨c, .error e⟩ = none := by
  cases c <;> rfl

/-- A result for an id is that of a call that changed its template. -/
theorem Reply.resultFor_eq (id : String) (reply : Reply) :
    reply.resultFor id = if reply.changed = some id then reply.outcome.toOption else none := by
  obtain ⟨c, o⟩ := reply
  cases o with
  | error e => simp [resultFor_error, changed_error]
  | ok t => cases c <;> simp [resultFor, changed, Except.toOption]

theorem dedup_concat {α : Type} [DecidableEq α] (l : List α) (a : α) :
    (l ++ [a]).dedup = l.dedup.filter (· ≠ a) ++ [a] := by
  induction l with
  | nil => simp
  | cons b l ih =>
    by_cases hmem : b ∈ l
    · rw [List.cons_append, List.dedup_cons_of_mem (List.mem_append_left _ hmem), ih,
        List.dedup_cons_of_mem hmem]
    · rw [List.dedup_cons_of_notMem hmem]
      by_cases hba : b = a
      · rw [List.cons_append, List.dedup_cons_of_mem (by simp [hba]), ih, List.filter_cons_of_neg (by simp [hba])]
      · rw [List.cons_append, List.dedup_cons_of_notMem (by simp [hmem, hba]), ih,
          List.filter_cons_of_pos (by simp [hba]), List.cons_append]

/-! ## Templates in the order of their last change -/

/-- Templates as the last successful calls about them returned them, the one changed last at the end. -/
structure ByLastChange (supply : Supply) (w : World) (replies : List Reply) (ts : List StoredTemplate) : Prop where
  ids_eq : ts.map (·.record.id) = (replies.filterMap Reply.changed).dedup.map Value.text
  rising : ts.Pairwise fun a b => a.record.stamp < b.record.stamp
  read : ∀ t ∈ ts, ∃ k < w.readings, t.record.updatedAt = .text (supply.time k)
  last : ∀ id t, (replies.filterMap (Reply.resultFor id)).getLast? = some t ↔ t ∈ ts ∧ t.record.id = .text id

theorem byLastChange_empty : ByLastChange supply {} [] [] := ⟨rfl, .nil, by simp, by simp⟩

/-- A rejected call moves no template. -/
theorem ByLastChange.rejected (h : ByLastChange supply w replies ts) (c : Call) (e : Failure) :
    ByLastChange supply w (replies ++ [⟨c, .error e⟩]) ts where
  ids_eq := by
    rw [List.filterMap_append, List.filterMap_cons_none (Reply.changed_error c e), List.filterMap_nil,
      List.append_nil]
    exact h.ids_eq
  rising := h.rising
  read := h.read
  last id t := by
    rw [List.filterMap_append, List.filterMap_cons_none (Reply.resultFor_error id c e), List.filterMap_nil,
      List.append_nil]
    exact h.last id t

/-- The readings of a clock give ever greater texts, up to a number. -/
def Rising (supply : Supply) (n : ℕ) : Prop := ∀ k < n, ∀ j < k, supply.time j < supply.time k

instance (supply : Supply) (n : ℕ) : Decidable (Rising supply n) :=
  inferInstanceAs (Decidable (∀ k < n, ∀ j < k, supply.time j < supply.time k))

/-- A call that succeeds takes its template to the end. -/
theorem ByLastChange.append (h : ByLastChange supply w replies ts) (hclock : Rising supply n) (hn : w'.readings ≤ n)
    (hchanged : reply.changed = some id) (hok : reply.outcome = .ok t) (hid : t.record.id = .text id)
    (hstamped : ∃ k, w.readings ≤ k ∧ k < w'.readings ∧ t.record.updatedAt = .text (supply.time k)) :
    ByLastChange supply w' (replies ++ [reply]) (ts.filter (fun t => t.record.id.display ≠ id) ++ [t]) := by
  obtain ⟨k, hle, hlt, htime⟩ := hstamped
  refine ⟨?_, List.pairwise_append.mpr ⟨h.rising.filter _, List.pairwise_singleton _ _, ?_⟩, ?_, ?_⟩
  · have hfilter : (ts.filter fun t => t.record.id.display ≠ id).map (·.record.id) =
        ((replies.filterMap Reply.changed).dedup.filter (· ≠ id)).map Value.text := by
      have hvalues := congrArg (List.filter fun v : Value => v.display ≠ id) h.ids_eq
      rwa [List.filter_map, List.filter_map] at hvalues
    rw [List.filterMap_append, List.filterMap_cons_some hchanged, List.filterMap_nil, dedup_concat,
      List.map_append, List.map_append, hfilter, List.map_singleton, List.map_singleton, hid]
  · intro a ha b hb
    obtain rfl := List.mem_singleton.mp hb
    obtain ⟨j, hj, ha⟩ := h.read a (List.mem_filter.mp ha).1
    exact TemplateRecord.stamp_lt_of_lt ha htime (hclock k (hlt.trans_le hn) j (hj.trans_le hle))
  · intro a ha
    rcases List.mem_append.mp ha with ha | ha
    · obtain ⟨j, hj, ha⟩ := h.read a (List.mem_filter.mp ha).1
      exact ⟨j, hj.trans_le (hle.trans hlt.le), ha⟩
    · obtain rfl := List.mem_singleton.mp ha
      exact ⟨k, hlt, htime⟩
  · intro other a
    rw [List.filterMap_append, List.mem_append, List.mem_filter, List.mem_singleton]
    by_cases hother : other = id
    · subst hother
      have hresult : reply.resultFor other = some t := by
        rw [Reply.resultFor_eq, if_pos hchanged, hok]
        rfl
      rw [List.filterMap_cons_some hresult, List.filterMap_nil, List.getLast?_concat, Option.some.injEq]
      constructor
      · rintro rfl
        exact ⟨.inr rfl, hid⟩
      · rintro ⟨⟨-, hkept⟩ | rfl, ha⟩
        · simp [ha, Value.display] at hkept
        · rfl
    · have hresult : reply.resultFor other = none := by
        rw [Reply.resultFor_eq, hchanged, if_neg fun heq => hother (Option.some.inj heq).symm]
      rw [List.filterMap_cons_none hresult, List.filterMap_nil, List.append_nil, h.last other a]
      constructor
      · rintro ⟨hmem, ha⟩
        exact ⟨.inl ⟨hmem, by simp [ha, Value.display, hother]⟩, ha⟩
      · rintro ⟨⟨hmem, -⟩ | rfl, ha⟩
        · exact ⟨hmem, ha⟩
        · exact absurd (Value.text.inj (ha.symm.trans hid)) hother

theorem ByLastChange.step (h : ByLastChange supply w replies ts) (hclock : Rising supply n) (hn : w'.readings ≤ n)
    (he : Effect supply w c w' o) (hends : Ends supply w o w') :
    ∃ ts', ByLastChange supply w' (replies ++ [⟨c, o⟩]) ts' := by
  cases he with
  | rejected c e => exact ⟨ts, h.rejected c e⟩
  | @created name description content actor w' t v hids habsent hcontent hchanged hevent =>
    have hid := hchanged.stored.id_eq
    have hdisplay : some t.record.id.display = some (supply.id w.ids) := by
      rw [hid]
      rfl
    exact ⟨_, h.append hclock hn hdisplay rfl hid (hends.stamped t rfl)⟩
  | @versioned id content actor w' t t' vs v old hids hstored hcontent hchanged hmetadata hold hevent =>
    exact ⟨_, h.append hclock hn rfl rfl hchanged.stored.id_eq (hends.stamped t' rfl)⟩
  | @updated id name description status actor w' t t' vs hids hstored hchanged hevent =>
    exact ⟨_, h.append hclock hn rfl rfl hchanged.stored.id_eq (hends.stamped t' rfl)⟩

theorem readings_le_runCalls (supply : Supply) (w : World) (calls : List Call) :
    w.readings ≤ (runCalls supply w calls).1.readings := by
  induction calls generalizing w with
  | nil => exact Nat.le_refl _
  | cons c calls ih => exact (readings_le_run supply w c.procedure).trans (ih _)

theorem ByLastChange.runCalls {m : ℕ} (hids : ∀ k, IsHexId (supply.id k)) (hfresh : Fresh supply n)
    (hclock : Rising supply m) (calls : List Call) (hn : (runCalls supply w calls).1.ids ≤ n)
    (hm : (runCalls supply w calls).1.readings ≤ m) (hinv : Invariant supply w replies) (hw : Sound w)
    (h : ByLastChange supply w replies ts) :
    ∃ ts', ByLastChange supply (runCalls supply w calls).1 (replies ++ (runCalls supply w calls).2) ts' := by
  induction calls generalizing w replies ts with
  | nil =>
    refine ⟨ts, ?_⟩
    rw [Store.runCalls, List.append_nil]
    exact h
  | cons c calls ih =>
    have hcall := effect_of_call hfresh hinv c ((ids_le_runCalls supply _ calls).trans hn)
    have hends := hw.run hids c
    obtain ⟨ts', hstep⟩ := h.step hclock ((readings_le_runCalls supply _ calls).trans hm) hcall hends
    obtain ⟨ts'', hrest⟩ := ih hn hm (hinv.step hcall) hends.sound hstep
    refine ⟨ts'', ?_⟩
    rwa [List.append_assoc] at hrest

/-! ## Creation -/

/-- A content is given to a template by creating it or by adding a version to it. -/
theorem Reply.isSome_contentFor (id : String) (reply : Reply) :
    (reply.contentFor id).isSome = (reply.creates id || reply.addsVersion id) := by
  obtain ⟨c, o⟩ := reply
  cases c <;> simp [contentFor, creates, addsVersion]

theorem Tells.any_creates {vs : List TemplateVersion} (h : Tells replies id t vs) :
    replies.any (Reply.creates id) = true := by
  by_contra hnone
  have hadds : replies.countP (fun reply => (reply.contentFor id).isSome) =
      replies.countP (Reply.addsVersion id) := by
    refine List.countP_congr fun reply hreply => ?_
    have hcreates : reply.creates id = false := by
      rw [Bool.eq_false_iff]
      exact fun hcreates => hnone (List.any_eq_true.mpr ⟨reply, hreply, hcreates⟩)
    rw [Reply.isSome_contentFor, hcreates, Bool.false_or]
  have hlength := congrArg List.length h.contents_eq
  rw [List.length_map, List.length_filterMap_eq_countP, hadds, h.length_eq] at hlength
  omega

theorem creates_iff_changed (hinv : Invariant supply w replies) (id : String) :
    replies.any (Reply.creates id) = true ↔ id ∈ replies.filterMap Reply.changed := by
  constructor
  · intro hcreates
    obtain ⟨reply, hreply, hcreates⟩ := List.any_eq_true.mp hcreates
    refine List.mem_filterMap.mpr ⟨reply, hreply, ?_⟩
    have hresult := Reply.resultFor_of_creates hcreates
    rw [Reply.resultFor_eq] at hresult
    by_contra hchanged
    exact hresult (if_neg hchanged)
  · intro hid
    obtain ⟨reply, hreply, hchanged⟩ := List.mem_filterMap.mp hid
    cases hinv id with
    | stored _ htells _ => exact htells.any_creates
    | absent _ hsilent =>
      have hnone := hsilent reply hreply
      obtain ⟨c, o⟩ := reply
      cases o with
      | error e => simp [Reply.changed_error] at hchanged
      | ok t =>
        rw [Reply.resultFor_eq, if_pos hchanged] at hnone
        cases hnone

/-! ## The list -/

/-- The records that are in their place are those of the templates that were changed. -/
theorem ByLastChange.inPlace_iff (h : ByLastChange supply w replies ts) (hinv : Invariant supply w replies)
    (r : TemplateRecord) : InPlace w.disk r ↔ r ∈ ts.map (·.record) := by
  rw [List.mem_map]
  constructor
  · rintro ⟨id, hr, hfind⟩
    cases hinv id with
    | absent habsent _ =>
      rw [habsent.record_eq] at hfind
      cases hfind
    | @stored t vs hstored htells _ =>
      rw [hstored.record_eq, Option.some.injEq, Contents.document.injEq] at hfind
      exact ⟨t, ((h.last id t).mp htells.last_eq).1, toValue_injective hfind⟩
  · rintro ⟨t, ht, rfl⟩
    obtain ⟨k, -, htime⟩ := h.read t ht
    obtain ⟨id, hid⟩ : ∃ id, t.record.id = .text id := by
      have hmem := List.mem_map_of_mem (f := fun t : StoredTemplate => t.record.id) ht
      rw [h.ids_eq] at hmem
      obtain ⟨id, -, hid⟩ := List.mem_map.mp hmem
      exact ⟨id, hid.symm⟩
    have hlast := (h.last id t).mpr ⟨ht, hid⟩
    cases hinv id with
    | absent _ hsilent =>
      rw [List.filterMap_eq_nil_iff.mpr hsilent] at hlast
      cases hlast
    | stored hstored htells _ =>
      obtain rfl := Option.some.inj (hlast.symm.trans htells.last_eq)
      exact ⟨id, ⟨hstored.isHexId, hid, _, htime⟩, hstored.record_eq⟩

/-- Records that are sorted from the newest are in the order of their last change. -/
theorem ByLastChange.eq_reverse (h : ByLastChange supply w replies ts) {rs : List TemplateRecord} (hnodup : rs.Nodup)
    (hmem : ∀ r, r ∈ rs ↔ r ∈ ts.map (·.record)) (hfrom : TemplateRecord.FromNewest rs) :
    rs = (ts.map (·.record)).reverse := by
  have hrising : (ts.map (·.record)).Pairwise fun a b => a.stamp < b.stamp := List.pairwise_map.mpr h.rising
  have hstamps : ((ts.map (·.record)).map TemplateRecord.stamp).Nodup :=
    List.pairwise_map.mpr (hrising.imp fun hlt => hlt.ne)
  have hinj : ∀ a ∈ ts.map (·.record), ∀ b ∈ ts.map (·.record), a.stamp = b.stamp → a = b :=
    fun a ha b hb => List.inj_on_of_nodup_map hstamps ha hb
  have hperm : rs.Perm (ts.map (·.record)) := (List.perm_ext_iff_of_nodup hnodup hstamps.of_map).mpr hmem
  refine List.Perm.eq_of_pairwise (fun a b ha hb hba hab => ?_) hfrom ?_ (hperm.trans (List.reverse_perm _).symm)
  · exact hinj a (hperm.mem_iff.mp ha) b (List.mem_reverse.mp hb) (le_antisymm hab hba)
  · exact List.pairwise_reverse.mpr (hrising.imp fun hlt => hlt.le)

/-- After any operations on an empty store with a clock whose readings rise, the list of templates is returned.
It has every template that was created once, with the record that the last successful call about it returned,
in the order of the last successful calls that changed them, the latest first. -/
theorem list_by_last_change {operations : List Operation}
    (hrun : runOperations supply {} operations = (w, replies)) (hids : ∀ k, IsHexId (supply.id k))
    (hinj : ∀ i < w.ids, ∀ j < w.ids, supply.id i = supply.id j → i = j) (hclock : Rising supply w.readings) :
    ∃ records, Goes supply w list w (.ok records) ∧
      records.map (·.id) = ((replies.filterMap Reply.changed).dedup.map Value.text).reverse ∧
      (∀ id, replies.any (Reply.creates id) = true ↔ id ∈ replies.filterMap Reply.changed) ∧
      ∀ id t, (replies.filterMap (Reply.resultFor id)).getLast? = some t → t.record ∈ records := by
  have hfresh : Fresh supply w.ids := ⟨fun k _ => hids k, hinj⟩
  rw [runOperations_eq] at hrun
  have hworld : (runCalls supply {} (operations.filterMap Operation.call?)).1 = w := congrArg Prod.fst hrun
  have hreplies : (runCalls supply {} (operations.filterMap Operation.call?)).2 = replies :=
    congrArg Prod.snd hrun
  have hn := (congrArg World.ids hworld).le
  have hinv := Invariant.runCalls hfresh _ hn (invariant_empty supply)
  have hkeeps := sound_empty.runCalls hids (operations.filterMap Operation.call?)
  obtain ⟨ts, hts⟩ := byLastChange_empty.runCalls hids hfresh hclock _ hn (congrArg World.readings hworld).le
    (invariant_empty supply) sound_empty
  rw [List.nil_append, hworld, hreplies] at hinv hts
  rw [hworld] at hkeeps
  obtain ⟨rs, hgoes, hshows⟩ :=
    (hkeeps.sound.wellFiled.exists_showsInPlace_iff supply).mpr fun n => hkeeps.drafts_eq n
  obtain ⟨-, -, -, hfrom⟩ := hkeeps.sound.wellFiled.of_goes_list hgoes
  obtain rfl := hts.eq_reverse hshows.nodup.of_map (fun r => (hshows.mem_iff r).trans (hts.inPlace_iff hinv r))
    hfrom
  refine ⟨_, hgoes, ?_, creates_iff_changed hinv, fun id t hlast => ?_⟩
  · rw [List.map_reverse, List.map_map, ← hts.ids_eq]
    rfl
  · exact List.mem_reverse.mpr (List.mem_map_of_mem ((hts.last id t).mp hlast).1)

/-- A clock that shows the seconds. -/
def ticking : Supply where
  id := counted.id
  time k := "2026-01-01T00:00:" ++ toString (10 + k) ++ "Z"

/-- Of two templates the first is changed again; a change of the second is refused. -/
def inTurns : List Operation :=
  [.call (.create (.text "Invoice") .null .null .null), .call (.create (.text "Letter") .null .null .null),
    .call (.update (counted.id 0) .null .null (.text "published") .null),
    .call (.update (counted.id 3) (.text " ") .null .null .null), .get (counted.id 3), .list]

/-- The first template comes first. -/
theorem list_by_last_change_inTurns :
    ∃ w records, w = (runOperations ticking {} inTurns).1 ∧ Goes ticking w list w (.ok records) ∧
      records.map (·.id) = [.text (counted.id 0), .text (counted.id 3)] := by
  obtain ⟨hids, hclock, hchanged⟩ : (runOperations ticking {} inTurns).1.ids ≤ 16 ∧
      Rising ticking (runOperations ticking {} inTurns).1.readings ∧
      ((runOperations ticking {} inTurns).2.filterMap Reply.changed).dedup = [counted.id 3, counted.id 0] := by
    decide +kernel
  have hrun : runOperations ticking {} inTurns = (_, _) := Prod.mk.eta.symm
  obtain ⟨records, hgoes, hrecords, -⟩ := list_by_last_change hrun isHexId_counted
    (fresh_counted_of_le hids).inj hclock
  rw [hchanged] at hrecords
  exact ⟨_, records, rfl, hgoes, hrecords⟩

end Pagewright.Store
