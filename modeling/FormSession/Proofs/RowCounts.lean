import FormSession.Proofs.History
import FormSession.Proofs.TrackerStep
import FormSession.Proofs.WellFormed

/-! # The rows follow the values

From its start on, a session shows for every displayed group as many rows as the length field of the group
holds values, within the bounds of the group, and keeps for every other group a target that asks for as many
(`rows_follow_values`). Each turn moves each tracker by one step (`Turn.trackers`), and a start lets every
tracker take a target. -/

namespace FormSession
open FormSession.Action (followEdit seed)

/-! ### The trackers of a schema -/

namespace Session

/-- The trackers that the first groups of a schema leave for the rest. -/
theorem getElem?_newTrackers_own {groups : List RowGroup} {m : NameMap RowTracker} {id : String} {k : RowTracker}
    (h : (groups.foldl (fun m g =>
      match g.lengthField? with
      | some field => m.insert g.id (.new field ⟨g.minRows, g.maxRows⟩)
      | none => m) m)[id]? = some k) :
    m[id]? = some k ∨ ∃ g ∈ groups, g.id = id ∧ g.lengthField? = some k.lengthField ∧
      k = .new k.lengthField ⟨g.minRows, g.maxRows⟩ := by
  induction groups generalizing m with
  | nil => exact Or.inl h
  | cons g rest ih =>
    rw [List.foldl_cons] at h
    rcases ih h with hm | ⟨g', hg', hid, hfield, hk⟩
    · cases hl : g.lengthField? with
      | none =>
        rw [hl] at hm
        exact Or.inl hm
      | some field =>
        simp only [hl, Std.ExtTreeMap.getElem?_insert, Std.LawfulEqCmp.compare_eq_iff_eq] at hm
        split at hm
        · rename_i hid
          cases hm
          exact Or.inr ⟨g, List.mem_cons_self, hid, hl, rfl⟩
        · exact Or.inl hm
    · exact Or.inr ⟨g', List.mem_cons_of_mem _ hg', hid, hfield, hk⟩

theorem getElem?_newTrackers_present {groups : List RowGroup} {m : NameMap RowTracker} {id : String}
    (h : (∃ k, m[id]? = some k) ∨ ∃ g ∈ groups, g.id = id ∧ g.lengthField? ≠ none) :
    ∃ k, (groups.foldl (fun m g =>
      match g.lengthField? with
      | some field => m.insert g.id (.new field ⟨g.minRows, g.maxRows⟩)
      | none => m) m)[id]? = some k := by
  -- A tracker that is there stays, perhaps replaced, and each group with a field puts one in.
  induction groups generalizing m with
  | nil =>
    rcases h with h | ⟨g, hg, -⟩
    · exact h
    · cases hg
  | cons g rest ih =>
    rw [List.foldl_cons]
    refine ih ?_
    cases hl : g.lengthField? with
    | none =>
      rcases h with h | ⟨g', hg', hid, hne⟩
      · exact Or.inl h
      · rcases List.mem_cons.mp hg' with rfl | hg'
        · exact absurd hl hne
        · exact Or.inr ⟨g', hg', hid, hne⟩
    | some field =>
      simp only [Std.ExtTreeMap.getElem?_insert, Std.LawfulEqCmp.compare_eq_iff_eq]
      by_cases hgid : g.id = id
      · exact Or.inl ⟨.new field ⟨g.minRows, g.maxRows⟩, if_pos hgid⟩
      · rcases h with ⟨k, hk⟩ | ⟨g', hg', hid, hne⟩
        · exact Or.inl ⟨k, by rw [if_neg hgid, hk]⟩
        · rcases List.mem_cons.mp hg' with rfl | hg'
          · exact absurd hid hgid
          · exact Or.inr ⟨g', hg', hid, hne⟩

variable {η : Type} {form : Form} {s : Session η}

/-- Each group has a tracker that follows its length field within its bounds. -/
structure HasRows (form : Form) (s : Session η) : Prop where
  present : ∀ g ∈ form.schema.groups, ∃ k, s.trackers[g.id]? = some k
  own : ∀ {id : String} {k : RowTracker}, s.trackers[id]? = some k → ∃ g, form.schema.group? id = some g ∧
    g.lengthField? = some k.lengthField ∧ k.bounds = ⟨g.minRows, g.maxRows⟩
  settled : ∀ {id : String} {k : RowTracker}, s.trackers[id]? = some k → k.Settled

/-- The rows of every group follow the values of its length field. -/
def Counted (s : Session η) : Prop :=
  ∀ (id : String) (k : RowTracker), s.trackers[id]? = some k → k.Counts (s.store.length k.lengthField)

theorem hasRows_new (form : Form) (store : Store η) : (new form store).HasRows form := by
  have schema := Schema.problems_eq_nil_iff.mp form.valid
  have own : ∀ {id k}, (newTrackers form.schema)[id]? = some k → ∃ g ∈ form.schema.groups, g.id = id ∧
      g.lengthField? = some k.lengthField ∧ k = .new k.lengthField ⟨g.minRows, g.maxRows⟩ := fun h =>
    (getElem?_newTrackers_own h).resolve_left (by simp)
  refine ⟨fun g hg => ?_, fun h => ?_, fun h => ?_⟩
  · exact getElem?_newTrackers_present (Or.inr ⟨g, hg, rfl, by simp [RowGroup.lengthField?, schema.groupFields g hg]⟩)
  · obtain ⟨g, hg, hid, hfield, hk⟩ := own h
    exact ⟨g, hid ▸ schema.group?_of_mem hg, hfield, by rw [hk]; rfl⟩
  · obtain ⟨g, -, -, -, hk⟩ := own h
    rw [hk]
    exact RowTracker.settled_new _ _

theorem getElem?_trackers_moved (form : Form) (move : Session η → RowTracker → List RowOp × RowTracker) (t : Told)
    (s : Session η) (id : String) : (s.moved form move t).trackers[id]? = s.trackers[id]?.map fun k => (move s k).2 := by
  simp only [moved, moves, Std.ExtTreeMap.getElem?_map, Option.map_map]
  rfl

theorem getElem?_trackers_display (form : Form) (step : String) (s : Session η) (id : String) :
    (display form step s).trackers[id]? = s.trackers[id]?.map fun k =>
      if isOnStep form id s.activeStep then (k.setActive false).2 else k :=
  Std.ExtTreeMap.getElem?_map

/-- The number of values that a group goes by is that of the field its tracker follows. -/
theorem groupLength_eq (rows : s.HasRows form) {id : String} {g : RowGroup} {k : RowTracker}
    (hg : form.schema.group? id = some g) (hk : s.trackers[id]? = some k) :
    Action.groupLength g s = s.store.length k.lengthField := by
  obtain ⟨g', hg', hfield, -⟩ := rows.own hk
  rw [hg] at hg'
  cases hg'
  simp [Action.groupLength, hfield]

end Session

/-! ### Turns -/

namespace Turn
variable {η : Type} [EditHook η] {form : Form} {b b' : List Task} {s s' : Session η} {ms : List Moment}
  {ds : List Deed}

/-- The tracker of a group steps from one session to another. -/
def TrackerSteps (s s' : Session η) (id : String) : Prop :=
  Option.Rel (fun k k' => RowTracker.Step (s.store.length k.lengthField) (s'.store.length k.lengthField) k k')
    s.trackers[id]? s'.trackers[id]?

omit [EditHook η] in
theorem trackerSteps_of_map {id : String} (step : RowTracker → RowTracker)
    (h : s'.trackers[id]? = s.trackers[id]?.map step)
    (hstep : ∀ k, s.trackers[id]? = some k →
      RowTracker.Step (s.store.length k.lengthField) (s'.store.length k.lengthField) k (step k)) :
    TrackerSteps s s' id := by
  rw [TrackerSteps, h]
  cases hk : s.trackers[id]? with
  | none => exact .none
  | some k => exact .some (hstep k hk)

omit [EditHook η] in
theorem trackerSteps_same {id : String} (ht : s'.trackers = s.trackers)
    (hv : ∀ f, s'.store.values f = s.store.values f) : TrackerSteps s s' id := by
  refine trackerSteps_of_map (fun k => k) (by rw [ht, Option.map_id']) fun k _ => ?_
  exact .keeps (congrArg List.length (hv k.lengthField))

omit [EditHook η] in
/-- Every tracker takes a target for as many rows as there are values. -/
theorem trackerSteps_follow {store : Store η} {edit : FormEdit} {t : Told} {id : String}
    (hl : s.store.Leads edit store) : TrackerSteps s (({ s with store } : Session η).moved form (followEdit edit) t) id := by
  refine trackerSteps_of_map _ (Session.getElem?_trackers_moved form _ t _ id) fun k _ => ?_
  rw [followEdit]
  cases he : edit[k.lengthField]? with
  | none => exact .keeps (congrArg List.length (hl.values_of_none he))
  | some e => exact .submits _ (hl.target_leads he).desired

omit [EditHook η] in
theorem trackerSteps_seed (t : Told) (id : String) : TrackerSteps s (s.moved form seed t) id :=
  trackerSteps_of_map _ (Session.getElem?_trackers_moved form _ t s id) fun _ _ => .submits (.ofLength _) rfl

omit [EditHook η] in
theorem trackerSteps_movedOne {group : String} {k k' : RowTracker} {ops : List RowOp} {t : Told}
    (hk : s.trackers[group]? = some k)
    (hstep : RowTracker.Step (s.store.length k.lengthField) (s.store.length k.lengthField) k k') (id : String) :
    TrackerSteps s (s.movedOne form group ops k' t) id := by
  have hmoved : (s.movedOne form group ops k' t).trackers[id]? = if group = id then some k' else s.trackers[id]? := by
    simp [Session.movedOne, Std.ExtTreeMap.getElem?_insert]
  by_cases hid : group = id
  · subst hid
    rw [TrackerSteps, hmoved, if_pos rfl, hk]
    exact .some hstep
  · exact trackerSteps_of_map (fun k => k) (by rw [hmoved, if_neg hid, Option.map_id']) fun _ _ => .keeps rfl

/-- A turn moves each tracker by one step. -/
theorem trackers (h : Turn form b s ms ds b' s') (rows : s.HasRows form) (id : String) : TrackerSteps s s' id := by
  cases h with
  | unchanged c change => exact trackerSteps_same rfl (Store.values_of_change_none change)
  | changed c change => exact trackerSteps_follow (Store.leads_of_change change)
  | seeded => exact trackerSteps_seed _ id
  | entered _ _ tracker => exact trackerSteps_movedOne tracker (.displays true rfl) id
  | rebuilt found tracker =>
    exact trackerSteps_movedOne tracker (.submits _ (Session.groupLength_eq rows found tracker)) id
  | passed => exact trackerSteps_same rfl fun _ => rfl
  | refused => exact trackerSteps_same rfl fun _ => rfl
  | began => exact trackerSteps_same rfl fun _ => rfl
  | cleared => exact trackerSteps_same rfl fun _ => rfl
  | displayed step =>
    refine trackerSteps_of_map _ (Session.getElem?_trackers_display form step s id) fun k _ => ?_
    split
    · exact .displays false rfl
    · exact .keeps rfl
  | took => exact trackerSteps_same rfl fun _ => rfl
  | dropped => exact trackerSteps_same rfl fun _ => rfl
  | committed => exact trackerSteps_same rfl s.store.values_commit

omit [EditHook η] in
theorem TrackerSteps.forth {id : String} {k : RowTracker} (h : TrackerSteps s s' id) (hk : s.trackers[id]? = some k) :
    ∃ k', s'.trackers[id]? = some k' := by
  rw [TrackerSteps, hk] at h
  cases hk' : s'.trackers[id]? with
  | none => rw [hk'] at h; cases h
  | some k' => exact ⟨k', rfl⟩

omit [EditHook η] in
theorem TrackerSteps.back {id : String} {k' : RowTracker} (h : TrackerSteps s s' id) (hk' : s'.trackers[id]? = some k') :
    ∃ k, s.trackers[id]? = some k ∧
      RowTracker.Step (s.store.length k.lengthField) (s'.store.length k.lengthField) k k' := by
  rw [TrackerSteps, hk'] at h
  cases hk : s.trackers[id]? with
  | none => rw [hk] at h; cases h
  | some k => rw [hk] at h; cases h with | some hstep => exact ⟨k, rfl, hstep⟩

theorem hasRows (h : Turn form b s ms ds b' s') (rows : s.HasRows form) : s'.HasRows form where
  present g hg := by
    obtain ⟨k, hk⟩ := rows.present g hg
    exact (h.trackers rows g.id).forth hk
  own hk' := by
    obtain ⟨k, hk, hstep⟩ := (h.trackers rows _).back hk'
    obtain ⟨g, hg, hfield, hbounds⟩ := rows.own hk
    obtain ⟨hfield', hbounds'⟩ := hstep.same_group
    exact ⟨g, hg, by rw [hfield', hfield], by rw [hbounds', hbounds]⟩
  settled hk' := by
    obtain ⟨k, hk, hstep⟩ := (h.trackers rows _).back hk'
    exact hstep.settled (rows.settled hk)

theorem counted (h : Turn form b s ms ds b' s') (rows : s.HasRows form) (counts : s.Counted) : s'.Counted := by
  intro id k' hk'
  obtain ⟨k, hk, hstep⟩ := (h.trackers rows id).back hk'
  rw [hstep.same_group.1]
  exact hstep.counts (rows.settled hk) (counts id k hk)

end Turn

/-! ### Histories -/

namespace Session
variable {η : Type} {form : Form} {s : Session η}

theorem HasRows.attach {store : Store η} (rows : s.HasRows form) : ({ s with store } : Session η).HasRows form :=
  ⟨rows.present, rows.own, rows.settled⟩

theorem Counted.attach {store : Store η} (h : s.store.Attaches store) (counts : s.Counted) :
    ({ s with store } : Session η).Counted := by
  intro id k hk
  have hlength : store.length k.lengthField = s.store.length k.lengthField := congrArg List.length (h.values _)
  exact hlength ▸ counts id k hk

/-- Taking over the values there are makes the rows follow them, whatever was before. -/
theorem counted_seeded (form : Form) (t : Told) (s : Session η) : (s.moved form seed t).Counted := by
  intro id k' hk'
  rw [getElem?_trackers_moved] at hk'
  obtain ⟨k, -, rfl⟩ := Option.map_eq_some_iff.mp hk'
  have hstep : RowTracker.Step 0 (s.store.length k.lengthField) k (seed s k).2 := .submits (.ofLength _) rfl
  rw [hstep.same_group.1]
  exact RowTracker.counts_submit k (.ofLength _)

end Session

section Histories
variable {η : Type} [EditHook η] {form : Form} {s₀ s : Session η} {trace : List Moment}

theorem History.hasRows (h : History form s₀ trace s) (rows : s₀.HasRows form) : s.HasRows form :=
  h.keep (P := fun _ s _ => s.HasRows form) (fun ht _ hrows => ht.hasRows hrows) (fun _ hrows => hrows.attach) rows

theorem History.counted (h : History form s₀ trace s) (rows : s₀.HasRows form) (counts : s₀.Counted) : s.Counted :=
  (h.keep (P := fun _ s _ => s.HasRows form ∧ s.Counted) (fun ht _ hs => ⟨ht.hasRows hs.1, ht.counted hs.1 hs.2⟩)
    (fun hstore hs => ⟨hs.1.attach, hs.2.attach hstore⟩) ⟨rows, counts⟩).2

/-- A start leaves the rows of every group following the values, also when it fails. -/
theorem counted_start {σ : Type} [Sink σ] (rows : s.HasRows form) (sink : σ) :
    (Operation.start.perform form s sink).2.session.Counted := by
  obtain ⟨t, r', htold, hsession, -, hreaches⟩ := Action.perform_start form ⟨s, sink, []⟩
  obtain ⟨ms, ds, -, hturns, -⟩ := Action.reaches_return (f := fun _ => Reply.done) hreaches
  have hrows : r'.session.HasRows form := hsession ▸ (Turn.seeded (b := []) htold).hasRows rows
  exact (hturns.keep (P := fun _ s => s.HasRows form ∧ s.Counted)
    (fun ht hs => ⟨ht.hasRows hs.1, ht.counted hs.1 hs.2⟩) ⟨hrows, hsession ▸ Session.counted_seeded form t s⟩).2

/-- From its first start on, whatever is done with a session, the rows of every group follow the values of
    its length field. -/
theorem rows_follow_values {store : Store η} {trace₀ : List Moment} {σ : Type} [Sink σ] {sink : σ} {g : RowGroup}
    (before : History form (.new form store) trace₀ s₀)
    (after : History form (Operation.start.perform form s₀ sink).2.session trace s) (hg : g ∈ form.schema.groups) :
    ∃ k field, s.trackers[g.id]? = some k ∧ g.lengthField? = some field ∧
      (k.active = true → k.count = (RowBounds.mk g.minRows g.maxRows).clamp (s.store.length field)) ∧
      (k.active = false →
        (∃ target, k.pending = some target ∧ target.desired = s.store.length field) ∨
        (k.pending = none ∧ k.count = (RowBounds.mk g.minRows g.maxRows).clamp (s.store.length field))) := by
  have rows₀ : s₀.HasRows form := before.hasRows (Session.hasRows_new form store)
  have rows₁ : (Operation.start.perform form s₀ sink).2.session.HasRows form :=
    (History.call Operation.start sink .begin).hasRows rows₀
  have rows : s.HasRows form := after.hasRows rows₁
  have counts : s.Counted := after.counted rows₁ (counted_start rows₀ sink)
  obtain ⟨k, hk⟩ := rows.present g hg
  obtain ⟨g', hg', hfield, hbounds⟩ := rows.own hk
  have hgroup := (Schema.problems_eq_nil_iff.mp form.valid).group?_of_mem hg
  rw [hgroup] at hg'
  cases hg'
  have hcounts := counts g.id k hk
  exact ⟨k, k.lengthField, hk, hfield, hbounds ▸ hcounts.shown, hbounds ▸ hcounts.kept⟩

theorem rows_follow_values_vehicleFilled :
    ∃ k field, vehicleFilled.2.session.trackers[vehicleRows.id]? = some k ∧ vehicleRows.lengthField? = some field ∧
      (k.active = true → k.count = (RowBounds.mk 1 6).clamp (vehicleFilled.2.session.store.length field)) ∧
      (k.active = false →
        (∃ target, k.pending = some target ∧ target.desired = vehicleFilled.2.session.store.length field) ∨
        (k.pending = none ∧ k.count = (RowBounds.mk 1 6).clamp (vehicleFilled.2.session.store.length field))) := by
  have before : History vehicleForm (.new vehicleForm vehicleStore) [] (.new vehicleForm vehicleStore) := .begin
  have after : History vehicleForm
      (Operation.start.perform vehicleForm (.new vehicleForm vehicleStore) SilentSink.mk).2.session
      ([] ++ vehicleFilled.2.trace) vehicleFilled.2.session := by
    unfold vehicleFilled vehicleStarted
    exact .call _ _ .begin
  have hg : vehicleRows ∈ vehicleForm.schema.groups := List.mem_singleton_self _
  exact rows_follow_values before after hg

end Histories

end FormSession
