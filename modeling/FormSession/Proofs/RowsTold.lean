import FormSession.Proofs.EffectOrder
import FormSession.Proofs.Navigation
import FormSession.Proofs.RowEdits

/-! # What a row operation tells of the rows

A row operation is accepted by the number of values that the length field of the group holds, and the rows shown are
that number within the bounds of the group. So an accepted operation tells one step and shows one row more or less where
the number of values is within the bounds before and after it; where it is not, the values move towards the rows that
are shown already, and no step is told (`rows_told`). -/

namespace FormSession
open FormSession.Action (followEdit groupLength)

/-! ### One row more or less -/

namespace RowBounds
variable {least greatest n : Nat}

theorem clamp_succ (agree : greatest = 0 ∨ least ≤ greatest) (grows : canGrow ⟨least, greatest⟩ n = true) :
    clamp ⟨least, greatest⟩ (n + 1) =
      if least ≤ n then clamp ⟨least, greatest⟩ n + 1 else clamp ⟨least, greatest⟩ n := by
  simp only [canGrow, Bool.or_eq_true, beq_iff_eq, decide_eq_true_eq] at grows
  simp only [clamp]
  rcases agree with hfree | hagree <;> split <;> split <;> omega

theorem clamp_of_succ (agree : greatest = 0 ∨ least ≤ greatest) (shrinks : canShrink ⟨least, greatest⟩ (n + 1) = true) :
    clamp ⟨least, greatest⟩ (n + 1) =
      if greatest = 0 ∨ n + 1 ≤ greatest then clamp ⟨least, greatest⟩ n + 1 else clamp ⟨least, greatest⟩ n := by
  simp only [canShrink, gt_iff_lt, decide_eq_true_eq] at shrinks
  simp only [clamp]
  rcases agree with hfree | hagree <;> split <;> split <;> omega

theorem clamp_eq_self (hleast : least ≤ n) (hgreatest : greatest = 0 ∨ n ≤ greatest) :
    clamp ⟨least, greatest⟩ n = n := by
  simp only [clamp]
  split <;> omega

end RowBounds

/-! ### Writes -/

section Writes
variable {η σ : Type} [EditHook η] [Sink σ] {form : Form} {e : FormEdit} {r r' : Run η σ} {id : String} {k : RowTracker}

omit [EditHook η] in
theorem Action.changeData_eq_none {change : Store η → Option Update × Store η}
    (h : (changeData form change).perform r = (.ok none, r')) :
    change r.session.store = (none, r'.session.store) := by
  rcases perform_changeData form change r with ⟨store, hchange, hrun⟩ | ⟨u, store, t, sink, -, -, hrun⟩
  · rw [hrun] at h
    cases h
    exact hchange
  · rw [hrun] at h
    obtain ⟨_, ⟨⟩, -⟩ := perform_of_return h

omit [EditHook η] in
/-- A group is told the move that its tracker makes after an update, and nothing else. -/
theorem Action.rowOps_changeData {change : Store η → Option Update × Store η} {u : Update}
    (h : (changeData form change).perform r = (.ok (some u), r')) (hk : r.session.trackers[id]? = some k) :
    ∃ s : Session η, change r.session.store = (some u, s.store) ∧ r'.session.store = s.store ∧
      rowOps id r'.trace = rowOps id r.trace ++ (followEdit u.edit s k).1 ∧
      r'.session.trackers[id]? = some (followEdit u.edit s k).2 := by
  obtain ⟨store, s, rows, pass, sink, sink', m, hchange, hs, hrows, hpass, rfl⟩ := passed_changeData h
  have hk : s.trackers[id]? = some k := hs ▸ hk
  have htold : rowOps id (rows.moments .idle) = (followEdit u.edit s k).1 := by
    rw [rowOps_moments, hrows, rowOp?_rowEvents (s.nodup_moveList _) (Session.mem_moveList hk)]
  have hpassed : rowOps id (pass.moments .applying) = [] := by
    rw [rowOps_moments, hpass]
    exact rowOp?_pass fun _ hevent => hevent
  refine ⟨s, by rw [hchange, hs], rfl, ?_, ?_⟩
  · simp only [passed, rowOps_append, rowOps_resolvedAt, htold, hpassed, List.append_nil]
    exact congrArg (· ++ _) (List.append_nil _)
  · refine (Session.getElem?_trackers_moved form _ rows s id).trans ?_
    rw [hk, Option.map_some]

/-- What a displayed group is told of a write that changes how many values its length field holds. -/
theorem Action.rowOps_write {o : Option Update} (h : (write form e).perform r = (.ok o, r'))
    (hk : r.session.trackers[id]? = some k) (active : k.active = true)
    (hne : r'.session.store.length k.lengthField ≠ r.session.store.length k.lengthField) : ∃ target : RowTarget,
      target.Leads (r.session.store.length k.lengthField) (r'.session.store.length k.lengthField) ∧
        rowOps id r'.trace = rowOps id r.trace ++ (k.realize target).1 ∧
        r'.session.trackers[id]? = some (k.realize target).2 := by
  cases o with
  | none =>
    have hsame := Store.values_of_change_none (c := .stage e) (changeData_eq_none h) k.lengthField
    exact absurd (congrArg List.length hsame) hne
  | some u =>
    obtain ⟨s, hstage, hstore, hops, htracker⟩ := rowOps_changeData h hk
    have hleads : r.session.store.Leads u.edit s.store := Store.leads_of_change (c := .stage e) hstage
    rw [hstore] at hne ⊢
    cases hx : u.edit[k.lengthField]? with
    | none => exact absurd (congrArg List.length (hleads.values_of_none hx)) hne
    | some x =>
      have hmove : followEdit u.edit s k = k.realize (.ofEdit x (s.store.length k.lengthField)) := by
        rw [followEdit, hx]
        exact if_pos active
      rw [hmove] at hops htracker
      exact ⟨_, hleads.target_leads hx, hops, htracker⟩

end Writes

/-! ### Row operations -/

section Operations
variable {η σ : Type} [EditHook η] {form : Form} {s : Session η} {g : RowGroup} {k : RowTracker}

/-- A displayed group shows as many rows as its length field holds values, within its bounds. -/
structure Session.ShowsRows (s : Session η) (g : RowGroup) (k : RowTracker) : Prop where
  tracker : s.trackers[g.id]? = some k
  lengthField : g.lengthField? = some k.lengthField
  bounds : k.bounds = ⟨g.minRows, g.maxRows⟩
  active : k.active = true
  count : k.count = k.bounds.clamp (s.store.length k.lengthField)

theorem History.showsRows {τ : Type} [Sink τ] {starter : τ} {store : Store η} {s₀ : Session η}
    {trace₀ trace : List Moment} (before : History form (.new form store) trace₀ s₀)
    (after : History form (Operation.start.perform form s₀ starter).2.session trace s)
    (hg : g ∈ form.schema.groups) (shown : s.activeStep = some g.step) : ∃ k, s.ShowsRows g k := by
  have rows : s.HasRows form :=
    ((History.call Operation.start starter before).trans after).hasRows (Session.hasRows_new form store)
  obtain ⟨k, field, hk, hfield, hactive, hcount⟩ := before.rows_displayed after hg shown
  obtain ⟨g', hg', hlength, hbounds⟩ := rows.own hk
  rw [(Schema.problems_eq_nil_iff.mp form.valid).group?_of_mem hg] at hg'
  cases hg'
  cases hfield.symm.trans hlength
  exact ⟨k, hk, hlength, hbounds, hactive, hbounds ▸ hcount⟩

omit [EditHook η] in
theorem Session.ShowsRows.groupLength (h : s.ShowsRows g k) : groupLength g s = s.store.length k.lengthField := by
  rw [Action.groupLength, h.lengthField]

omit [EditHook η] in
theorem Session.ShowsRows.canGrow_iff (h : s.ShowsRows g k) :
    (∃ k', s.trackers[g.id]? = some k' ∧ k'.bounds.canGrow (Action.groupLength g s) = true) ↔
      RowBounds.canGrow ⟨g.minRows, g.maxRows⟩ (s.store.length k.lengthField) = true := by
  simp [h.tracker, h.groupLength, h.bounds]

omit [EditHook η] in
theorem Session.ShowsRows.canShrink_iff (h : s.ShowsRows g k) :
    (∃ k', s.trackers[g.id]? = some k' ∧ k'.bounds.canShrink (Action.groupLength g s) = true) ↔
      RowBounds.canShrink ⟨g.minRows, g.maxRows⟩ (s.store.length k.lengthField) = true := by
  simp [h.tracker, h.groupLength, h.bounds]

/-- The steps told for a group in a run, and the tracker of the group after it. -/
def Run.TellsRows (r : Run η σ) (id : String) (ops : List RowOp) (k : RowTracker) : Prop :=
  rowOps id r.trace = ops ∧ r.session.trackers[id]? = some k

variable [Sink σ] {sink : σ} {r : Run η σ} {e : FormEdit} {allowed : Prop}

/-- A row operation that is accepted and changes how many rows are to be shown has its group take a target. -/
theorem RowEdited.tellsRows (h : RowEdited form ⟨s, sink, []⟩ allowed e true r) (rows : s.ShowsRows g k)
    (hne : r.session.store.length k.lengthField ≠ s.store.length k.lengthField) : ∃ target : RowTarget,
      target.Leads (s.store.length k.lengthField) (r.session.store.length k.lengthField) ∧
        r.TellsRows g.id (k.realize target).1 (k.realize target).2 := by
  cases h with
  | accepted _ written => exact Action.rowOps_write written rows.tracker rows.active hne

theorem Operation.tellsRows_addRow (rows : s.ShowsRows g k) (hooks : s.store.hooks = []) (hg : g ∈ form.schema.groups)
    (h : (addRow g.id).perform form s sink = (.ok (.accepted true), r)) :
    if g.minRows ≤ s.store.length k.lengthField then r.TellsRows g.id [.add k.count] { k with count := k.count + 1 }
    else r.TellsRows g.id [] k := by
  have hvalid := Schema.problems_eq_nil_iff.mp form.valid
  have hedited := rowEdited_addRow (hvalid.group?_of_mem hg) h
  have hgrows := rows.canGrow_iff.mp hedited.allowed
  have hlength : r.session.store.length k.lengthField = s.store.length k.lengthField + 1 := by
    rw [Store.length, values_addRow hooks hg h fun _ => rows.groupLength.symm,
      if_pos (List.mem_of_mem_head? rows.lengthField), List.length_append]
    rfl
  obtain ⟨target, leads, htold⟩ := hedited.tellsRows rows (by omega)
  have hgoal : k.bounds.clamp target.desired =
      if g.minRows ≤ s.store.length k.lengthField then k.count + 1 else k.count := by
    rw [leads.desired, hlength, rows.count, rows.bounds, RowBounds.clamp_succ (hvalid.groupBounds g hg) hgrows]
  split
  · rename_i hleast
    rw [if_pos hleast] at hgoal
    rwa [RowTracker.realize_add leads.reset hgoal] at htold
  · rename_i hleast
    rw [if_neg hleast] at hgoal
    rwa [RowTracker.realize_same leads.reset hgoal] at htold

theorem Operation.tellsRows_removeRow {index : Nat} (rows : s.ShowsRows g k) (hooks : s.store.hooks = [])
    (hg : g ∈ form.schema.groups) (h : (removeRow g.id index).perform form s sink = (.ok (.accepted true), r)) :
    if g.maxRows = 0 ∨ s.store.length k.lengthField ≤ g.maxRows
    then ∃ n, k.count = n + 1 ∧ r.TellsRows g.id [.remove n] { k with count := n }
    else r.TellsRows g.id [] k := by
  have hvalid := Schema.problems_eq_nil_iff.mp form.valid
  have hedited := rowEdited_removeRow (hvalid.group?_of_mem hg) h
  obtain ⟨hindex, hshrinks⟩ := hedited.allowed
  rw [rows.groupLength] at hindex
  replace hshrinks := rows.canShrink_iff.mp hshrinks
  -- One value is left out, whichever it is, so only the number left matters to the tracker.
  obtain ⟨n, hn⟩ := Nat.exists_eq_add_one_of_ne_zero (Nat.ne_zero_of_lt hindex)
  have hlength : r.session.store.length k.lengthField = n := by
    have hrow : index < (s.store.values k.lengthField).length := hindex
    rw [Store.length, values_removeRow hooks (hvalid.group?_of_mem hg) h,
      if_pos ⟨List.mem_of_mem_head? rows.lengthField, hrow⟩, List.length_eraseIdx_of_lt hrow]
    exact Nat.sub_eq_of_eq_add hn
  obtain ⟨target, leads, htold⟩ := hedited.tellsRows rows (by omega)
  rw [hn] at hshrinks ⊢
  have hcount : k.count = if g.maxRows = 0 ∨ n + 1 ≤ g.maxRows then k.bounds.clamp target.desired + 1
      else k.bounds.clamp target.desired := by
    rw [leads.desired, hlength, rows.count, hn, rows.bounds, RowBounds.clamp_of_succ (hvalid.groupBounds g hg) hshrinks]
  split
  · rename_i hgreatest
    rw [if_pos hgreatest] at hcount
    have hgoal : k.bounds.clamp target.desired = n := by
      rw [leads.desired, hlength, rows.bounds]
      simp only [RowBounds.canShrink, decide_eq_true_eq] at hshrinks
      exact RowBounds.clamp_eq_self (by omega) (by omega)
    rw [hgoal] at hcount
    -- No row below the new length is marked, so it is the last one that goes.
    have hgone : ∀ i ∈ target.removed, n ≤ i := fun i hi => hlength ▸ (leads.removed_bounds i hi).1
    rw [RowTracker.realize_remove leads.reset hgone hgoal hcount] at htold
    exact ⟨n, hcount, htold⟩
  · rename_i hgreatest
    rw [if_neg hgreatest] at hcount
    rwa [RowTracker.realize_same leads.reset hcount.symm] at htold

/-- What is told of the rows of a displayed group when a row operation is answered. One that is refused leaves everything
    as it is. If one is accepted, a row is added after the last one or the last one is removed, unless the length field
    holds fewer values than the least number of rows before an addition, or more than the greatest one before a removal:
    then no step is told, and as many rows are shown as before. -/
theorem rows_told {τ : Type} [Sink τ] {starter : τ} {store : Store η} {s₀ : Session η} {trace₀ trace : List Moment}
    (before : History form (.new form store) trace₀ s₀)
    (after : History form (Operation.start.perform form s₀ starter).2.session trace s)
    (hooks : s.store.hooks = []) (hg : g ∈ form.schema.groups) (shown : s.activeStep = some g.step) :
    ∃ k field, s.trackers[g.id]? = some k ∧ g.lengthField? = some field ∧
      (∀ (sink : σ) (accepted : Bool) (r : Run η σ),
        (Operation.addRow g.id).perform form s sink = (.ok (.accepted accepted), r) →
          (accepted = true ↔ g.maxRows = 0 ∨ s.store.length field < g.maxRows) ∧
          (accepted = false → r = ⟨s, sink, []⟩) ∧
          (accepted = true →
            if g.minRows ≤ s.store.length field then r.TellsRows g.id [.add k.count] { k with count := k.count + 1 }
            else r.TellsRows g.id [] k)) ∧
      ∀ (sink : σ) (index : Nat) (accepted : Bool) (r : Run η σ),
        (Operation.removeRow g.id index).perform form s sink = (.ok (.accepted accepted), r) →
          (accepted = true ↔ index < s.store.length field ∧ g.minRows < s.store.length field) ∧
          (accepted = false → r = ⟨s, sink, []⟩) ∧
          (accepted = true →
            if g.maxRows = 0 ∨ s.store.length field ≤ g.maxRows
            then ∃ n, k.count = n + 1 ∧ r.TellsRows g.id [.remove n] { k with count := n }
            else r.TellsRows g.id [] k) := by
  obtain ⟨k, rows⟩ := before.showsRows after hg shown
  have hgroup := (Schema.problems_eq_nil_iff.mp form.valid).group?_of_mem hg
  -- Both operations ask the tracker of the group, which agrees with the number of values in every reachable state.
  refine ⟨k, k.lengthField, rows.tracker, rows.lengthField, ?_, ?_⟩
  · intro sink accepted r h
    have hedited := Operation.rowEdited_addRow hgroup h
    refine ⟨?_, ?_, ?_⟩
    · rw [hedited.accepted_iff, rows.canGrow_iff]
      simp [RowBounds.canGrow]
    · rintro rfl
      exact hedited.eq_of_refused
    · rintro rfl
      exact Operation.tellsRows_addRow rows hooks hg h
  · intro sink index accepted r h
    have hedited := Operation.rowEdited_removeRow hgroup h
    refine ⟨?_, ?_, ?_⟩
    · rw [hedited.accepted_iff, rows.canShrink_iff, rows.groupLength]
      simp [RowBounds.canShrink]
    · rintro rfl
      exact hedited.eq_of_refused
    · rintro rfl
      exact Operation.tellsRows_removeRow rows hooks hg h

end Operations

/-! ### Vehicles within and beyond the bounds -/

/-- A third row of vehicles is added. -/
def vehicleAdded : Except SessionError Reply × Run Empty SilentSink :=
  (Operation.addRow vehicleRows.id).perform vehicleForm vehicleStarted.2.session ⟨⟩

/-- The first of two rows of vehicles is removed. -/
def vehicleTaken : Except SessionError Reply × Run Empty SilentSink :=
  (Operation.removeRow vehicleRows.id 0).perform vehicleForm vehicleStarted.2.session ⟨⟩

theorem rows_told_vehicleAdded : vehicleAdded.2.TellsRows vehicleRows.id [.add 2] ⟨"vin", ⟨1, 6⟩, 3, true, none⟩ ∧
    vehicleTaken.2.TellsRows vehicleRows.id [.remove 1] ⟨"vin", ⟨1, 6⟩, 1, true, none⟩ := by
  have started : History vehicleForm
      (Operation.start.perform vehicleForm (.new vehicleForm vehicleStore) SilentSink.mk).2.session []
      vehicleStarted.2.session := by
    unfold vehicleStarted
    exact .begin
  have hgroup : vehicleRows ∈ vehicleForm.schema.groups := List.mem_singleton_self _
  obtain ⟨k, field, hk, hfield, hadd, hremove⟩ :=
    rows_told (σ := SilentSink) .begin started (by decide +kernel) hgroup (by decide +kernel)
  have hshown : vehicleStarted.2.session.trackers[vehicleRows.id]? = some ⟨"vin", ⟨1, 6⟩, 2, true, none⟩ := by
    decide +kernel
  cases hk.symm.trans hshown
  cases hfield
  have added : (Operation.addRow vehicleRows.id).perform vehicleForm vehicleStarted.2.session SilentSink.mk =
      (.ok (.accepted true), vehicleAdded.2) := by
    have hok : vehicleAdded.1 = .ok (.accepted true) := by decide +kernel
    rw [← hok, vehicleAdded]
  have taken : (Operation.removeRow vehicleRows.id 0).perform vehicleForm vehicleStarted.2.session SilentSink.mk =
      (.ok (.accepted true), vehicleTaken.2) := by
    have hok : vehicleTaken.1 = .ok (.accepted true) := by decide +kernel
    rw [← hok, vehicleTaken]
  obtain ⟨-, -, htold⟩ := hadd _ _ _ added
  obtain ⟨-, -, hremoved⟩ := hremove _ _ _ _ taken
  have hleast : vehicleRows.minRows ≤ vehicleStarted.2.session.store.length "vin" := by decide +kernel
  have hgreatest : vehicleRows.maxRows = 0 ∨ vehicleStarted.2.session.store.length "vin" ≤ vehicleRows.maxRows := by
    decide +kernel
  rw [if_pos hleast] at htold
  rw [if_pos hgreatest] at hremoved
  obtain ⟨n, hn, hlast⟩ := hremoved rfl
  cases hn
  exact ⟨htold rfl, hlast⟩

/-- A session that starts with some vehicles. -/
def vehiclesStarted (vins : List String) : Except SessionError Reply × Run Empty SilentSink :=
  Operation.start.perform vehicleForm (.new vehicleForm (.ofCommitted ((∅ : FieldValues).insert "vin" vins))) ⟨⟩

/-- Without a vehicle one row is shown, and adding the first vehicle leaves it so; of seven vehicles six rows are shown,
    and removing one of them leaves them so. -/
theorem vehicle_not_told :
    (vehiclesStarted []).2.TellsRows vehicleRows.id [.add 0] ⟨"vin", ⟨1, 6⟩, 1, true, none⟩ ∧
      (let added := (Operation.addRow vehicleRows.id).perform vehicleForm (vehiclesStarted []).2.session SilentSink.mk
       added.1 = .ok (.accepted true) ∧ added.2.TellsRows vehicleRows.id [] ⟨"vin", ⟨1, 6⟩, 1, true, none⟩) ∧
      let shown := (vehiclesStarted ["1", "2", "3", "4", "5", "6", "7"]).2.session
      shown.trackers[vehicleRows.id]? = some ⟨"vin", ⟨1, 6⟩, 6, true, none⟩ ∧
      (let removed := (Operation.removeRow vehicleRows.id 0).perform vehicleForm shown SilentSink.mk
       removed.1 = .ok (.accepted true) ∧ removed.2.TellsRows vehicleRows.id [] ⟨"vin", ⟨1, 6⟩, 6, true, none⟩) := by
  unfold Run.TellsRows
  decide +kernel

end FormSession
