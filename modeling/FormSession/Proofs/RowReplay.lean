import FormSession.Proofs.Display
import FormSession.Proofs.RowCounts

/-! # The steps told replay to the rows shown

A receiver that counts the rows of a group by the steps it is told can take every step where it comes: a row is
added after the last one, a row that is there is removed, the last row is torn down. After whatever was done with
a session it counts as many rows as the tracker of the group does (`rows_replay`). A tracker has its new number of
rows before the first of its steps is told, so this is shown for all steps of a move at once
(`RowTracker.replays_realize`). -/

namespace FormSession
open FormSession.Action (followEdit seed groupLength)

/-! ### The steps told for a group -/

/-- The step of a group that an event tells. -/
def Event.rowOp? (group : String) : Event → Option RowOp
  | .rows id op => if id = group then some op else none
  | _ => none

/-- The steps of a group told in the course of a trace. -/
def rowOps (group : String) (trace : List Moment) : List RowOp :=
  (trace.filterMap Moment.event?).filterMap (Event.rowOp? group)

section Steps
variable {group id : String} {moves : List (String × List RowOp)}

theorem rowOps_append (group : String) (trace ms : List Moment) :
    rowOps group (trace ++ ms) = rowOps group trace ++ rowOps group ms := by
  simp [rowOps]

theorem rowOps_moments (group : String) (t : Told) (phase : Phase) :
    rowOps group (t.moments phase) = t.events.filterMap (Event.rowOp? group) := by
  rw [rowOps, Told.events_moments]

theorem rowOps_resolvedAt {η : Type} (group : String) (form : Form) (s : Session η) (m : Classification)
    (force : Bool) : rowOps group (s.resolvedAt form m force) = [] := by
  rw [rowOps, Session.events_resolvedAt, List.filterMap_nil]

theorem rowOp?_rows (ops : List RowOp) :
    (ops.map (Event.rows id)).filterMap (Event.rowOp? group) = if id = group then ops else [] := by
  rw [List.filterMap_map]
  by_cases h : id = group
  · simp [h, Event.rowOp?]
  · simp [h, Event.rowOp?]

theorem rowOp?_rowEvents_of_notMem (h : group ∉ moves.map (·.1)) :
    (rowEvents moves).filterMap (Event.rowOp? group) = [] := by
  induction moves with
  | nil => rfl
  | cons m rest ih =>
    obtain ⟨hne, hrest⟩ := List.ne_and_not_mem_of_not_mem_cons h
    rw [rowEvents, List.flatMap_cons, List.filterMap_append, rowOp?_rows, if_neg (Ne.symm hne)]
    exact ih hrest

/-- Of the steps of several groups, those of one are told as they are. -/
theorem rowOp?_rowEvents {ops : List RowOp} (hids : (moves.map (·.1)).Nodup) (h : (group, ops) ∈ moves) :
    (rowEvents moves).filterMap (Event.rowOp? group) = ops := by
  induction moves with
  | nil => cases h
  | cons m rest ih =>
    obtain ⟨hnot, hrest⟩ := List.nodup_cons.mp hids
    rw [rowEvents, List.flatMap_cons, List.filterMap_append, rowOp?_rows]
    rcases List.mem_cons.mp h with rfl | h
    · have hothers : (rowEvents rest).filterMap (Event.rowOp? group) = [] := rowOp?_rowEvents_of_notMem hnot
      rw [if_pos rfl]
      exact (congrArg (ops ++ ·) hothers).trans (List.append_nil ops)
    · have hne : m.1 ≠ group := fun hid => hnot (List.mem_map.mpr ⟨_, h, hid.symm⟩)
      rw [if_neg hne]
      exact ih hrest h

/-- No step is told with the events of a pass. -/
theorem rowOp?_pass {p : Pass} {events : List Event} (h : ∀ e ∈ events, e ∈ p.events) :
    events.filterMap (Event.rowOp? group) = [] := by
  refine List.filterMap_eq_nil_iff.mpr fun e he => ?_
  obtain ⟨field, -, ⟨rows, rfl⟩ | ⟨rows, rfl⟩ | rfl⟩ := Display.field_of_pass_event (h e he) <;> rfl

theorem Session.keys_moveList {η : Type} (s : Session η)
    (move : Session η → RowTracker → List RowOp × RowTracker) : (s.moveList move).map (·.1) = (s.moves move).keys := by
  rw [moveList, List.map_map]
  exact Std.ExtTreeMap.map_fst_toList_eq_keys

theorem Session.nodup_moveList {η : Type} (s : Session η)
    (move : Session η → RowTracker → List RowOp × RowTracker) : ((s.moveList move).map (·.1)).Nodup := by
  rw [keys_moveList]
  exact Std.ExtTreeMap.nodup_keys

end Steps

/-! ### Turns -/

section Turns
variable {η : Type} {form : Form} {s s' : Session η} {ms : List Moment} {id : String}

/-- The steps told for a group lead from the rows of its tracker in one session to those in another. -/
def Replayed (id : String) (s : Session η) (ms : List Moment) (s' : Session η) : Prop :=
  ∀ k', s'.trackers[id]? = some k' → ∃ k, s.trackers[id]? = some k ∧
    RowOp.replay? k.count (rowOps id ms) = some k'.count

theorem replayed_of_map (move : RowTracker → List RowOp × RowTracker)
    (htrackers : s'.trackers[id]? = s.trackers[id]?.map fun k => (move k).2)
    (hops : ∀ k, s.trackers[id]? = some k → rowOps id ms = (move k).1) (hmove : ∀ k : RowTracker, k.Replays (move k)) :
    Replayed id s ms s' := by
  intro k' hk'
  rw [htrackers] at hk'
  obtain ⟨k, hk, rfl⟩ := Option.map_eq_some_iff.mp hk'
  exact ⟨k, hk, by rw [hops k hk]; exact hmove k⟩

theorem replayed_same (htrackers : s'.trackers = s.trackers) (hops : rowOps id ms = []) : Replayed id s ms s' :=
  replayed_of_map (fun k => ([], k)) (by rw [htrackers, Option.map_id']) (fun _ _ => hops) fun k => k.replays_still rfl

theorem replayed_moved {move : Session η → RowTracker → List RowOp × RowTracker} {t : Told}
    (told : t.events = rowEvents (s.moveList move)) (hmove : ∀ k : RowTracker, k.Replays (move s k)) :
    Replayed id s (t.moments .idle) (s.moved form move t) := by
  refine replayed_of_map (move s) (Session.getElem?_trackers_moved form move t s id) (fun k hk => ?_) hmove
  rw [rowOps_moments, told]
  exact rowOp?_rowEvents (s.nodup_moveList move) (Session.mem_moveList hk)

theorem replayed_movedOne {group : String} {k : RowTracker} {move : List RowOp × RowTracker} {t : Told}
    (hk : s.trackers[group]? = some k) (told : t.events = move.1.map (.rows group)) (hmove : k.Replays move) :
    Replayed id s (t.moments .idle) (s.movedOne form group move.1 move.2 t) := by
  have hmoved : (s.movedOne form group move.1 move.2 t).trackers[id]? =
      if group = id then some move.2 else s.trackers[id]? := by
    simp [Session.movedOne, Std.ExtTreeMap.getElem?_insert]
  intro k' hk'
  rw [hmoved] at hk'
  rw [rowOps_moments, told, rowOp?_rows]
  by_cases hid : group = id
  · subst hid
    rw [if_pos rfl] at hk' ⊢
    cases hk'
    exact ⟨k, hk, hmove⟩
  · rw [if_neg hid] at hk' ⊢
    exact ⟨k', hk', rfl⟩

variable [EditHook η] {b b' : List Task} {ds : List Deed}

/-- The steps told in a turn lead to the rows after it. -/
theorem Turn.replayed (h : Turn form b s ms ds b' s') (id : String) : Replayed id s ms s' := by
  cases h with
  | unchanged => exact replayed_same rfl rfl
  | @changed _ _ _ store u _ t c change serves told =>
    have hmoved : Replayed id ({ s with store } : Session η) (t.moments .idle)
        (({ s with store } : Session η).moved form (followEdit u.edit) t) := by
      refine replayed_moved told fun k => ?_
      rw [followEdit]
      split
      · exact k.replays_submit _
      · exact k.replays_still rfl
    exact hmoved
  | seeded told => exact replayed_moved told fun k => k.replays_submit _
  | entered cache onStep tracker told => exact replayed_movedOne tracker told (RowTracker.replays_setActive ..)
  | rebuilt found tracker told => exact replayed_movedOne tracker told (RowTracker.replays_submit ..)
  | passed m force told =>
    refine replayed_same rfl ?_
    rw [rowOps_append, rowOps_resolvedAt, rowOps_moments, List.nil_append]
    exact rowOp?_pass fun e he => told ▸ he
  | @refused _ _ t last rest m force told =>
    refine replayed_same rfl ?_
    rw [rowOps_append, rowOps_resolvedAt, rowOps_moments, List.nil_append]
    exact rowOp?_pass fun e he => Told.mem_events_of_refused told he
  | began => exact replayed_same rfl rfl
  | cleared => exact replayed_same rfl rfl
  | displayed step =>
    -- The groups of the step before are no longer active, and keep their rows.
    refine replayed_of_map (fun k => ([], if Session.isOnStep form id s.activeStep then (k.setActive false).2 else k))
      (Session.getElem?_trackers_display form step s id) (fun _ _ => rfl) fun k => ?_
    split
    · exact k.replays_still rfl
    · exact k.replays_still rfl
  | took => exact replayed_same rfl rfl
  | dropped => exact replayed_same rfl rfl
  | committed => exact replayed_same rfl rfl

/-! ### Histories -/

variable {trace : List Moment}

/-- A receiver that starts with no rows and counts the rows of a group by the steps it is told can take each step
    where it comes, and counts as many rows as the session after whatever was done with it. -/
theorem rows_replay {store : Store η} {g : RowGroup} (h : History form (.new form store) trace s)
    (hg : g ∈ form.schema.groups) :
    ∃ k, s.trackers[g.id]? = some k ∧ RowOp.replay? 0 (rowOps g.id trace) = some k.count := by
  have rows : s.HasRows form := h.hasRows (Session.hasRows_new form store)
  obtain ⟨k, hk⟩ := rows.present g hg
  have hreplayed : Replayed g.id (Session.new form store) trace s := by
    refine h.keep (P := fun _ s trace => Replayed g.id (Session.new form store) trace s) ?_ (fun _ hs => hs) ?_
    · intro b s ms ds b' s' ht trace hs k'' hk''
      obtain ⟨k', hk', hlater⟩ := ht.replayed g.id k'' hk''
      obtain ⟨k, hk, hbefore⟩ := hs k' hk'
      exact ⟨k, hk, by rw [rowOps_append, RowOp.replay?_append, hbefore, Option.bind_some, hlater]⟩
    · exact replayed_same rfl rfl
  obtain ⟨k₀, hk₀, hcount⟩ := hreplayed k hk
  -- A new tracker shows no rows.
  obtain ⟨_, -, -, -, hnew⟩ := (Session.getElem?_newTrackers_own hk₀).resolve_left (by simp)
  rw [hnew] at hcount
  exact ⟨k, hk, hcount⟩

/-- A start adds two rows of vehicles, and filling in the second vehicle leaves them as they are. -/
theorem rows_replay_vehicleFilled :
    RowOp.replay? 0 (rowOps vehicleRows.id ([] ++ vehicleStarted.2.trace ++ vehicleFilled.2.trace)) = some 2 := by
  have hg : vehicleRows ∈ vehicleForm.schema.groups := List.mem_singleton_self _
  obtain ⟨k, hk, hreplay⟩ := rows_replay history_vehicleFilled hg
  have hcount : vehicleFilled.2.session.trackers[vehicleRows.id]?.map (·.count) = some 2 := by decide +kernel
  rw [hk] at hcount
  exact hreplay.trans hcount

end Turns

end FormSession
