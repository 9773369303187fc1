import FormSession.Proofs.Display
import FormSession.Proofs.Retelling
import FormSession.Proofs.RowCounts

/-! # What is known belongs to the displayed step

A session changes the displayed step in one place: after the step before was left, and before the groups of the new
one are entered. Everything else keeps the step, its fields and which groups are displayed, and tells events of its
fields only (`StepKept`), also if it fails. So after every operation exactly the groups of the displayed step are
displayed, and rows are applied and listed for its fields only (`tracking_scoped`). -/

namespace FormSession
open FormSession.Action (followEdit seed groupLength)

/-- The field whose rows an event shows or hides, or that has settled. -/
def Event.field? : Event → Option String
  | .shown field _ | .hidden field _ | .settled field => some field
  | .rows .. => none

/-- All events at these moments are of the given fields, or of rows. -/
def OfFields (fields : NameSet) (ms : List Moment) : Prop :=
  ∀ e ∈ ms.filterMap Moment.event?, ∀ f ∈ e.field?, f ∈ fields

section Events
variable {fields : NameSet} {ms ms' : List Moment}

theorem ofFields_nil : OfFields fields [] := by
  intro e he
  cases he

theorem OfFields.append (h : OfFields fields ms) (h' : OfFields fields ms') : OfFields fields (ms ++ ms') := by
  intro e he
  rw [List.filterMap_append] at he
  rcases List.mem_append.mp he with he | he
  · exact h e he
  · exact h' e he

theorem ofFields_moments {t : Told} {phase : Phase} (h : ∀ e ∈ t.events, ∀ f ∈ e.field?, f ∈ fields) :
    OfFields fields (t.moments phase) := by
  intro e he
  rw [t.events_moments] at he
  exact h e he

theorem ofFields_rowEvents {t : Told} {moves : List (String × List RowOp)} (h : t.events = rowEvents moves) :
    OfFields fields (t.moments .idle) := by
  apply ofFields_moments
  intro e he f hf
  rw [h] at he
  obtain ⟨move, -, he⟩ := List.mem_flatMap.mp he
  obtain ⟨op, -, rfl⟩ := List.mem_map.mp he
  cases hf

theorem ofFields_rows {t : Told} {group : String} {ops : List RowOp} (h : t.events = ops.map (.rows group)) :
    OfFields fields (t.moments .idle) :=
  ofFields_rowEvents (h.trans (rowEvents_singleton group ops).symm)

theorem Pass.field_of_event {p : Pass} {e : Event} (he : e ∈ p.events) {f : String} (hf : f ∈ e.field?) :
    ∃ c ∈ p.queue, c.field = f := by
  obtain ⟨field, hfield, hevent⟩ := Display.field_of_pass_event he
  have hsame : field = f := by
    rcases hevent with ⟨rows, rfl⟩ | ⟨rows, rfl⟩ | rfl <;> exact Option.some.inj hf
  subst hsame
  exact List.mem_map.mp hfield

/-- A pass tells displayed fields only. -/
theorem Visibility.active_of_pass_event {v : Visibility} {cx : PassContext} {force : Bool} {m : Classification}
    {e : Event} (he : e ∈ (v.pass cx force m).1.events) {f : String} (hf : f ∈ e.field?) : f ∈ cx.active := by
  obtain ⟨c, hc, rfl⟩ := Pass.field_of_event he hf
  obtain ⟨r, hr, -, rfl⟩ := Visibility.mem_pass_queue.mp hc
  obtain ⟨f', verdict, -, hactive, -, rfl⟩ := Visibility.mem_resolutions.mp hr
  exact hactive

theorem ofFields_resolvedAt {η : Type} (form : Form) (s : Session η) (m : Classification) (force : Bool) :
    OfFields fields (s.resolvedAt form m force) := by
  intro e he
  rw [Session.events_resolvedAt] at he
  cases he

end Events

/-! ### Actions that keep the displayed step -/

/-- Whether a group is displayed, if it has a tracker. -/
def Session.displays? {η : Type} (s : Session η) (group : String) : Option Bool :=
  s.trackers[group]?.map (·.active)

/-- The displayed step and its fields are the same in both runs, and what was told in between is of these fields. -/
structure WithinStep {η σ : Type} (r r' : Run η σ) : Prop where
  step : r'.session.activeStep = r.session.activeStep
  fields : r'.session.activeFields = r.session.activeFields
  told : ∃ ms, r'.trace = r.trace ++ ms ∧ OfFields r.session.activeFields ms

/-- The same groups are displayed in both runs as well. -/
structure StepKept {η σ : Type} (r r' : Run η σ) : Prop extends WithinStep r r' where
  groups : ∀ id, r'.session.displays? id = r.session.displays? id

section Kept
variable {η σ α β : Type} {r r' r'' : Run η σ}

theorem WithinStep.refl (r : Run η σ) : WithinStep r r where
  step := rfl
  fields := rfl
  told := ⟨[], (List.append_nil _).symm, ofFields_nil⟩

theorem WithinStep.trans (h : WithinStep r r') (h' : WithinStep r' r'') : WithinStep r r'' := by
  obtain ⟨ms, htrace, htold⟩ := h.told
  obtain ⟨ms', htrace', htold'⟩ := h'.told
  rw [h.fields] at htold'
  refine ⟨h'.step.trans h.step, h'.fields.trans h.fields, ms ++ ms', ?_, htold.append htold'⟩
  rw [htrace', htrace, List.append_assoc]

theorem StepKept.refl (r : Run η σ) : StepKept r r := ⟨.refl r, fun _ => rfl⟩

theorem StepKept.trans (h : StepKept r r') (h' : StepKept r' r'') : StepKept r r'' :=
  ⟨h.toWithinStep.trans h'.toWithinStep, fun id => (h'.groups id).trans (h.groups id)⟩

/-- An action keeps the displayed step, whatever its outcome. -/
def Action.KeepsStep (a : Action η σ α) : Prop := ∀ r, StepKept r (a.perform r).2

namespace Action
variable {a : Action η σ α} {f : α → Action η σ β} {form : Form}

theorem keepsStep_pure (x : α) : (pure x : Action η σ α).KeepsStep := StepKept.refl

theorem keepsStep_throw (e : SessionError) : (throw e : Action η σ α).KeepsStep := StepKept.refl

theorem keepsStep_bind (ha : a.KeepsStep) (hf : ∀ x, (f x).KeepsStep) : (a >>= f).KeepsStep := fun r =>
  keep_bind (P := StepKept r) (ha r) fun x r' h => h.trans (hf x r')

theorem keepsStep_session {f : Session η → Action η σ β} (hf : ∀ s, (f s).KeepsStep) : (session >>= f).KeepsStep :=
  keepsStep_bind StepKept.refl hf

/-- What is known, what is queued and the values may be replaced. -/
theorem keepsStep_update {f : Session η → Session η} (step : ∀ s, (f s).activeStep = s.activeStep)
    (fields : ∀ s, (f s).activeFields = s.activeFields) (trackers : ∀ s, (f s).trackers = s.trackers) :
    (update f : Action η σ Unit).KeepsStep := by
  intro r
  refine ⟨⟨step _, fields _, [], (List.append_nil _).symm, ofFields_nil⟩, ?_⟩
  intro id
  unfold Session.displays?
  rw [perform_update, trackers]

theorem keepsStep_changeStore (change : Store η → Option Update × Store η) :
    (changeStore change : Action η σ _).KeepsStep := by
  intro r
  rw [perform_changeStore]
  refine ⟨⟨rfl, rfl, _, rfl, ?_⟩, fun _ => rfl⟩
  -- A published update is no event.
  cases (change r.session.store).1 with
  | none => exact ofFields_nil
  | some u =>
    intro e he
    cases he

variable [Sink σ]

theorem keepsStep_tellRows (group : String) (ops : List RowOp) : (tellRows form group ops : Action η σ Unit).KeepsStep := by
  intro r
  obtain ⟨t, sink, htold, hrun⟩ := perform_tellRows form group ops r
  rw [hrun]
  exact ⟨⟨rfl, rfl, _, rfl, ofFields_rows htold⟩, fun _ => rfl⟩

theorem keepsStep_moveTrackers {move : Session η → RowTracker → List RowOp × RowTracker}
    (h : ∀ s k, (move s k).2.active = k.active) : (moveTrackers form move : Action η σ Unit).KeepsStep := by
  intro r
  obtain ⟨t, sink, htold, hrun⟩ := perform_moveTrackers form move r
  rw [hrun]
  refine ⟨⟨rfl, rfl, _, rfl, ofFields_rowEvents htold⟩, ?_⟩
  intro id
  unfold Session.displays?
  rw [Session.getElem?_trackers_moved, Option.map_map]
  exact congrArg (fun f => r.session.trackers[id]?.map f) (funext fun k => h r.session k)

theorem keepsStep_apply (m : Classification) (force : Bool) : (apply form m force : Action η σ Unit).KeepsStep := by
  intro r
  rcases perform_apply m force r with ⟨t, sink, htold, -, hrun⟩ | ⟨t, last, sink, rest, htold, -, -, hrun⟩
  · rw [hrun]
    refine ⟨⟨rfl, rfl, _, rfl, .append (ofFields_resolvedAt _ _ _ _) (ofFields_moments ?_)⟩, fun _ => rfl⟩
    intro e he f hf
    rw [htold] at he
    exact Visibility.active_of_pass_event he hf
  · rw [hrun]
    refine ⟨⟨rfl, rfl, _, rfl, .append (ofFields_resolvedAt _ _ _ _) (ofFields_moments ?_)⟩, fun _ => rfl⟩
    intro e he f hf
    exact Visibility.active_of_pass_event (Told.mem_events_of_refused htold he) hf

theorem keepsStep_classify (form : Form) : (classify form : Action η σ Unit).KeepsStep :=
  keepsStep_session fun _ => keepsStep_apply _ _

theorem keepsStep_reapply : (reapply form : Action η σ Unit).KeepsStep :=
  keepsStep_session fun _ => keepsStep_apply _ _

end Action
end Kept

namespace Action
variable {η σ : Type} [EditHook η] [Sink σ] {form : Form}

omit [EditHook η] in
theorem keepsStep_changeData (change : Store η → Option Update × Store η) :
    (changeData form change : Action η σ _).KeepsStep := by
  refine keepsStep_bind (keepsStep_changeStore change) ?_
  rintro (_ | u)
  · exact keepsStep_pure none
  · have hmoved : (moveTrackers form (followEdit u.edit) : Action η σ Unit).KeepsStep := by
      apply keepsStep_moveTrackers
      intro s k
      unfold followEdit
      split
      · exact k.active_submit _
      · rfl
    have hfollowed : (followUpdate form u : Action η σ Unit).KeepsStep :=
      keepsStep_bind hmoved fun _ => keepsStep_classify form
    exact keepsStep_bind hfollowed fun _ => keepsStep_pure _

theorem keepsStep_write (e : FormEdit) : (write form e : Action η σ _).KeepsStep := keepsStep_changeData _

theorem keepsStep_clear : (clear form : Action η σ _).KeepsStep := by
  refine keepsStep_session fun s => keepsStep_bind ?_ fun _ => ?_
  · exact keepsStep_update (fun _ => rfl) (fun _ => rfl) fun _ => rfl
  · split
    · exact keepsStep_pure none
    · exact keepsStep_write _

theorem keepsStep_runTasks (tasks : List Task) : (runTasks form tasks : Action η σ Unit).KeepsStep := by
  induction tasks with
  | nil => exact keepsStep_pure ()
  | cons task rest ih =>
    refine keepsStep_bind ?_ fun _ => ih
    cases task with
    | write e => exact keepsStep_bind (keepsStep_write e) fun _ => keepsStep_pure ()
    | classify => exact keepsStep_classify form

theorem keepsStep_flushWithin (left done : Nat) : (flushWithin form left done : Action η σ Nat).KeepsStep := by
  have queued : ∀ queue, (update fun s => { s with queue } : Action η σ Unit).KeepsStep := fun queue =>
    keepsStep_update (fun _ => rfl) (fun _ => rfl) fun _ => rfl
  induction left generalizing done with
  | zero =>
    unfold flushWithin
    refine keepsStep_session fun s => ?_
    split
    · exact keepsStep_pure done
    · refine keepsStep_bind (queued _) fun _ => keepsStep_bind ?_ fun _ => keepsStep_throw _
      -- Dropping what waits tells nothing.
      intro r
      refine ⟨⟨rfl, rfl, [.dropped], rfl, ?_⟩, fun _ => rfl⟩
      intro e he
      cases he
  | succ left ih =>
    unfold flushWithin
    refine keepsStep_session fun s => ?_
    split
    · exact keepsStep_pure done
    · exact keepsStep_bind (queued _) fun _ => keepsStep_bind (keepsStep_runTasks _) fun _ => ih (done + 1)

theorem keepsStep_save : (save form : Action η σ _).KeepsStep := by
  refine keepsStep_bind keepsStep_clear fun _ => keepsStep_bind (keepsStep_flushWithin _ _) fun _ => ?_
  refine keepsStep_session fun s => keepsStep_bind ?_ fun _ => keepsStep_pure _
  exact keepsStep_update (fun _ => rfl) (fun _ => rfl) fun _ => rfl

omit [EditHook η] [Sink σ] in
theorem keepsStep_group (id : String) : (group form id : Action η σ _).KeepsStep := by
  unfold group
  split
  · exact keepsStep_pure _
  · exact keepsStep_throw _

theorem keepsStep_editRows (id : String) (allowed : RowGroup → Session η → Bool)
    (edit : RowGroup → Session η → FormEdit) : (editRows form id allowed edit : Action η σ _).KeepsStep := by
  refine keepsStep_bind (keepsStep_group id) fun g => keepsStep_session fun s => ?_
  split
  · exact keepsStep_bind (keepsStep_write _) fun _ => keepsStep_pure true
  · exact keepsStep_pure false

omit [EditHook η] [Sink σ] in
/-- The tracker of a group may be replaced by one that is as active. -/
theorem stepKept_insert {group : String} {k k' : RowTracker} {r : Run η σ} (hk : r.session.trackers[group]? = some k)
    (active : k'.active = k.active) :
    StepKept r { r with session := { r.session with trackers := r.session.trackers.insert group k' } } := by
  refine ⟨⟨rfl, rfl, [], (List.append_nil _).symm, ofFields_nil⟩, ?_⟩
  intro id
  unfold Session.displays?
  rw [Std.ExtTreeMap.getElem?_insert]
  split
  · rename_i hid
    rw [Std.LawfulEqCmp.compare_eq_iff_eq] at hid
    subst hid
    rw [hk, Option.map_some, Option.map_some, active]
  · rfl

omit [EditHook η] in
theorem keepsStep_resetGroup (id : String) : (resetGroup form id : Action η σ Unit).KeepsStep := by
  refine keepsStep_bind (keepsStep_group id) fun g => ?_
  intro r
  rw [perform_bind, perform_session]
  dsimp only
  cases hk : r.session.trackers[id]? with
  | none => exact StepKept.refl r
  | some k =>
    dsimp only
    rw [perform_bind, perform_update]
    have hrest : (tellRows form id (k.reset (groupLength g r.session)).1 >>= fun _ => classify form :
        Action η σ Unit).KeepsStep := keepsStep_bind (keepsStep_tellRows _ _) fun _ => keepsStep_classify form
    exact (stepKept_insert hk (k.active_submit _)).trans (hrest _)

end Action

/-! ### Displaying a step -/

namespace Action
variable {η σ : Type} [EditHook η] [Sink σ] {form : Form}

/-- Leaves the displayed step for another one. -/
def leave (form : Form) (step : String) : Action η σ Unit := do
  if !form.schema.hasStep step then throw (.unknownStep step)
  let s ← session
  if s.activeStep.isSome then
    let _ ← clear form

/-- Displays a step, enters those of the given groups that are on it, and classifies the values. -/
def arrive (form : Form) (step : String) (groups : List String) : Action η σ Unit := do
  update (Session.display form step)
  enterGroups form (groups.filter fun group => Session.isOnStep form group (some step))
  classify form

/-- A step is left, and then another one is displayed. -/
theorem perform_navigate (form : Form) (step : String) (r : Run η σ) :
    (navigate form step).perform r =
      (leave form step >>= fun _ => arrive form step r.session.trackers.keys).perform r := by
  unfold navigate leave arrive
  by_cases hstep : form.schema.hasStep step = true
  · simp only [hstep, Bool.not_true, Bool.false_eq_true, ↓reduceIte]
    cases hactive : r.session.activeStep.isSome with
    | true =>
      simp only [perform_bind, perform_session, hactive, if_true]
      rcases (clear form).perform r with ⟨e | u, r'⟩
      · rfl
      · simp only [perform_pure]
    | false =>
      simp only [perform_bind, perform_session, hactive, Bool.false_eq_true, if_false, perform_pure]
  · simp only [hstep, Bool.not_false, ↓reduceIte]
    rfl

theorem keepsStep_leave (form : Form) (step : String) : (leave form step : Action η σ Unit).KeepsStep := by
  unfold leave
  split
  · exact keepsStep_throw _
  · refine keepsStep_session fun s => ?_
    split
    · exact keepsStep_bind keepsStep_clear fun _ => keepsStep_pure ()
    · exact keepsStep_pure ()

/-- Some groups are entered in a run from another one, and nothing else is done. -/
structure Entered (groups : List String) (r r' : Run η σ) : Prop extends WithinStep r r' where
  store : r'.session.store = r.session.store
  known : ∀ {P : Visibility → Prop}, Visibility.StaysFollowing P → P r.session.visibility → P r'.session.visibility
  displays : ∀ id, r'.session.displays? id = (r.session.displays? id).map (decide (id ∈ groups) || ·)

omit [EditHook η] [Sink σ] in
theorem Entered.nil (r : Run η σ) : Entered [] r r := by
  refine ⟨.refl r, rfl, fun _ h => h, ?_⟩
  intro id
  simp

omit [EditHook η] [Sink σ] in
theorem Entered.cons {group : String} {groups : List String} {r r' r'' : Run η σ} (h : Entered [group] r r')
    (h' : Entered groups r' r'') : Entered (group :: groups) r r'' := by
  refine ⟨h.toWithinStep.trans h'.toWithinStep, h'.store.trans h.store, ?_, ?_⟩
  · intro P stays hp
    exact h'.known stays (h.known stays hp)
  · intro id
    rw [h'.displays, h.displays, Option.map_map]
    congr 1
    funext shown
    by_cases hid : id = group <;> simp [hid]

omit [EditHook η] in
theorem perform_enterGroup_entered (form : Form) (group : String) (r : Run η σ) : ∃ r',
    (enterGroup form group).perform r = (.ok (), r') ∧ Entered [group] r r' := by
  unfold enterGroup
  rw [perform_bind, perform_session]
  dsimp only
  cases hk : r.session.trackers[group]? with
  | none =>
    -- A group without a tracker is passed over, and is not displayed afterwards either.
    refine ⟨r, rfl, .refl r, rfl, fun _ h => h, ?_⟩
    intro id
    by_cases hid : id = group
    · subst hid
      simp [Session.displays?, hk]
    · simp [hid]
  | some k =>
    dsimp only
    rw [perform_bind, perform_update]
    obtain ⟨t, sink, htold, hrun⟩ := perform_tellRows form group (k.setActive true).1
      { r with session := { r.session with trackers := r.session.trackers.insert group (k.setActive true).2 } }
    refine ⟨_, hrun, ⟨rfl, rfl, _, rfl, ofFields_rows htold⟩, rfl, fun stays hp => stays.followRows hp _ _, ?_⟩
    intro id
    show ((r.session.trackers.insert group (k.setActive true).2)[id]?.map (·.active)) = _
    unfold Session.displays?
    rw [Std.ExtTreeMap.getElem?_insert]
    by_cases hid : group = id
    · subst hid
      obtain ⟨count, hset, -⟩ := k.setActive_true
      simp [hk, hset]
    · simp [hid, Ne.symm hid, Function.comp_def]

omit [EditHook η] in
/-- Entering groups never fails. -/
theorem perform_enterGroups (form : Form) (groups : List String) (r : Run η σ) : ∃ r',
    (enterGroups form groups).perform r = (.ok (), r') ∧ Entered groups r r' := by
  induction groups generalizing r with
  | nil => exact ⟨r, rfl, .nil r⟩
  | cons group rest ih =>
    obtain ⟨r', hfirst, hentered⟩ := perform_enterGroup_entered form group r
    obtain ⟨r'', hrest, hentered'⟩ := ih r'
    refine ⟨r'', ?_, hentered.cons hentered'⟩
    rw [enterGroups, perform_bind, hfirst]
    exact hrest

omit [EditHook η] in
/-- A step is displayed, its groups are entered, and the values are classified. -/
theorem perform_arrive (form : Form) (step : String) (groups : List String) (r : Run η σ) : ∃ r',
    Entered (groups.filter fun group => Session.isOnStep form group (some step)) (displayed form step r) r' ∧
      (arrive form step groups).perform r = (classify form).perform r' := by
  obtain ⟨r', hrun, hentered⟩ := perform_enterGroups form
    (groups.filter fun group => Session.isOnStep form group (some step)) (displayed form step r)
  refine ⟨r', hentered, ?_⟩
  rw [arrive, perform_bind, perform_update]
  dsimp only
  rw [perform_bind]
  unfold displayed at hrun
  rw [hrun]

end Action

/-! ### Sessions -/

/-- The fields of a session are those of the displayed step, and exactly the groups on it are displayed. -/
structure Session.Scoped {η : Type} (form : Form) (s : Session η) : Prop where
  fields : s.activeFields = match s.activeStep with
    | some step => form.schema.stepFields step
    | none => ∅
  groups : ∀ {id shown}, s.displays? id = some shown → shown = Session.isOnStep form id s.activeStep

section Scoped
variable {η σ : Type} {form : Form} {r r' : Run η σ}

theorem StepKept.scoped (h : StepKept r r') (hr : r.session.Scoped form) : r'.session.Scoped form where
  fields := by
    rw [h.fields, h.step]
    exact hr.fields
  groups := by
    intro id shown hshown
    rw [h.groups] at hshown
    rw [h.step]
    exact hr.groups hshown

theorem Session.scoped_new (form : Form) (store : Store η) : (new form store).Scoped form where
  fields := rfl
  groups := by
    intro id shown hshown
    obtain ⟨k, hk, rfl⟩ := Option.map_eq_some_iff.mp hshown
    obtain ⟨g, -, -, -, hnew⟩ := (getElem?_newTrackers_own hk).resolve_left (by simp)
    rw [hnew]
    show false = isOnStep form id none
    unfold isOnStep
    cases form.schema.group? id <;> rfl

/-- Right after a step is displayed no group is. -/
theorem Session.displays?_display {s : Session η} (hs : s.Scoped form) {step id : String} {shown : Bool}
    (h : (display form step s).displays? id = some shown) : shown = false ∧ s.displays? id ≠ none := by
  unfold displays? at h
  rw [getElem?_trackers_display, Option.map_map] at h
  obtain ⟨k, hk, rfl⟩ := Option.map_eq_some_iff.mp h
  have hdisplays : s.displays? id = some k.active := by
    unfold displays?
    rw [hk, Option.map_some]
  have hshown := hs.groups hdisplays
  refine ⟨?_, by simp [hdisplays]⟩
  rw [Function.comp_apply]
  split
  · rfl
  · rename_i hon
    rw [hshown]
    simpa using hon

/-- Where a step is displayed, the groups on it are entered if all groups are given. -/
theorem Session.scoped_entered {groups : List String} {step : String} (hr : r.session.Scoped form)
    (all : ∀ id, r.session.displays? id ≠ none → id ∈ groups)
    (h : Action.Entered (groups.filter fun group => isOnStep form group (some step)) (Action.displayed form step r) r') :
    r'.session.Scoped form where
  fields := by
    rw [h.fields, h.step]
    rfl
  groups := by
    intro id shown hshown
    rw [h.displays] at hshown
    rw [h.step]
    obtain ⟨before, hbefore, rfl⟩ := Option.map_eq_some_iff.mp hshown
    obtain ⟨rfl, htracker⟩ := Session.displays?_display hr hbefore
    have hgroup := all id htracker
    show (decide (id ∈ groups.filter _) || false) = isOnStep form id (some step)
    simp [hgroup]

theorem Session.mem_keys_of_displays {s : Session η} {id : String} (h : s.displays? id ≠ none) :
    id ∈ s.trackers.keys := by
  unfold displays? at h
  rw [Std.ExtTreeMap.mem_keys, Std.ExtTreeMap.mem_iff_isSome_getElem?, Option.isSome_iff_ne_none]
  intro hnone
  rw [hnone] at h
  exact h rfl

end Scoped

/-! ### Operations -/

section Operations
variable {η σ : Type} [EditHook η] [Sink σ] {form : Form} {r : Run η σ}

/-- The two halves of displaying a step: what was told in the first one is of the fields displayed before, and what
    was told in the second one of those displayed after it. -/
structure Shifts (r before after : Run η σ) : Prop where
  first : WithinStep r before
  second : ∃ ms, after.trace = before.trace ++ ms ∧ OfFields after.session.activeFields ms

omit [EditHook η] [Sink σ] in
theorem Shifts.of_kept {r' : Run η σ} (h : StepKept r r') : Shifts r r' r' :=
  ⟨h.toWithinStep, [], (List.append_nil _).symm, ofFields_nil⟩

theorem Action.navigate_shifts (form : Form) (step : String) (r : Run η σ) (hr : r.session.Scoped form) :
    Shifts r ((leave form step).perform r).2 ((navigate form step).perform r).2 ∧
      ((navigate form step).perform r).2.session.Scoped form := by
  have hleft := keepsStep_leave form step r
  rw [perform_navigate, perform_bind]
  rcases hleave : (leave form step).perform r with ⟨e | u, r₁⟩
  · rw [hleave] at hleft
    exact ⟨.of_kept hleft, hleft.scoped hr⟩
  · rw [hleave] at hleft
    obtain ⟨r₂, hentered, harrive⟩ := perform_arrive form step r.session.trackers.keys r₁
    have hclassified := keepsStep_classify form r₂
    have hscoped : r₂.session.Scoped form := by
      refine Session.scoped_entered (hleft.scoped hr) (fun id hid => ?_) hentered
      rw [hleft.groups] at hid
      exact Session.mem_keys_of_displays hid
    dsimp only
    rw [harrive]
    have harrived := hentered.toWithinStep.trans hclassified.toWithinStep
    obtain ⟨ms, htrace, htold⟩ := harrived.told
    refine ⟨⟨hleft.toWithinStep, ms, htrace, ?_⟩, hclassified.scoped hscoped⟩
    rw [harrived.fields]
    exact htold

/-- What an operation does up to where it displays a step, or to its end if it displays none. -/
def Operation.untilDisplay (form : Form) (op : Operation) (s : Session η) (sink : σ) : Run η σ :=
  match op with
  | .navigate step => ((Action.leave form step).perform ⟨s, sink, []⟩).2
  | .start =>
    let seeded := ((Action.moveTrackers form seed).perform ⟨s, sink, []⟩).2
    match form.schema.firstStep? with
    | some step => ((Action.leave form step).perform seeded).2
    | none => ((Action.classify form).perform seeded).2
  | op => (op.perform form s sink).2

theorem Action.start_shifts (form : Form) (s : Session η) (sink : σ) (hs : s.Scoped form) :
    Shifts ⟨s, sink, []⟩ (Operation.start.untilDisplay form s sink) ((start form).perform ⟨s, sink, []⟩).2 ∧
      ((start form).perform ⟨s, sink, []⟩).2.session.Scoped form := by
  have hseeds : (moveTrackers form seed : Action η σ Unit).KeepsStep :=
    keepsStep_moveTrackers fun _ k => k.active_submit _
  have hseeded := hseeds ⟨s, sink, []⟩
  unfold Operation.untilDisplay start
  rw [perform_bind]
  obtain ⟨t, left, -, hrun⟩ := perform_moveTrackers form seed (⟨s, sink, []⟩ : Run η σ)
  rw [hrun] at hseeded ⊢
  dsimp only
  cases form.schema.firstStep? with
  | some step =>
    obtain ⟨hshifts, hscoped⟩ := navigate_shifts form step _ (hseeded.scoped hs)
    exact ⟨⟨hseeded.toWithinStep.trans hshifts.first, hshifts.second⟩, hscoped⟩
  | none =>
    have hclassified := hseeded.trans (keepsStep_classify form _)
    exact ⟨.of_kept hclassified, hclassified.scoped hs⟩

/-- An operation tells events of the fields that are displayed, and leaves the groups of the displayed step
    displayed, also if it fails. -/
theorem Operation.shifts (form : Form) (op : Operation) (s : Session η) (sink : σ) (hs : s.Scoped form) :
    Shifts ⟨s, sink, []⟩ (op.untilDisplay form s sink) (op.perform form s sink).2 ∧
      (op.perform form s sink).2.session.Scoped form := by
  have reply : ∀ {α : Type} {a : Action η σ α} {f : α → Reply}, a.KeepsStep →
      (a >>= fun x => pure (f x)).KeepsStep := fun ha => Action.keepsStep_bind ha fun _ => Action.keepsStep_pure _
  have kept : (op.action form : Action η σ Reply).KeepsStep → op.untilDisplay form s sink = (op.perform form s sink).2 →
      Shifts ⟨s, sink, []⟩ (op.untilDisplay form s sink) (op.perform form s sink).2 ∧
        (op.perform form s sink).2.session.Scoped form := by
    intro hkeeps hwhole
    have hkept := hkeeps ⟨s, sink, []⟩
    rw [hwhole]
    exact ⟨.of_kept hkept, hkept.scoped hs⟩
  -- Only a start and a navigation display a step; for the others all that is told comes before that.
  cases op with
  | start =>
    have hunfold : (Operation.start.perform form s sink).2 = ((Action.start form).perform ⟨s, sink, []⟩).2 :=
      Action.run_return ..
    rw [hunfold]
    exact Action.start_shifts form s sink hs
  | navigate step =>
    have hunfold : ((Operation.navigate step).perform form s sink).2 =
        ((Action.navigate form step).perform ⟨s, sink, []⟩).2 := Action.run_return ..
    rw [hunfold]
    exact Action.navigate_shifts form step ⟨s, sink, []⟩ hs
  | classify => exact kept (reply (Action.keepsStep_classify form)) rfl
  | reapply => exact kept (reply Action.keepsStep_reapply) rfl
  | apply m force => exact kept (reply (Action.keepsStep_apply m force)) rfl
  | write e => exact kept (reply (Action.keepsStep_write e)) rfl
  | clear => exact kept (reply Action.keepsStep_clear) rfl
  | discard => exact kept (reply (Action.keepsStep_changeData _)) rfl
  | flush => exact kept (reply (Action.keepsStep_flushWithin _ _)) rfl
  | save => exact kept (reply Action.keepsStep_save) rfl
  | addRow id => exact kept (reply (Action.keepsStep_editRows id _ _)) rfl
  | removeRow id i => exact kept (reply (Action.keepsStep_editRows id _ _)) rfl
  | resetGroup id => exact kept (reply (Action.keepsStep_resetGroup id)) rfl

end Operations

/-! ### Listed rows -/

/-- Rows are listed for displayed fields only. -/
def Visibility.ListsWithin (v : Visibility) (active : NameSet) : Prop :=
  ∀ f, f ∉ active → ∀ i, v.ledger.contains f i = false

theorem Visibility.listsWithin_staysFollowing (active : NameSet) : StaysFollowing (·.ListsWithin active) where
  removeRow field k h := by
    intro f hf i
    rw [contains_removeRow]
    exact h f hf _
  forget _ h := h
  invalidate _ h := h

theorem Visibility.ListsWithin.pass {v : Visibility} {cx : PassContext} (h : v.ListsWithin cx.active) (force : Bool)
    (m : Classification) : (v.pass cx force m).2.ListsWithin cx.active := by
  intro f hf i
  rw [Bool.eq_false_iff]
  intro hlisted
  rcases contains_pass.mp hlisted with ⟨r, hr, hrf, -⟩ | ⟨hbefore, -⟩
  · obtain ⟨verdict, -, hactive, -, -⟩ := resolution_of_field hr hrf
    exact hf hactive
  · rw [h f hf i] at hbefore
    cases hbefore

section Turns
variable {η : Type} [EditHook η] {form : Form}

theorem Turn.listsWithin {b b' : List Task} {s s' : Session η} {ms : List Moment} {ds : List Deed}
    (h : Turn form b s ms ds b' s') (hs : s.visibility.ListsWithin s.activeFields) :
    s'.visibility.ListsWithin s'.activeFields := by
  cases h with
  | unchanged => exact hs
  | changed => exact (Visibility.listsWithin_staysFollowing _).followMoves hs form _
  | seeded => exact (Visibility.listsWithin_staysFollowing _).followMoves hs form _
  | entered => exact (Visibility.listsWithin_staysFollowing _).followRows hs _ _
  | rebuilt => exact (Visibility.listsWithin_staysFollowing _).followRows hs _ _
  | passed m force => exact Visibility.ListsWithin.pass hs force m
  | refused m force =>
    exact (Visibility.listsWithin_staysFollowing _).forget _ (Visibility.ListsWithin.pass hs force m)
  | began => exact hs
  | cleared => exact fun f _ i => Ledger.contains_clear _ f i
  | displayed => exact fun f _ i => Ledger.contains_clear _ f i
  | took => exact hs
  | dropped => exact hs
  | committed => exact hs

/-! ### Histories -/

variable {store : Store η} {trace : List Moment} {s : Session η}

theorem History.listsWithin (h : History form (.new form store) trace s) : s.visibility.ListsWithin s.activeFields :=
  h.keep (P := fun _ s _ => s.visibility.ListsWithin s.activeFields) (fun ht _ hs => ht.listsWithin hs) (fun _ hs => hs)
    fun _ _ _ => by simp [Session.new, Visibility.empty, Ledger.empty, Ledger.contains, Ledger.rows]

/-- A field that the ledger has an entry for has a row listed. -/
theorem History.listed (h : History form (.new form store) trace s) {f : String}
    (hf : f ∈ s.visibility.ledger.fields) : ∃ i, s.visibility.ledger.contains f i = true := by
  rw [Std.ExtTreeMap.mem_iff_isSome_getElem?, Option.isSome_iff_exists] at hf
  obtain ⟨rows, hrows⟩ := hf
  by_contra hnone
  -- Then the entry would be empty, and the ledger keeps no empty entries.
  have hempty : rows = ∅ := by
    rw [Std.ExtTreeMap.eq_empty_iff_forall_not_mem]
    intro i hi
    refine hnone ⟨i, ?_⟩
    rw [Ledger.contains, Ledger.rows, Std.ExtTreeMap.getD_eq_getD_getElem?, hrows]
    exact hi
  have hfilled := h.tidy f rows hrows
  rw [hempty] at hfilled
  simp at hfilled

theorem History.scoped (h : History form (.new form store) trace s) : s.Scoped form := by
  induction h with
  | begin => exact Session.scoped_new form store
  | call op sink _ ih => exact (op.shifts form _ sink ih).2
  | attach _ _ ih => exact ⟨ih.fields, ih.groups⟩

/-- After whatever was done with a session, its fields are those of the displayed step, exactly the groups of this step
    are displayed, and rows are applied and listed for these fields only. An operation tells what to show and to hide
    of the fields of the session until it displays another step, and of the fields of that step from there on. -/
theorem tracking_scoped (h : History form (.new form store) trace s) :
    s.activeFields = (match s.activeStep with
      | some step => form.schema.stepFields step
      | none => ∅) ∧
    (∀ g ∈ form.schema.groups, ∃ k, s.trackers[g.id]? = some k ∧ (k.active = true ↔ s.activeStep = some g.step)) ∧
    (∀ f, f ∈ s.visibility.applied ∨ f ∈ s.visibility.ledger.fields → f ∈ s.activeFields) ∧
    ∀ {σ : Type} [Sink σ] (op : Operation) (sink : σ),
      (op.untilDisplay form s sink).session.activeFields = s.activeFields ∧
      OfFields s.activeFields (op.untilDisplay form s sink).trace ∧
      ∃ after, (op.perform form s sink).2.trace = (op.untilDisplay form s sink).trace ++ after ∧
        OfFields (op.perform form s sink).2.session.activeFields after := by
  refine ⟨h.scoped.fields, ?_, ?_, ?_⟩
  · intro g hg
    obtain ⟨k, hk⟩ := (h.hasRows (Session.hasRows_new form store)).present g hg
    have hshown : s.displays? g.id = some k.active := by
      unfold Session.displays?
      rw [hk, Option.map_some]
    have hgroup := (Schema.problems_eq_nil_iff.mp form.valid).group?_of_mem hg
    refine ⟨k, hk, ?_⟩
    rw [h.scoped.groups hshown, Session.isOnStep, hgroup]
    simp
  · rintro f (happlied | hlisted)
    · by_contra hf
      rw [Std.ExtTreeMap.mem_iff_isSome_getElem?, h.within f hf] at happlied
      cases happlied
    · by_contra hf
      obtain ⟨i, hi⟩ := h.listed hlisted
      rw [h.listsWithin f hf i] at hi
      cases hi
  · intro σ _ op sink
    obtain ⟨hfirst, hsecond⟩ := (op.shifts form s sink h.scoped).1
    obtain ⟨ms, htrace, htold⟩ := hfirst.told
    rw [List.nil_append] at htrace
    refine ⟨hfirst.fields, ?_, hsecond⟩
    rw [htrace]
    exact htold

/-- The one step of the form is displayed while its second vehicle is filled in. -/
theorem tracking_scoped_vehicleFilled :
    vehicleFilled.2.session.activeStep = some "vehicles" ∧
      vehicleFilled.2.session.activeFields = vehicleForm.schema.stepFields "vehicles" ∧
      ∃ k, vehicleFilled.2.session.trackers["vehicle_rows"]? = some k ∧ k.active = true := by
  have step : vehicleFilled.2.session.activeStep = some "vehicles" := by decide +kernel
  obtain ⟨fields, groups, -, -⟩ := tracking_scoped history_vehicleFilled
  obtain ⟨k, hk, hactive⟩ := groups vehicleRows (List.mem_singleton_self _)
  rw [step] at fields
  exact ⟨step, fields, k, hk, hactive.mpr step⟩

end Turns

end FormSession
