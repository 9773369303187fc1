import FormSession.Proofs.Following
import FormSession.Proofs.Turn

/-! # Operations go through turns

Every action of a session ends where turns lead, whether it succeeds or fails, and what it adds to the
trace is what the turns add (`Reaches`). An action run for a task of the running batch may leave the rest
of the batch; one that fails leaves nothing of it. Only clearing, saving and displaying another step start a
new list of hidden rows. -/

namespace FormSession
variable {η σ : Type} [EditHook η] [Sink σ] {form : Form} {b b' : List Task} {r : Run η σ}

namespace Action
variable {clears : Bool}

/-! ### Values and passes -/

/-- The run after a pass was told to its end. -/
def passed (form : Form) (m : Classification) (force : Bool) (t : Told) (sink : σ) (r : Run η σ) : Run η σ where
  session :=
    { r.session with
      visibility := (r.session.passAt form m force).2
      queue := (t.queued r.session.queue).corrected (r.session.passAt form m force).1 }
  sink := sink
  trace := r.trace ++ (r.session.resolvedAt form m force ++ t.moments .applying)

/-- The run after a pass was refused with its last event told. -/
def refused (form : Form) (m : Classification) (force : Bool) (t : Told) (last : Event × List Request) (sink : σ)
    (r : Run η σ) : Run η σ where
  session :=
    { r.session with
      visibility := (r.session.passAt form m force).2.forget ((r.session.passAt form m force).1.queue.map (·.field))
      queue := t.queued r.session.queue }
  sink := sink
  trace := r.trace ++ (r.session.resolvedAt form m force ++ Told.moments (t ++ [last]) .applying)

omit [EditHook η] in
/-- Applying a classification either tells its pass to the end, or is refused with one of the events. -/
theorem perform_apply (m : Classification) (force : Bool) (r : Run η σ) :
    (∃ t sink, Told.events t = (r.session.passAt form m force).1.events ∧ (∀ x ∈ t, .classify ∉ x.2) ∧
      (apply form m force).perform r = (.ok (), passed form m force t sink r)) ∨
    ∃ t last sink rest, Told.events t ++ last.1 :: rest = (r.session.passAt form m force).1.events ∧
      (∀ x ∈ t, .classify ∉ x.2) ∧ .classify ∈ last.2 ∧
      (apply form m force).perform r = (.error .classificationRecursion, refused form m force t last sink r) := by
  -- The run once the pass is computed and before it is told.
  let told : Run η σ :=
    { r with
      session := { r.session with visibility := (r.session.passAt form m force).2 }
      trace := r.trace ++ r.session.resolvedAt form m force }
  let giveUp (e : SessionError) : Action η σ Unit := do
    update fun s =>
      { s with visibility := s.visibility.forget ((r.session.passAt form m force).1.queue.map (·.field)) }
    throw e
  let correct : Action η σ Unit :=
    if !(r.session.passAt form m force).1.corrections.isEmpty then
      update fun s => { s with queue := s.queue.add (.write (r.session.passAt form m force).1.corrections) }
    else pure ()
  have hstart : (apply form m force).perform r =
      (tryCatch (tellAll .applying (r.session.passAt form m force).1.events) giveUp >>= fun _ => correct).perform
        told := rfl
  rw [hstart, perform_bind, perform_tryCatch]
  rcases perform_tellAll (r.session.passAt form m force).1.events told with
    ⟨t, sink, htold, hnone, hrun⟩ | ⟨t, last, sink, rest, htold, hnone, hlast, hrun⟩
  · refine Or.inl ⟨t, sink, htold, hnone, ?_⟩
    rw [hrun]
    show correct.perform (told.afterTold .applying t sink) = _
    by_cases hc : (r.session.passAt form m force).1.corrections.isEmpty
    · simp [correct, hc, TaskQueue.corrected, told, Run.afterTold, passed]
    · simp [correct, hc, TaskQueue.corrected, told, Run.afterTold, passed]
  · refine Or.inr ⟨t, last, sink, rest, htold, hnone, hlast, ?_⟩
    rw [hrun]
    simp [giveUp, perform_bind, told, Run.afterRefused, refused]

theorem reaches_apply (m : Classification) (force : Bool) : Reaches form clears b r ((apply form m force).perform r) b := by
  rcases perform_apply m force r with ⟨t, sink, htold, hnone, hrun⟩ | ⟨t, last, sink, rest, htold, hnone, hlast, hrun⟩
  · rw [hrun]
    exact .of_turn rfl (.passed m force htold hnone) (by simp)
  · rw [hrun]
    exact .of_turn rfl (.refused m force htold hnone hlast) (by simp)

omit [EditHook η] in
/-- Applying a classification changes no value. -/
theorem store_apply (m : Classification) (force : Bool) (r : Run η σ) :
    ((apply form m force).perform r).2.session.store = r.session.store := by
  rcases perform_apply m force r with ⟨t, sink, -, -, hrun⟩ | ⟨t, last, sink, rest, -, -, -, hrun⟩ <;> rw [hrun] <;> rfl

theorem reaches_classify : Reaches form clears b r ((classify form).perform r) b :=
  reaches_session (reaches_apply ..)

theorem reaches_reapply : Reaches form clears b r ((reapply form).perform r) b :=
  reaches_session (reaches_apply ..)

omit [EditHook η] [Sink σ] in
theorem perform_changeStore (change : Store η → Option Update × Store η) :
    (changeStore change : Action η σ _).perform r = (.ok (change r.session.store).1, { r with
      session := { r.session with store := (change r.session.store).2 }
      trace := r.trace ++ ((change r.session.store).1.map fun u => Moment.effect (.published u)).toList }) :=
  rfl

/-- The run after an update was published and the rows of the groups followed it. -/
def followed (form : Form) (u : Update) (store : Store η) (t : Told) (sink : σ) (r : Run η σ) : Run η σ where
  session := ({ r.session with store } : Session η).moved form (followEdit u.edit) t
  sink := sink
  trace := r.trace ++ [.effect (.published u)] ++ t.moments .idle

omit [EditHook η] in
/-- A change of the values either changes none, or its update is published, the rows of the groups follow it, and the
    values are classified. -/
theorem perform_changeData (form : Form) (change : Store η → Option Update × Store η) (r : Run η σ) :
    (∃ store, change r.session.store = (none, store) ∧
      (changeData form change).perform r = (.ok none, { r with session := { r.session with store } })) ∨
    ∃ u store t sink, change r.session.store = (some u, store) ∧
      Told.events t = rowEvents (({ r.session with store } : Session η).moveList (followEdit u.edit)) ∧
      (changeData form change).perform r =
        (classify form >>= fun _ => pure (some u)).perform (followed form u store t sink r) := by
  rw [changeData, perform_bind, perform_changeStore]
  rcases change r.session.store with ⟨_ | u, store⟩
  · exact Or.inl ⟨store, rfl, by simp⟩
  · obtain ⟨t, sink, htold, hrun⟩ := perform_moveTrackers form (followEdit u.edit)
      { r with
        session := { r.session with store }
        trace := r.trace ++ [.effect (.published u)] }
    refine Or.inr ⟨u, store, t, sink, rfl, htold, ?_⟩
    dsimp only [Option.map_some, Option.toList_some]
    rw [followUpdate, perform_bind, perform_bind, perform_bind, hrun]
    rfl

/-- A change of the values serves the host or the first task of the running batch. -/
theorem reaches_changeData {ds : List Deed} (c : StoreChange) (serves : Serves c b b' ds) :
    Reaches form clears b r ((changeData form (·.change c)).perform r) b' := by
  rcases perform_changeData form (·.change c) r with ⟨store, hchange, hrun⟩ | ⟨u, store, t, sink, hchange, htold, hrun⟩
  · rw [hrun]
    exact .of_turn (List.append_nil _).symm (.unchanged c hchange serves) fun hmem => absurd hmem serves.cleared_notMem
  · rw [hrun]
    refine reaches_return (reaches_classify.after (.single (.changed c hchange serves htold)) (List.append_assoc ..)
      fun hmem => ?_)
    rcases List.mem_append.mp hmem with hmem | hmem
    · exact absurd hmem serves.cleared_notMem
    · exact absurd hmem (Deed.cleared_notMem_ofTold t)

omit [EditHook η] in
/-- What follows a change of the values leaves them as the change did. -/
theorem store_changeData (change : Store η → Option Update × Store η) (r : Run η σ) :
    ((changeData form change).perform r).2.session.store = (change r.session.store).2 := by
  rcases perform_changeData form change r with ⟨store, hchange, hrun⟩ | ⟨u, store, t, sink, hchange, -, hrun⟩
  · rw [hrun, hchange]
  · rw [hrun, hchange, run_return, classify, perform_bind, perform_session]
    exact store_apply ..

theorem reaches_write {ds : List Deed} (e : FormEdit) (serves : Serves (.stage e) b b' ds) :
    Reaches form clears b r ((write form e).perform r) b' :=
  reaches_changeData (.stage e) serves

theorem reaches_discard : Reaches form clears b r ((discard form).perform r) b :=
  reaches_changeData .revert (.host ..)

theorem reaches_clear : Reaches form true b r ((clear form).perform r) b := by
  refine reaches_session (reaches_bind (reaches_update .cleared fun _ => rfl) fun _ r' => ?_)
  split
  · exact reaches_pure _
  · exact reaches_write _ (.host ..)

/-! ### Waiting work -/

theorem reaches_runTask (task : Task) : Reaches form clears (task :: b) r ((runTask form task).perform r) b := by
  cases task with
  | write e => exact reaches_return (reaches_write e (.task ..))
  | classify => exact reaches_classify.after (.single .began) (by simp) (by simp)

theorem reaches_runTasks (tasks : List Task) : Reaches form clears tasks r ((runTasks form tasks).perform r) [] := by
  induction tasks generalizing r with
  | nil => exact reaches_pure _
  | cons task rest ih => exact reaches_bind (reaches_runTask task) fun _ _ => ih

theorem perform_flushWithin_none {left done : Nat} (idle : r.session.queue.takeBatch? = none) :
    (flushWithin form left done).perform r = (.ok done, r) := by
  cases left <;>
  · rw [flushWithin, perform_bind, perform_session]
    dsimp only
    rw [idle]
    rfl

/-- One batch too many is not run, and nothing waits after it. -/
theorem perform_flushWithin_spent {batch : Batch Task} {queue : TaskQueue Task} (done : Nat)
    (taken : r.session.queue.takeBatch? = some (batch, queue)) : (flushWithin form 0 done).perform r =
      (.error (.cascadeLimit form.schema.settings.maxBatches),
        { r with
          session := { r.session with queue := queue.clear }
          trace := r.trace ++ [.dropped] }) := by
  rw [flushWithin, perform_bind, perform_session]
  dsimp only
  rw [taken]
  rfl

/-- A flush runs the tasks of a batch and goes on. -/
theorem perform_flushWithin_taken {batch : Batch Task} {queue : TaskQueue Task} (left done : Nat)
    (taken : r.session.queue.takeBatch? = some (batch, queue)) : (flushWithin form (left + 1) done).perform r =
      (runTasks form batch.tasks >>= fun _ => flushWithin form left (done + 1)).perform
        { r with session := { r.session with queue } } := by
  rw [flushWithin, perform_bind, perform_session]
  dsimp only
  rw [taken]
  rfl

theorem reaches_flushWithin (left done : Nat) : Reaches form clears [] r ((flushWithin form left done).perform r) [] := by
  induction left generalizing r done with
  | zero =>
    rw [flushWithin]
    refine reaches_session ?_
    split
    · exact reaches_pure _
    · rename_i htaken
      exact .of_turn rfl (.dropped htaken) (by simp)
  | succ left ih =>
    rw [flushWithin]
    refine reaches_session ?_
    split
    · exact reaches_pure _
    · rename_i htaken
      refine reaches_bind (reaches_update (.took htaken) (by simp)) fun _ _ => ?_
      exact reaches_bind (reaches_runTasks _) fun _ _ => ih _

theorem reaches_flush : Reaches form clears [] r ((flush form).perform r) [] :=
  reaches_flushWithin ..

/-! ### Steps -/

theorem reaches_save : Reaches form true [] r ((save form).perform r) [] := by
  refine reaches_bind reaches_clear fun _ _ => reaches_bind reaches_flush fun _ _ => reaches_session ?_
  exact reaches_return (reaches_update .committed (by simp))

/-- Right after a step is displayed nothing is known of the display. -/
def Fresh (step : String) (s : Session η) : Prop := s.visibility.cache = ∅ ∧ s.activeStep = some step

omit [EditHook η] [Sink σ] in
theorem fresh_display (form : Form) (step : String) (s : Session η) : Fresh step (Session.display form step s) :=
  ⟨rfl, rfl⟩

omit [EditHook η] [Sink σ] in
theorem fresh_movedOne {step : String} {s : Session η} (h : Fresh step s) (group : String) (ops : List RowOp)
    (k : RowTracker) (t : Told) : Fresh step (s.movedOne form group ops k t) :=
  ⟨Visibility.cache_followRows_empty h.1 .., h.2⟩

/-- Groups of a step that was just displayed are displayed, and nothing is known of their fields yet. -/
theorem perform_enterGroup {group step : String} (hfresh : Fresh step r.session)
    (hon : Session.isOnStep form group (some step) = true) : ∃ ms ds r',
      (enterGroup form group).perform r = (.ok (), r') ∧ r'.trace = r.trace ++ ms ∧
        Turns form b r.session ms ds b r'.session ∧ .cleared ∉ ds ∧ Fresh step r'.session := by
  rw [enterGroup, perform_bind, perform_session]
  dsimp only
  cases hk : r.session.trackers[group]? with
  | none => exact ⟨[], [], r, rfl, by simp, .refl .., by simp, hfresh⟩
  | some k =>
    rw [perform_bind, perform_update]
    obtain ⟨t, sink, htold, hrun⟩ := perform_tellRows form group (k.setActive true).1
      { r with session := { r.session with trackers := r.session.trackers.insert group (k.setActive true).2 } }
    exact ⟨_, _, _, hrun, rfl, .single (.entered hfresh.1 (hfresh.2 ▸ hon) hk htold), Deed.cleared_notMem_ofTold t,
      fresh_movedOne hfresh ..⟩

theorem reaches_enterGroups {groups : List String} {step : String} (hfresh : Fresh step r.session)
    (hon : ∀ group ∈ groups, Session.isOnStep form group (some step) = true) :
    Reaches form clears b r ((enterGroups form groups).perform r) b := by
  induction groups generalizing r with
  | nil => exact reaches_pure _
  | cons group rest ih =>
    obtain ⟨ms, ds, r', hrun, htrace, hturns, hds, hfresh'⟩ :=
      perform_enterGroup (b := b) hfresh (hon group List.mem_cons_self)
    rw [enterGroups, perform_bind, hrun]
    have hrest := ih hfresh' fun g hg => hon g (List.mem_cons_of_mem _ hg)
    exact hrest.after hturns htrace fun hmem => absurd hmem hds

/-- The session with another step displayed, before its groups are. -/
def displayed (form : Form) (step : String) (r : Run η σ) : Run η σ :=
  { r with session := Session.display form step r.session }

theorem reaches_displayed (step : String) (groups : List String) : Reaches form clears b (displayed form step r) ((do
      update (Session.display form step)
      enterGroups form (groups.filter fun group => Session.isOnStep form group (some step))
      classify form : Action η σ Unit).perform r) b := by
  rw [perform_bind, perform_update]
  have hentered : Reaches form clears b (displayed form step r)
      ((enterGroups form (groups.filter fun group => Session.isOnStep form group (some step))).perform
        (displayed form step r)) b :=
    reaches_enterGroups (fresh_display ..) fun group hgroup => (List.mem_filter.mp hgroup).2
  exact reaches_bind hentered fun _ _ => reaches_classify

theorem reaches_display {step : String} (known : form.schema.hasStep step = true) (groups : List String) :
    Reaches form clears b r ((do
      update (Session.display form step)
      enterGroups form (groups.filter fun group => Session.isOnStep form group (some step))
      classify form : Action η σ Unit).perform r) b :=
  (reaches_displayed step groups).after (.single (.displayed step known)) (List.append_nil _).symm (by simp)

theorem reaches_navigate (step : String) : Reaches form true [] r ((navigate form step).perform r) [] := by
  rw [navigate]
  by_cases hstep : form.schema.hasStep step = true
  · simp only [hstep, Bool.not_true, Bool.false_eq_true, ↓reduceIte]
    refine reaches_session ?_
    split
    · exact reaches_bind reaches_clear fun _ _ => reaches_display hstep _
    · exact reaches_display hstep _
  · simp only [hstep, Bool.not_false, ↓reduceIte]
    exact reaches_same _ rfl

/-- A start takes over the rows there are, and goes on from there. -/
theorem perform_start (form : Form) (r : Run η σ) : ∃ t r', Told.events t = rowEvents (r.session.moveList seed) ∧
    r'.session = r.session.moved form seed t ∧ r'.trace = r.trace ++ t.moments .idle ∧
    Reaches form true [] r' ((start form).perform r) [] := by
  obtain ⟨t, sink, htold, hrun⟩ := perform_moveTrackers form seed r
  refine ⟨t, ⟨r.session.moved form seed t, sink, r.trace ++ t.moments .idle⟩, htold, rfl, rfl, ?_⟩
  rw [start, perform_bind, hrun]
  dsimp only
  split
  · exact reaches_navigate _
  · exact reaches_classify

theorem reaches_start : Reaches form true [] r ((start form).perform r) [] := by
  obtain ⟨t, r', htold, hsession, htrace, h⟩ := perform_start form r
  have hseeded : Turns form [] r.session (t.moments .idle) (Deed.ofTold t) [] r'.session :=
    hsession ▸ .single (.seeded htold)
  exact h.after hseeded htrace (by simp)

/-! ### Rows of a group -/

theorem reaches_editRows (id : String) (allowed : RowGroup → Session η → Bool)
    (edit : RowGroup → Session η → FormEdit) :
    Reaches form clears [] r ((editRows form id allowed edit).perform r) [] := by
  rw [editRows, group]
  cases form.schema.group? id with
  | none => exact reaches_same _ rfl
  | some g =>
    refine reaches_bind (reaches_pure g) fun _ _ => reaches_session ?_
    split
    · exact reaches_return (reaches_write _ (.host ..))
    · exact reaches_pure _

theorem reaches_resetGroup (id : String) : Reaches form clears [] r ((resetGroup form id).perform r) [] := by
  rw [resetGroup, group]
  cases hg : form.schema.group? id with
  | none => exact reaches_same _ rfl
  | some g =>
    dsimp only
    rw [pure_bind]
    refine reaches_session ?_
    split
    · exact reaches_same _ rfl
    · rename_i k hk
      let told : Run η σ :=
        { r with session :=
          { r.session with trackers := r.session.trackers.insert id (k.reset (groupLength g r.session)).2 } }
      obtain ⟨t, sink, htold, hrun⟩ := perform_tellRows form id (k.reset (groupLength g r.session)).1 told
      show Reaches form clears [] r
        ((tellRows form id (k.reset (groupLength g r.session)).1 >>= fun _ => classify form).perform told) []
      rw [perform_bind, hrun]
      exact reaches_classify.after (.single (.rebuilt hg hk htold)) rfl (by simp)

end Action

/-! ### Operations -/

namespace Operation

/-- The operation may start a new list of hidden rows. -/
def clears : Operation → Bool
  | clear | save | navigate _ | start => true
  | _ => false

/-- Every operation goes through turns, and tells all of them. -/
theorem reaches (form : Form) (op : Operation) (s : Session η) (sink : σ) :
    Reaches form op.clears [] ⟨s, sink, []⟩ (op.perform form s sink) [] := by
  cases op
  case start => exact Action.reaches_return Action.reaches_start
  case classify => exact Action.reaches_return Action.reaches_classify
  case reapply => exact Action.reaches_return Action.reaches_reapply
  case apply m force => exact Action.reaches_return (Action.reaches_apply m force)
  case write e => exact Action.reaches_return (Action.reaches_write e (.host ..))
  case clear => exact Action.reaches_return Action.reaches_clear
  case discard => exact Action.reaches_return Action.reaches_discard
  case flush => exact Action.reaches_return Action.reaches_flush
  case navigate step => exact Action.reaches_return (Action.reaches_navigate step)
  case save => exact Action.reaches_return Action.reaches_save
  case addRow id => exact Action.reaches_return (Action.reaches_editRows id _ _)
  case removeRow id i => exact Action.reaches_return (Action.reaches_editRows id _ _)
  case resetGroup id => exact Action.reaches_return (Action.reaches_resetGroup id)

theorem turns (form : Form) (op : Operation) (s : Session η) (sink : σ) : ∃ ds,
    Turns form [] s (op.perform form s sink).2.trace ds [] (op.perform form s sink).2.session ∧
      (.cleared ∈ ds → op.clears = true) := by
  obtain ⟨ms, ds, htrace, hturns, hds⟩ := op.reaches form s sink
  rw [List.nil_append] at htrace
  have hnone : leftOver [] (op.perform form s sink).1 = [] := by cases (op.perform form s sink).1 <;> rfl
  rw [hnone] at hturns
  exact ⟨ds, htrace ▸ hturns, hds⟩

end Operation

end FormSession
