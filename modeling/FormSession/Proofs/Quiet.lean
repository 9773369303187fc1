import FormSession.Proofs.Operations

/-! # Quiet receivers

A receiver that asks for nothing queues nothing and refuses no pass. What an action makes of a session is then
said by the session alone: `Session.classified` for a classification, `Session.written` for an edit, `Session.ran`
for a task of a batch. None of these actions fails, and a batch of waiting work runs to its end
(`perform_flushWithin`). -/

namespace FormSession
open FormSession.Action (followEdit)

/-- Nothing is asked for at the moment. -/
def Moment.quiet : Moment → Bool
  | .effect (.told _ _ requests) => requests.isEmpty
  | _ => true

/-- Nothing was asked for with any event told. -/
def Quiet (ms : List Moment) : Prop := ∀ m ∈ ms, m.quiet = true

instance (ms : List Moment) : Decidable (Quiet ms) := inferInstanceAs (Decidable (∀ m ∈ ms, m.quiet = true))

theorem Quiet.left {ms ms' : List Moment} (h : Quiet (ms ++ ms')) : Quiet ms := fun m hm =>
  h m (List.mem_append_left _ hm)

theorem Quiet.right {ms ms' : List Moment} (h : Quiet (ms ++ ms')) : Quiet ms' := fun m hm =>
  h m (List.mem_append_right _ hm)

theorem Quiet.requests {t : Told} {phase : Phase} (h : Quiet (t.moments phase)) : ∀ x ∈ t, x.2 = [] := fun x hx =>
  List.isEmpty_iff.mp (h _ (List.mem_map.mpr ⟨x, hx, rfl⟩))

theorem Quiet.queued {t : Told} {phase : Phase} (h : Quiet (t.moments phase)) (q : TaskQueue Task) : t.queued q = q := by
  have hnone := h.requests
  clear h
  induction t generalizing q with
  | nil => rfl
  | cons x rest ih =>
    obtain ⟨hx, hrest⟩ := List.forall_mem_cons.mp hnone
    show Told.queued rest (q.accept x.2) = q
    rw [hx]
    exact ih q hrest

/-! ### Sessions with a quiet receiver -/

/-- The queue once everything that waits was handed out. -/
def TaskQueue.handedOut {α : Type} (q : TaskQueue α) : TaskQueue α := ⟨[], q.batchesTaken + 1⟩

theorem TaskQueue.takeBatch?_of_waiting {α : Type} {q : TaskQueue α} (h : q.waiting ≠ []) :
    q.takeBatch? = some (⟨q.batchesTaken + 1, q.waiting.map (·.task)⟩, q.handedOut) := by
  simp [takeBatch?, isIdle, handedOut, h]

theorem TaskQueue.takeBatch?_of_idle {α : Type} {q : TaskQueue α} (h : q.waiting = []) : q.takeBatch? = none := by
  simp [takeBatch?, isIdle, h]

namespace Session
variable {η : Type}

/-- The session after a classification was applied, if nothing was asked for. -/
def classified (form : Form) (s : Session η) (m : Classification) (force : Bool) : Session η :=
  { s with
    visibility := (s.passAt form m force).2
    queue := s.queue.corrected (s.passAt form m force).1 }

/-- The session after its values were classified, if nothing was asked for. -/
def reclassified (form : Form) (s : Session η) : Session η := s.classified form (form.classify s.store.view) false

variable [EditHook η]

/-- The session after an edit was written, if nothing was asked for: the rows follow, and the values are classified
    anew. -/
def written (form : Form) (s : Session η) (e : FormEdit) : Session η :=
  match s.store.stage e with
  | (none, store) => { s with store }
  | (some u, store) => (({ s with store } : Session η).moved form (followEdit u.edit) []).reclassified form

/-- The session after a task was run, if nothing was asked for. -/
def ran (form : Form) (s : Session η) : Task → Session η
  | .write e => s.written form e
  | .classify => s.reclassified form

/-- The session after everything that waits was run as one batch, if nothing was asked for. -/
def afterBatch (form : Form) (s : Session η) : Session η :=
  (s.queue.waiting.map (·.task)).foldl (ran form) { s with queue := s.queue.handedOut }

/-- The session after a number of batches, each of everything that waited then. -/
def afterBatches (form : Form) : Nat → Session η → Session η
  | 0, s => s
  | n + 1, s => afterBatches form n (s.afterBatch form)

end Session

/-! ### Turns with a quiet receiver -/

/-- Events told to a receiver that asks for nothing. -/
def Told.silent (events : List Event) : Told := events.map (·, [])

theorem Told.events_silent (events : List Event) : (silent events).events = events := by
  simp [silent, Told.events, Function.comp_def]

theorem Told.queued_silent (events : List Event) (q : TaskQueue Task) : (silent events).queued q = q := by
  have quiet : Quiet ((silent events).moments .idle) := by
    intro m hm
    simp only [silent, Told.moments, List.map_map, List.mem_map] at hm
    obtain ⟨e, -, rfl⟩ := hm
    rfl
  exact quiet.queued q

section Turns
variable {η : Type} [EditHook η] {form : Form} {s : Session η} {P : Session η → Prop}

theorem Session.keep_classified (step : ∀ {b s ms ds b' s'}, Turn form b s ms ds b' s' → P s → P s') (h : P s)
    (m : Classification) (force : Bool) : P (s.classified form m force) := by
  have hturn : Turn form [] s _ _ [] _ := .passed m force (Told.events_silent _) (by simp [Told.silent])
  have hnext := step hturn h
  rwa [Told.queued_silent] at hnext

theorem Session.keep_ran (step : ∀ {b s ms ds b' s'}, Turn form b s ms ds b' s' → P s → P s') (h : P s) (task : Task) :
    P (s.ran form task) := by
  cases task with
  | classify => exact keep_classified step h _ _
  | write e =>
    rw [ran, written]
    rcases hstage : s.store.stage e with ⟨_ | u, store⟩
    · exact step (.unchanged (b := []) (.stage e) hstage (.host ..)) h
    · have hturn : Turn form [] s _ _ [] _ := .changed (.stage e) hstage (.host ..) (Told.events_silent _)
      have hmoved := step hturn h
      rw [Session.moved, Told.queued_silent] at hmoved
      exact keep_classified step hmoved _ _

end Turns

/-! ### Actions with a quiet receiver -/

theorem Reaches.trace_prefix {η σ α : Type} [EditHook η] {form : Form} {b b' : List Task} {r : Run η σ}
    {p : Except SessionError α × Run η σ} (h : Reaches form true b r p b') : r.trace <+: p.2.trace := by
  obtain ⟨ms, -, htrace, -⟩ := h
  exact ⟨ms, htrace.symm⟩

section Quiet
variable {η σ α β : Type} {form : Form} {r : Run η σ}

/-- An action ends well in a session, and tells what it did after what was told before. -/
def EndsIn (r : Run η σ) (s : Session η) (p : Except SessionError α × Run η σ) : Prop :=
  ∃ x sink ms, p = (.ok x, ⟨s, sink, r.trace ++ ms⟩)

theorem EndsIn.bind {a : Action η σ α} {f : α → Action η σ β} {s t : Session η} (ha : EndsIn r s (a.perform r))
    (hf : ∀ x r', a.perform r = (.ok x, r') → r'.session = s → EndsIn r' t ((f x).perform r')) :
    EndsIn r t ((a >>= f).perform r) := by
  obtain ⟨x, sink, ms, hp⟩ := ha
  obtain ⟨y, sink', ms', hp'⟩ := hf x _ hp rfl
  refine ⟨y, sink', ms ++ ms', ?_⟩
  rw [Action.perform_bind, hp]
  show (f x).perform _ = _
  rw [hp', List.append_assoc]

theorem EndsIn.return {a : Action η σ α} {s : Session η} (ha : EndsIn r s (a.perform r)) (f : α → β) :
    EndsIn r s ((a >>= fun x => pure (f x)).perform r) :=
  ha.bind fun x r' _ hs => ⟨f x, r'.sink, [], by simp [hs.symm]⟩

theorem Quiet.of_bind {a : Action η σ α} {f : α → Action η σ β} (h : Quiet ((a >>= f).perform r).2.trace)
    (hf : ∀ x r', r'.trace <+: ((f x).perform r').2.trace) : Quiet (a.perform r).2.trace := by
  rw [Action.perform_bind] at h
  rcases hp : a.perform r with ⟨x | x, r'⟩
  · rwa [hp] at h
  · rw [hp] at h
    obtain ⟨ms, hms⟩ := hf x r'
    have hquiet : Quiet ((f x).perform r').2.trace := h
    rw [← hms] at hquiet
    exact hquiet.left

theorem Quiet.bind_right {a : Action η σ α} {f : α → Action η σ β} {x : α} {r' : Run η σ}
    (h : Quiet ((a >>= f).perform r).2.trace) (ha : a.perform r = (.ok x, r')) : Quiet ((f x).perform r').2.trace := by
  rwa [Action.perform_bind, ha] at h

/-- A quiet receiver changes nothing of how the rows of the groups move. -/
theorem Session.moved_quiet {t : Told} {phase : Phase} (quiet : Quiet (t.moments phase))
    (move : Session η → RowTracker → List RowOp × RowTracker) (s : Session η) :
    s.moved form move t = s.moved form move [] := by
  rw [Session.moved, quiet.queued]
  rfl

namespace Action
variable [Sink σ]

theorem ends_apply {m : Classification} {force : Bool} (quiet : Quiet ((apply form m force).perform r).2.trace) :
    EndsIn r (r.session.classified form m force) ((apply form m force).perform r) := by
  rcases perform_apply m force r with ⟨t, sink, -, -, hrun⟩ | ⟨t, last, sink, rest, -, -, hlast, hrun⟩
  · rw [hrun] at quiet ⊢
    have hqueue : t.queued r.session.queue = r.session.queue := quiet.right.right.queued _
    refine ⟨(), sink, r.session.resolvedAt form m force ++ t.moments .applying, ?_⟩
    rw [passed, hqueue]
    rfl
  · rw [hrun] at quiet
    have hnone : last.2 = [] := quiet.right.right.requests last (by simp)
    rw [hnone] at hlast
    cases hlast

theorem ends_classify (quiet : Quiet ((classify form).perform r).2.trace) :
    EndsIn r (r.session.reclassified form) ((classify form).perform r) := by
  rw [classify, perform_bind, perform_session] at quiet ⊢
  exact ends_apply quiet

variable [EditHook η]

theorem ends_write {e : FormEdit} (quiet : Quiet ((write form e).perform r).2.trace) :
    EndsIn r (r.session.written form e) ((write form e).perform r) := by
  rw [write] at quiet ⊢
  rcases perform_changeData form (·.stage e) r with ⟨store, hstage, hrun⟩ | ⟨u, store, t, sink, hstage, -, hrun⟩
  · rw [hrun, Session.written, hstage]
    exact ⟨none, r.sink, [], by simp⟩
  · rw [hrun, run_return] at quiet
    obtain ⟨later, hlater⟩ : (followed form u store t sink r).trace <+:
        ((classify form).perform (followed form u store t sink r)).2.trace :=
      Reaches.trace_prefix (b := []) reaches_classify
    have hmoves : Quiet (t.moments .idle) := by
      have hquiet := quiet
      rw [← hlater] at hquiet
      exact hquiet.left.right
    have hsession : (followed form u store t sink r).session =
        ({ r.session with store } : Session η).moved form (followEdit u.edit) [] := Session.moved_quiet hmoves ..
    obtain ⟨x, sink', ms, hend⟩ := (ends_classify quiet).return fun _ => some u
    rw [hrun, hend, hsession, Session.written, hstage]
    refine ⟨x, sink', .effect (.published u) :: t.moments .idle ++ ms, ?_⟩
    rw [followed, List.append_assoc, List.append_assoc, List.singleton_append, List.cons_append]

theorem ends_runTask {task : Task} (quiet : Quiet ((runTask form task).perform r).2.trace) :
    EndsIn r (r.session.ran form task) ((runTask form task).perform r) := by
  cases task with
  | write e =>
    have hwrite : Quiet ((write form e).perform r).2.trace := by
      rw [← run_return (write form e) (fun _ => ())]
      exact quiet
    exact (ends_write hwrite).return _
  | classify => exact ends_classify quiet

theorem ends_runTasks {tasks : List Task} (quiet : Quiet ((runTasks form tasks).perform r).2.trace) :
    EndsIn r (tasks.foldl (Session.ran form) r.session) ((runTasks form tasks).perform r) := by
  induction tasks generalizing r with
  | nil => exact ⟨(), r.sink, [], by simp [runTasks]⟩
  | cons task rest ih =>
    rw [runTasks] at quiet ⊢
    have hfirst : Quiet ((runTask form task).perform r).2.trace :=
      quiet.of_bind fun _ r' => Reaches.trace_prefix (reaches_runTasks rest)
    refine (ends_runTask hfirst).bind fun x r' hx hs => ?_
    rw [List.foldl_cons, ← hs]
    exact ih (quiet.bind_right hx)

/-! ### Flushes -/

theorem perform_flushWithin_idle {left done : Nat} (idle : r.session.queue.waiting = []) :
    (flushWithin form left done).perform r = (.ok done, r) :=
  perform_flushWithin_none (TaskQueue.takeBatch?_of_idle idle)

/-- What waits is run as a batch, and then the flush goes on. -/
theorem perform_flushWithin_waiting {left done : Nat} (waiting : r.session.queue.waiting ≠ [])
    (quiet : Quiet ((flushWithin form (left + 1) done).perform r).2.trace) : ∃ r', r'.session = r.session.afterBatch form ∧
      (flushWithin form (left + 1) done).perform r = (flushWithin form left (done + 1)).perform r' := by
  rw [perform_flushWithin_taken left done (TaskQueue.takeBatch?_of_waiting waiting)] at quiet ⊢
  have hbatch := quiet.of_bind fun _ r' => Reaches.trace_prefix (reaches_flushWithin left (done + 1))
  obtain ⟨x, sink, ms, hrun⟩ := ends_runTasks hbatch
  rw [perform_bind, hrun]
  exact ⟨_, rfl, rfl⟩

/-- A quiet flush runs batches until nothing waits, or until no batch is left to run. -/
theorem perform_flushWithin {left done : Nat} (quiet : Quiet ((flushWithin form left done).perform r).2.trace) :
    (∃ n ≤ left, (r.session.afterBatches form n).queue.waiting = [] ∧
        (∀ i < n, (r.session.afterBatches form i).queue.waiting ≠ []) ∧
        ((flushWithin form left done).perform r).1 = .ok (done + n) ∧
        ((flushWithin form left done).perform r).2.session = r.session.afterBatches form n) ∨
      (∀ i ≤ left, (r.session.afterBatches form i).queue.waiting ≠ []) ∧
        ((flushWithin form left done).perform r).1 = .error (.cascadeLimit form.schema.settings.maxBatches) := by
  induction left generalizing r done with
  | zero =>
    by_cases idle : r.session.queue.waiting = []
    · rw [perform_flushWithin_idle idle]
      exact Or.inl ⟨0, Nat.le_refl 0, idle, by simp, rfl, rfl⟩
    · refine Or.inr ⟨fun i hi => by rwa [Nat.le_zero.mp hi], ?_⟩
      rw [perform_flushWithin_spent done (TaskQueue.takeBatch?_of_waiting idle)]
  | succ left ih =>
    by_cases idle : r.session.queue.waiting = []
    · rw [perform_flushWithin_idle idle]
      exact Or.inl ⟨0, Nat.zero_le _, idle, by simp, rfl, rfl⟩
    · -- One batch is run, and the rest is the flush of the session after it with one batch less.
      obtain ⟨r', hsession, hrun⟩ := perform_flushWithin_waiting idle quiet
      have hrest := ih (hrun ▸ quiet)
      rw [hsession] at hrest
      rw [hrun]
      rcases hrest with ⟨n, hn, hidle, hbefore, hreply, hend⟩ | ⟨hnever, herror⟩
      · refine Or.inl ⟨n + 1, Nat.succ_le_succ hn, hidle, fun i hi => ?_, ?_, hend⟩
        · cases i with
          | zero => exact idle
          | succ i => exact hbefore i (Nat.lt_of_succ_lt_succ hi)
        · rw [hreply, Nat.add_right_comm, Nat.add_assoc]
      · refine Or.inr ⟨fun i hi => ?_, herror⟩
        cases i with
        | zero => exact idle
        | succ i => exact hnever i (Nat.le_of_succ_le_succ hi)

end Action

theorem Operation.perform_flush [EditHook η] [Sink σ] {s : Session η} {sink : σ}
    (quiet : Quiet (flush.perform form s sink).2.trace) :
    (∃ n ≤ form.schema.settings.maxBatches, (s.afterBatches form n).queue.waiting = [] ∧
        (∀ i < n, (s.afterBatches form i).queue.waiting ≠ []) ∧ (flush.perform form s sink).1 = .ok (.batches n) ∧
        (flush.perform form s sink).2.session = s.afterBatches form n) ∨
      (∀ i ≤ form.schema.settings.maxBatches, (s.afterBatches form i).queue.waiting ≠ []) ∧
        (flush.perform form s sink).1 = .error (.cascadeLimit form.schema.settings.maxBatches) := by
  have hunfold : flush.perform form s sink =
      (Action.flush form >>= fun n => pure (.batches n)).perform ⟨s, sink, []⟩ := rfl
  rw [hunfold, Action.run_return] at quiet
  rw [hunfold, Action.run_return, Action.reply_return]
  rcases Action.perform_flushWithin quiet with ⟨n, hn, hidle, hbefore, hreply, hend⟩ | ⟨hnever, herror⟩
  · rw [Nat.zero_add] at hreply
    exact Or.inl ⟨n, hn, hidle, hbefore, congrArg (Except.map Reply.batches) hreply, hend⟩
  · exact Or.inr ⟨hnever, congrArg (Except.map Reply.batches) herror⟩

end Quiet

end FormSession
