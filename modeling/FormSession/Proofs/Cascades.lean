import FormSession.Proofs.Batches
import FormSession.Proofs.Settling
import FormSession.Proofs.UsableForms

/-! # Flushes are bounded

Tasks of a batch can lead to more work, through corrections and through what is asked for with the events they tell, so
that a queue fills again while it is emptied. A flush takes no more than a limited number of batches for all that. It
ends once nothing waits, if that is after no more batches than the limit; otherwise it drops what the last of them
left to do, without beginning any of it (`flush_bounded`). It ends in no other way, unless a classification is asked for
while a batch is telling a pass. -/

namespace FormSession
variable {η σ : Type} {form : Form} {r r' : Run η σ}

/-- The run after everything that waits was dropped as one batch too many. -/
def Run.dropWaiting (r : Run η σ) : Run η σ where
  session := { r.session with queue := r.session.queue.handedOut }
  sink := r.sink
  trace := r.trace ++ [.dropped]

section Batches
variable [EditHook η] [Sink σ]

/-- Everything that waits is taken as a batch, and running its tasks ends like this. -/
def BatchEnds (form : Form) (r : Run η σ) (ended : Except SessionError Unit × Run η σ) : Prop :=
  ∃ batch queue, r.session.queue.takeBatch? = some (batch, queue) ∧
    (Action.runTasks form batch.tasks).perform { r with session := { r.session with queue } } = ended

/-- A number of batches are run one after the other, each of everything that waits then, and all tasks of each. -/
inductive BatchesInFull (form : Form) : Nat → Run η σ → Run η σ → Prop
  | none (r : Run η σ) : BatchesInFull form 0 r r
  | next {n r r' r''} (first : BatchEnds form r (.ok (), r')) (rest : BatchesInFull form n r' r'') :
    BatchesInFull form (n + 1) r r''

/-- How a flush ends that may run some more batches: nothing waits after one of them, or something waits after the last
    one and is dropped, or a batch fails. -/
inductive FlushEnds (form : Form) (left done : Nat) (r : Run η σ) : Except SessionError Nat × Run η σ → Prop
  | settled {n r'} (within : n ≤ left) (ran : BatchesInFull form n r r') (idle : r'.session.queue.waiting = []) :
    FlushEnds form left done r (.ok (done + n), r')
  | exceeded {last} (ran : BatchesInFull form left r last) (waiting : last.session.queue.waiting ≠ []) :
    FlushEnds form left done r (.error (.cascadeLimit form.schema.settings.maxBatches), last.dropWaiting)
  | refused {n last r'} (within : n < left) (ran : BatchesInFull form n r last)
    (failed : BatchEnds form last (.error .classificationRecursion, r')) :
    FlushEnds form left done r (.error .classificationRecursion, r')

namespace BatchEnds
variable {ended : Except SessionError Unit × Run η σ}

/-- A batch is run whenever something waits. -/
theorem of_waiting (form : Form) (h : r.session.queue.waiting ≠ []) : ∃ ended, BatchEnds form r ended :=
  ⟨_, _, _, TaskQueue.takeBatch?_of_waiting h, rfl⟩

theorem batchesTaken (h : BatchEnds form r ended) :
    ended.2.session.queue.batchesTaken = r.session.queue.batchesTaken + 1 := by
  obtain ⟨batch, queue, htaken, rfl⟩ := h
  obtain ⟨-, -, -, hcount⟩ :=
    @Action.store_runTasks η σ _ _ form batch.tasks { r with session := { r.session with queue } }
  exact hcount.trans (TaskQueue.batchesTaken_taken htaken)

end BatchEnds

theorem BatchesInFull.batchesTaken {n : Nat} (h : BatchesInFull form n r r') :
    r'.session.queue.batchesTaken = r.session.queue.batchesTaken + n := by
  induction h with
  | none => rfl
  | next first _ ih =>
    rw [ih, first.batchesTaken]
    omega

namespace Action

/-! ### Batches of a flush -/

/-- A flush runs a batch and goes on. -/
theorem perform_flushWithin_ran (left done : Nat) (h : BatchEnds form r (.ok (), r')) :
    (flushWithin form (left + 1) done).perform r = (flushWithin form left (done + 1)).perform r' := by
  obtain ⟨batch, queue, taken, hrun⟩ := h
  rw [perform_flushWithin_taken left done taken, perform_bind, hrun]

/-- A batch that fails ends the flush. -/
theorem perform_flushWithin_failed {e : SessionError} (left done : Nat) (h : BatchEnds form r (.error e, r')) :
    (flushWithin form (left + 1) done).perform r = (.error e, r') := by
  obtain ⟨batch, queue, taken, hrun⟩ := h
  rw [perform_flushWithin_taken left done taken, perform_bind, hrun]

theorem flushEnds (form : Form) (left done : Nat) (r : Run η σ) :
    FlushEnds form left done r ((flushWithin form left done).perform r) := by
  induction left generalizing r done with
  | zero =>
    by_cases idle : r.session.queue.waiting = []
    · rw [perform_flushWithin_idle idle]
      exact .settled (Nat.le_refl 0) (.none r) idle
    · rw [perform_flushWithin_spent done (TaskQueue.takeBatch?_of_waiting idle)]
      exact .exceeded (.none r) idle
  | succ left ih =>
    by_cases idle : r.session.queue.waiting = []
    · rw [perform_flushWithin_idle idle]
      exact .settled (Nat.zero_le _) (.none r) idle
    · obtain ⟨⟨e | u, r'⟩, hbatch⟩ := BatchEnds.of_waiting form idle
      · rw [perform_flushWithin_failed left done hbatch]
        obtain rfl : e = .classificationRecursion := by
          obtain ⟨batch, queue, -, hrun⟩ := hbatch
          exact onlyRecurses_runTasks batch.tasks _ e (congrArg Prod.fst hrun)
        exact .refused (Nat.zero_lt_succ left) (.none r) hbatch
      · rw [perform_flushWithin_ran left done hbatch]
        -- One batch was run, and the rest of the flush ends as it does from there.
        have hrest := ih (done + 1) r'
        generalize (flushWithin form left (done + 1)).perform r' = ended at hrest
        cases hrest with
        | @settled n r'' within ran idle =>
          have hcount : done + 1 + n = done + (n + 1) := by omega
          rw [hcount]
          exact .settled (Nat.succ_le_succ within) (.next hbatch ran) idle
        | exceeded ran waiting => exact .exceeded (.next hbatch ran) waiting
        | refused within ran failed => exact .refused (Nat.succ_lt_succ within) (.next hbatch ran) failed

/-- A flush ends well once nothing waits, also if no batch is left to run. -/
theorem perform_flushWithin_settled {n left : Nat} (ran : BatchesInFull form n r r') (within : n ≤ left)
    (idle : r'.session.queue.waiting = []) (done : Nat) :
    (flushWithin form left done).perform r = (.ok (done + n), r') := by
  induction ran generalizing left done with
  | none => exact perform_flushWithin_idle idle
  | next first _ ih =>
    obtain ⟨left, rfl⟩ := Nat.exists_eq_add_one_of_ne_zero (Nat.ne_zero_of_lt within)
    rw [perform_flushWithin_ran left done first, ih (Nat.le_of_succ_le_succ within) idle (done + 1), Nat.add_assoc,
      Nat.add_comm 1]

end Action

/-- Whatever the session, its hooks, the form and the receiver: a flush that ends well runs as many batches as it tells,
    no more than the limit, each in full, and nothing waits after it. A flush that exceeds the limit tells the limit and
    runs that many batches in full; what the last of them left to do is dropped, and the run is otherwise as that batch
    left it. The only other failure is a recursion in one of the batches within the limit. And whenever nothing waits
    after batches in full within the limit, the limit itself included, the flush ends well there. -/
theorem Operation.flush_bounded (form : Form) (s : Session η) (sink : σ) :
    let limit := form.schema.settings.maxBatches
    let begun : Run η σ := ⟨s, sink, []⟩
    (match flush.perform form s sink with
      | (.ok reply, r) => ∃ n ≤ limit, reply = .batches n ∧ BatchesInFull form n begun r ∧
          r.session.queue.batchesTaken = s.queue.batchesTaken + n ∧ r.session.queue.isIdle = true
      | (.error (.cascadeLimit batches), r) => batches = limit ∧ r.session.queue.isIdle = true ∧
          ∃ last, BatchesInFull form limit begun last ∧
            last.session.queue.batchesTaken = s.queue.batchesTaken + limit ∧
            last.session.queue.isIdle = false ∧ r = last.dropWaiting
      | (.error e, r) => e = .classificationRecursion ∧
          ∃ n < limit, ∃ last, BatchesInFull form n begun last ∧ BatchEnds form last (.error e, r)) ∧
      ∀ n ≤ limit, ∀ r, BatchesInFull form n begun r → r.session.queue.isIdle = true →
        flush.perform form s sink = (.ok (.batches n), r) := by
  intro limit begun
  have hunfold : flush.perform form s sink =
      (Action.flush form >>= fun n => pure (.batches n)).perform begun := rfl
  rw [hunfold, Action.perform_bind, Action.flush]
  refine ⟨?_, fun n within r ran idle => ?_⟩
  · have hends := Action.flushEnds form limit 0 begun
    generalize (Action.flushWithin form limit 0).perform begun = ended at hends
    cases hends with
    | @settled n r within ran idle =>
      rw [Nat.zero_add]
      exact ⟨n, within, rfl, ran, ran.batchesTaken, List.isEmpty_iff.mpr idle⟩
    | exceeded ran waiting =>
      refine ⟨rfl, rfl, _, ran, ran.batchesTaken, ?_, rfl⟩
      simpa [TaskQueue.isIdle] using waiting
    | refused within ran failed => exact ⟨rfl, _, within, _, ran, failed⟩
  · rw [Action.perform_flushWithin_settled ran within (List.isEmpty_iff.mp idle), Nat.zero_add]
    rfl

end Batches

/-! ### As many batches as are allowed -/

/-- The form of the guests when no more than some batches may be run in a row. -/
def guestSchema (limit : Nat) : Schema :=
  { guestForm.schema with settings := { guestForm.schema.settings with maxBatches := limit } }

/-- The form of the guests with a limit of three batches. -/
def threeBatchForm : Form := ⟨guestSchema 3, by decide +kernel, guestForm.classify⟩

/-- The form of the guests with a limit of two. -/
def twoBatchForm : Form := ⟨guestSchema 2, by decide +kernel, guestForm.classify⟩

/-- The flush that may run three batches. -/
def threeBatches : Except SessionError Reply × Run Empty SilentSink :=
  Operation.flush.perform threeBatchForm guestStarted.2.session ⟨⟩

/-- The flush that may run two of them. -/
def twoBatches : Except SessionError Reply × Run Empty SilentSink :=
  Operation.flush.perform twoBatchForm guestStarted.2.session ⟨⟩

/-- Taking a guest away leads to two more batches. A flush that may run three ends well after the third one, and a
    flush that may run two tells so and drops the third. -/
theorem flush_bounded_threeBatches :
    BatchesInFull threeBatchForm 3 ⟨guestStarted.2.session, ⟨⟩, []⟩ threeBatches.2 ∧
      threeBatches = (.ok (.batches 3), threeBatches.2) ∧
      twoBatches.1 = .error (.cascadeLimit 2) ∧ twoBatches.2.session.queue.isIdle = true ∧
      ∃ last, BatchesInFull twoBatchForm 2 ⟨guestStarted.2.session, ⟨⟩, []⟩ last ∧
        last.session.queue.isIdle = false ∧ twoBatches.2 = last.dropWaiting := by
  obtain ⟨hthree, hsettled⟩ := Operation.flush_bounded threeBatchForm guestStarted.2.session SilentSink.mk
  obtain ⟨htwo, -⟩ := Operation.flush_bounded twoBatchForm guestStarted.2.session SilentSink.mk
  have hreply : threeBatches = (.ok (.batches 3), threeBatches.2) := Prod.ext (by decide +kernel) rfl
  have hlimit : twoBatches = (.error (.cascadeLimit 2), twoBatches.2) := Prod.ext (by decide +kernel) rfl
  rw [← threeBatches, hreply] at hthree
  rw [← twoBatches, hlimit] at htwo
  obtain ⟨n, -, hn, hran, -, hidle⟩ := hthree
  cases hn
  obtain ⟨-, hdropped, last, hlast, -, hwaiting, hrun⟩ := htwo
  exact ⟨hran, hsettled 3 (Nat.le_refl 3) _ hran hidle, congrArg Prod.fst hlimit, hdropped, last, hlast, hwaiting, hrun⟩

end FormSession
