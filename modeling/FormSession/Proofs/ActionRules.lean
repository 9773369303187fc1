import FormSession.Proofs.Operations

/-! # Rules of actions

A rule says which runs an action may lead to from a run, and how it may end there. All actions are made of a few
steps: what is known of the session changes and events are told outside a pass, the store changes, a
classification is applied, waiting work is dropped. A rule that these steps keep, and that holds of two actions one
after the other if it holds of each, is followed by every action (`ActionRule`), and by every operation if it also
allows a commit (`Operation.follows`). -/

namespace FormSession

/-- The error that an action ended with, if it did not end well. -/
def failure? {α : Type} : Except SessionError α → Option SessionError
  | .ok _ => none
  | .error e => some e

section Follows
variable {η σ α β : Type} {R : Run η σ → Option SessionError → Run η σ → Prop}

/-- An action leads from every run to one that a rule allows. -/
def Action.Follows (R : Run η σ → Option SessionError → Run η σ → Prop) (a : Action η σ α) : Prop :=
  ∀ r, R r (failure? (a.perform r).1) (a.perform r).2

end Follows

/-- A rule that the steps of which actions are made keep. -/
structure ActionRule {η σ : Type} [EditHook η] [Sink σ] (form : Form)
    (R : Run η σ → Option SessionError → Run η σ → Prop) : Prop where
  still : ∀ r, R r none r
  /-- The first of two actions ended well, and the second one as it did. -/
  trans : ∀ {r r' r'' e}, R r none r' → R r' e r'' → R r e r''
  /-- The host named a step that the form does not have. -/
  noStep : ∀ r step, R r (some (.unknownStep step)) r
  noGroup : ∀ r group, R r (some (.unknownGroup group)) r
  /-- Events are told outside a pass, and no value changes. -/
  told : ∀ r s (t : Told) sink, s.store = r.session.store → R r none ⟨s, sink, r.trace ++ t.moments .idle⟩
  changed : ∀ c, (Action.changeStore (·.change c) : Action η σ _).Follows R
  applied : ∀ m force, (Action.apply form m force).Follows R
  /-- Everything that waited is dropped. -/
  dropped : ∀ r queue batches, R r (some (.cascadeLimit batches))
    { r with
      session := { r.session with queue }
      trace := r.trace ++ [.dropped] }

namespace ActionRule
open FormSession.Action
variable {η σ α β : Type} [EditHook η] [Sink σ] {form : Form} {R : Run η σ → Option SessionError → Run η σ → Prop}
  {a : Action η σ α} {f : α → Action η σ β}

/-! ### Steps -/

theorem pure (rule : ActionRule form R) (x : α) : (pure x : Action η σ α).Follows R := rule.still

theorem bind (rule : ActionRule form R) (ha : a.Follows R) (hf : ∀ x, (f x).Follows R) : (a >>= f).Follows R := by
  intro r
  have hfirst := ha r
  rw [perform_bind]
  rcases hp : a.perform r with ⟨x | x, r'⟩
  · rw [hp] at hfirst
    exact hfirst
  · rw [hp] at hfirst
    exact rule.trans hfirst (hf x r')

theorem session (rule : ActionRule form R) {f : Session η → Action η σ β} (hf : ∀ s, (f s).Follows R) :
    (Action.session >>= f).Follows R :=
  rule.bind rule.still hf

theorem update (rule : ActionRule form R) {f : Session η → Session η} (hf : ∀ s, (f s).store = s.store) :
    (Action.update f : Action η σ Unit).Follows R := by
  intro r
  have hstill := rule.told r (f r.session) [] r.sink (hf r.session)
  rwa [show r.trace ++ Told.moments [] .idle = r.trace from List.append_nil r.trace] at hstill

theorem tellRows (rule : ActionRule form R) (group : String) (ops : List RowOp) :
    (Action.tellRows form group ops).Follows R := by
  intro r
  obtain ⟨t, sink, -, hrun⟩ := perform_tellRows form group ops r
  rw [hrun]
  exact rule.told r _ t sink rfl

theorem moveTrackers (rule : ActionRule form R) (move : Session η → RowTracker → List RowOp × RowTracker) :
    (Action.moveTrackers form move).Follows R := by
  intro r
  obtain ⟨t, sink, -, hrun⟩ := perform_moveTrackers form move r
  rw [hrun]
  exact rule.told r _ t sink rfl

/-! ### Values and passes -/

theorem classify (rule : ActionRule form R) : (Action.classify form).Follows R :=
  rule.session fun _ => rule.applied _ _

theorem reapply (rule : ActionRule form R) : (Action.reapply form).Follows R :=
  rule.session fun _ => rule.applied _ _

theorem changeData (rule : ActionRule form R) (c : StoreChange) : (Action.changeData form (·.change c)).Follows R := by
  refine rule.bind (rule.changed c) fun u => ?_
  cases u with
  | none => exact rule.pure none
  | some u =>
    have hfollowed : (followUpdate form u : Action η σ Unit).Follows R :=
      rule.bind (rule.moveTrackers _) fun _ => rule.classify
    exact rule.bind hfollowed fun _ => rule.pure _

theorem write (rule : ActionRule form R) (e : FormEdit) : (Action.write form e).Follows R :=
  rule.changeData (.stage e)

theorem discard (rule : ActionRule form R) : (Action.discard form).Follows R :=
  rule.changeData .revert

theorem clear (rule : ActionRule form R) : (Action.clear form).Follows R := by
  refine rule.session fun s => rule.bind (rule.update fun _ => rfl) fun _ => ?_
  split
  · exact rule.pure none
  · exact rule.write _

/-! ### Waiting work -/

theorem runTask (rule : ActionRule form R) (task : Task) : (Action.runTask form task).Follows R := by
  cases task with
  | write e => exact rule.bind (rule.write e) fun _ => rule.pure ()
  | classify => exact rule.classify

theorem runTasks (rule : ActionRule form R) (tasks : List Task) : (Action.runTasks form tasks).Follows R := by
  induction tasks with
  | nil => exact rule.pure ()
  | cons task rest ih => exact rule.bind (rule.runTask task) fun _ => ih

theorem flushWithin (rule : ActionRule form R) (left done : Nat) : (Action.flushWithin form left done).Follows R := by
  induction left generalizing done with
  | zero =>
    rw [Action.flushWithin]
    intro r
    rw [perform_bind, perform_session]
    dsimp only
    split
    · exact rule.still r
    · exact rule.dropped r _ _
  | succ left ih =>
    rw [Action.flushWithin]
    refine rule.session fun s => ?_
    split
    · exact rule.pure done
    · exact rule.bind (rule.update fun _ => rfl) fun _ => rule.bind (rule.runTasks _) fun _ => ih (done + 1)

theorem flush (rule : ActionRule form R) : (Action.flush form).Follows R := rule.flushWithin _ _

/-! ### Steps of the form -/

theorem enterGroup (rule : ActionRule form R) (group : String) : (Action.enterGroup form group).Follows R := by
  refine rule.session fun s => ?_
  split
  · exact rule.pure ()
  · exact rule.bind (rule.update fun _ => rfl) fun _ => rule.tellRows _ _

theorem enterGroups (rule : ActionRule form R) (groups : List String) :
    (Action.enterGroups form groups).Follows R := by
  induction groups with
  | nil => exact rule.pure ()
  | cons group rest ih => exact rule.bind (rule.enterGroup group) fun _ => ih

theorem navigate (rule : ActionRule form R) (step : String) : (Action.navigate form step).Follows R := by
  have hdisplay : ∀ groups, (do
      Action.update (Session.display form step)
      Action.enterGroups form groups
      Action.classify form : Action η σ Unit).Follows R := fun groups =>
    rule.bind (rule.update fun _ => rfl) fun _ => rule.bind (rule.enterGroups groups) fun _ => rule.classify
  rw [Action.navigate]
  by_cases hstep : form.schema.hasStep step = true
  · simp only [hstep, Bool.not_true, Bool.false_eq_true, ↓reduceIte]
    refine rule.session fun s => ?_
    split
    · exact rule.bind rule.clear fun _ => hdisplay _
    · exact hdisplay _
  · simp only [hstep, Bool.not_false, ↓reduceIte]
    exact fun r => rule.noStep r step

theorem start (rule : ActionRule form R) : (Action.start form).Follows R := by
  refine rule.bind (rule.moveTrackers _) fun _ => ?_
  split
  · exact rule.navigate _
  · exact rule.classify

/-- A save follows a rule that allows a commit. -/
theorem save (rule : ActionRule form R)
    (committed : ∀ r, R r none { r with session := { r.session with store := r.session.store.commit.2 } }) :
    (Action.save form).Follows R := by
  refine rule.bind rule.clear fun _ => rule.bind rule.flush fun _ r => ?_
  exact committed r

/-! ### Rows of a group -/

theorem group (rule : ActionRule form R) (id : String) : (Action.group form id).Follows R := by
  rw [Action.group]
  split
  · exact rule.pure _
  · exact fun r => rule.noGroup r id

theorem editRows (rule : ActionRule form R) (id : String) (allowed : RowGroup → Session η → Bool)
    (edit : RowGroup → Session η → FormEdit) : (Action.editRows form id allowed edit).Follows R := by
  refine rule.bind (rule.group id) fun g => rule.session fun s => ?_
  split
  · exact rule.bind (rule.write _) fun _ => rule.pure true
  · exact rule.pure false

theorem resetGroup (rule : ActionRule form R) (id : String) : (Action.resetGroup form id).Follows R := by
  refine rule.bind (rule.group id) fun g => rule.session fun s => ?_
  split
  · exact fun r => rule.noGroup r id
  · exact rule.bind (rule.update fun _ => rfl) fun _ => rule.bind (rule.tellRows _ _) fun _ => rule.classify

end ActionRule

/-! ### Operations -/

/-- Every operation follows a rule of actions, and a save does if the rule allows a commit. -/
theorem Operation.follows {η σ : Type} [EditHook η] [Sink σ] {form : Form}
    {R : Run η σ → Option SessionError → Run η σ → Prop} (rule : ActionRule form R) (op : Operation)
    (committed : op = .save →
      ∀ r, R r none { r with session := { r.session with store := r.session.store.commit.2 } })
    (s : Session η) (sink : σ) :
    R ⟨s, sink, []⟩ (failure? (op.perform form s sink).1) (op.perform form s sink).2 := by
  have reply : ∀ {α : Type} {a : Action η σ α} {f : α → Reply}, a.Follows R →
      (a >>= fun x => Pure.pure (f x)).Follows R := fun ha => rule.bind ha fun _ => rule.pure _
  have hfollows : (op.action form).Follows R := by
    cases op with
    | start => exact reply rule.start
    | classify => exact reply rule.classify
    | reapply => exact reply rule.reapply
    | apply m force => exact reply (rule.applied m force)
    | write e => exact reply (rule.write e)
    | clear => exact reply rule.clear
    | discard => exact reply rule.discard
    | flush => exact reply rule.flush
    | navigate step => exact reply (rule.navigate step)
    | save => exact reply (rule.save (committed rfl))
    | addRow id => exact reply (rule.editRows id _ _)
    | removeRow id i => exact reply (rule.editRows id _ _)
    | resetGroup id => exact reply (rule.resetGroup id)
  exact hfollows ⟨s, sink, []⟩

end FormSession
