import FormSession.Proofs.Clearing
import FormSession.Proofs.DisplayedStep

/-! # Forms that can be used

A schema makes a form exactly if it is well-formed, and a session of that form starts: the step displayed first is
one of its steps, so that nothing can go wrong but that the receiver asks for a classification while it is told a
pass (`schema_usable_iff`). -/

namespace FormSession

/-! ### What can go wrong -/

namespace Action
variable {η σ α β : Type} {form : Form}

/-- The action fails in no other way than that a classification is asked for while a pass is told. -/
def OnlyRecurses (a : Action η σ α) : Prop :=
  ∀ r e, (a.perform r).1 = .error e → e = .classificationRecursion

theorem onlyRecurses_of_ok {a : Action η σ α} (h : ∀ r, ∃ x r', a.perform r = (.ok x, r')) : a.OnlyRecurses := by
  intro r e he
  obtain ⟨x, r', hrun⟩ := h r
  rw [hrun] at he
  cases he

theorem onlyRecurses_of_ends {a : Action η σ α} {x : Run η σ → α}
    (h : ∀ r, (a.perform r).1 = .ok (x r) ∨ (a.perform r).1 = .error .classificationRecursion) : a.OnlyRecurses := by
  intro r e he
  rcases h r with hok | hrefused
  · rw [hok] at he
    cases he
  · rw [hrefused] at he
    cases he
    rfl

theorem onlyRecurses_pure (x : α) : (pure x : Action η σ α).OnlyRecurses := onlyRecurses_of_ok fun r => ⟨x, r, rfl⟩

theorem onlyRecurses_session : (session : Action η σ (Session η)).OnlyRecurses :=
  onlyRecurses_of_ok fun r => ⟨r.session, r, rfl⟩

theorem onlyRecurses_update (f : Session η → Session η) : (update f : Action η σ Unit).OnlyRecurses :=
  onlyRecurses_of_ok fun _ => ⟨(), _, rfl⟩

theorem onlyRecurses_bind {a : Action η σ α} {f : α → Action η σ β} (ha : a.OnlyRecurses)
    (hf : ∀ x, (f x).OnlyRecurses) : (a >>= f).OnlyRecurses := by
  intro r e he
  rw [perform_bind] at he
  rcases hrun : a.perform r with ⟨e' | x, r'⟩
  · rw [hrun] at he
    cases he
    exact ha r e (congrArg Prod.fst hrun)
  · rw [hrun] at he
    exact hf x r' e he

section Values
variable [Sink σ]

theorem onlyRecurses_moveTrackers (move : Session η → RowTracker → List RowOp × RowTracker) :
    (moveTrackers form move : Action η σ Unit).OnlyRecurses :=
  onlyRecurses_of_ok fun r =>
    let ⟨_, _, _, hrun⟩ := perform_moveTrackers form move r
    ⟨(), _, hrun⟩

theorem onlyRecurses_classify : (classify form : Action η σ Unit).OnlyRecurses :=
  onlyRecurses_of_ends fun r => (updates_classify form r).2

theorem onlyRecurses_changeData (change : Store η → Option Update × Store η) :
    (changeData form change : Action η σ (Option Update)).OnlyRecurses :=
  onlyRecurses_of_ends fun r => (updates_changeData form change r).2

theorem onlyRecurses_enterGroups (groups : List String) : (enterGroups form groups : Action η σ Unit).OnlyRecurses :=
  onlyRecurses_of_ok fun r =>
    let ⟨r', hrun, _⟩ := perform_enterGroups form groups r
    ⟨(), r', hrun⟩

theorem onlyRecurses_arrive (step : String) (groups : List String) :
    (arrive form step groups : Action η σ Unit).OnlyRecurses :=
  onlyRecurses_bind (onlyRecurses_update _) fun _ => onlyRecurses_bind (onlyRecurses_enterGroups _) fun _ =>
    onlyRecurses_classify

variable [EditHook η]

theorem onlyRecurses_clear : (clear form : Action η σ (Option Update)).OnlyRecurses := by
  refine onlyRecurses_bind onlyRecurses_session fun s => onlyRecurses_bind (onlyRecurses_update _) fun _ => ?_
  split
  · exact onlyRecurses_pure none
  · exact onlyRecurses_changeData _

theorem onlyRecurses_runTask (task : Task) : (runTask form task : Action η σ Unit).OnlyRecurses := by
  cases task with
  | write e => exact onlyRecurses_bind (onlyRecurses_changeData _) fun _ => onlyRecurses_pure ()
  | classify => exact onlyRecurses_classify

/-- A batch fails only if a classification is asked for while it is telling a pass. -/
theorem onlyRecurses_runTasks (tasks : List Task) : (runTasks form tasks : Action η σ Unit).OnlyRecurses := by
  induction tasks with
  | nil => exact onlyRecurses_pure ()
  | cons task rest ih => exact onlyRecurses_bind (onlyRecurses_runTask task) fun _ => ih

theorem onlyRecurses_leave {step : String} (known : form.schema.hasStep step = true) :
    (leave form step : Action η σ Unit).OnlyRecurses := by
  unfold leave
  rw [known, Bool.not_true, if_neg Bool.false_ne_true]
  refine onlyRecurses_bind onlyRecurses_session fun s => ?_
  split
  · exact onlyRecurses_bind onlyRecurses_clear fun _ => onlyRecurses_pure ()
  · exact onlyRecurses_pure ()

/-- A step is unknown only if the schema does not declare it. -/
theorem onlyRecurses_navigate {step : String} (known : form.schema.hasStep step = true) :
    (navigate form step : Action η σ Unit).OnlyRecurses := by
  intro r e he
  rw [perform_navigate] at he
  exact onlyRecurses_bind (onlyRecurses_leave known) (fun _ => onlyRecurses_arrive step _) r e he

end Values

end Action

/-! ### The first step -/

/-- The step that a usable schema displays first is one of its steps. -/
theorem Schema.WellFormed.hasStep_of_first {s : Schema} (h : s.WellFormed) {id : String} (hid : s.firstStep? = some id) :
    s.hasStep id = true := by
  have hstep : ∃ step ∈ s.steps, step.id = id := by
    rw [firstStep?] at hid
    cases hinitial : s.settings.initialStep with
    | some first =>
      rw [hinitial] at hid
      obtain rfl : first = id := Option.some.inj hid
      exact h.initialStep first hinitial
    | none =>
      rw [hinitial] at hid
      obtain ⟨step, hhead, hid⟩ := Option.map_eq_some_iff.mp hid
      exact ⟨step, List.mem_of_mem_head? hhead, hid⟩
  simpa [hasStep] using hstep

section Start
variable {η σ : Type} [EditHook η] [Sink σ]

theorem Action.onlyRecurses_start (form : Form) : (start form : Action η σ Unit).OnlyRecurses := by
  refine onlyRecurses_bind (onlyRecurses_moveTrackers seed) fun _ => ?_
  split
  · rename_i step hfirst
    exact onlyRecurses_navigate ((Schema.problems_eq_nil_iff.mp form.valid).hasStep_of_first hfirst)
  · exact onlyRecurses_classify

/-- A session starts, or a classification is asked for while the first pass is told. -/
theorem Operation.start_ends (form : Form) (s : Session η) (sink : σ) :
    (start.perform form s sink).1 = .ok .done ∨ (start.perform form s sink).1 = .error .classificationRecursion := by
  rw [perform, action, Action.reply_return]
  cases hended : ((Action.start form).perform ⟨s, sink, []⟩).1 with
  | ok => exact Or.inl rfl
  | error e => exact Or.inr (congrArg _ (Action.onlyRecurses_start form _ e hended))

end Start

/-- A schema has no problems exactly if it is well-formed. Then, with any classifier, it makes a form, and every session
    of that form starts whatever its store and its receiver are, unless the receiver asks for a classification while it
    is told a pass. Any other schema is refused with all its problems. -/
theorem schema_usable_iff (schema : Schema) (classify : Classifier) :
    (schema.problems = [] ↔ schema.WellFormed) ∧ (∀ s, schema.validated = .ok s ↔ schema.WellFormed ∧ s = schema) ∧
      match Form.ofSchema schema classify with
      | .ok form => schema.WellFormed ∧ form.schema = schema ∧ form.classify = classify ∧
          ∀ {η σ : Type} [EditHook η] [Sink σ] (s : Session η) (sink : σ),
            (Operation.start.perform form s sink).1 = .ok .done ∨
              (Operation.start.perform form s sink).1 = .error .classificationRecursion
      | .error e => ¬schema.WellFormed ∧ e = .invalid schema.problems := by
  refine ⟨Schema.problems_eq_nil_iff, fun _ => Schema.validated_eq_ok_iff, ?_⟩
  rw [Form.ofSchema]
  split
  · rename_i hform
    split at hform
    · rename_i valid
      cases hform
      exact ⟨Schema.problems_eq_nil_iff.mp valid, rfl, rfl, Operation.start_ends _⟩
    · cases hform
  · rename_i hrefused
    split at hrefused
    · cases hrefused
    · rename_i invalid
      cases hrefused
      exact ⟨mt Schema.problems_eq_nil_iff.mpr invalid, rfl⟩

/-! ### A group that lists a field twice -/

/-- A form of two steps. The second one is displayed first, and shows one to four cars. -/
def tripSchema (fields : List String) : Schema :=
  { Schema.empty with
    settings := { Settings.standard with initialStep := some "cars" }
    steps := [⟨"who", ["name"]⟩, ⟨"cars", []⟩]
    groups := [⟨"cars", "cars", fields, 1, 4⟩] }

/-- The plate of a car is shown in every row. -/
def tripForm : Form where
  schema := tripSchema ["plate", "colour"]
  valid := by decide +kernel
  classify _ := (∅ : Classification).insert "plate" (.uniform true)

/-- The session of the trip before it is started. -/
def tripNew : Session Empty := .new tripForm (.ofCommitted ∅)

/-- The form starts, unless a classification is asked for when the first plate is shown. A schema that lists the plate
    twice makes no form. -/
theorem schema_usable_iff_plateTwice :
    (tripSchema ["plate", "colour"]).WellFormed ∧
      (Operation.start.perform tripForm tripNew SilentSink.mk).1 = .ok .done ∧
      (Operation.start.perform tripForm tripNew (⟨[[], [.classify]]⟩ : ScriptedSink)).1 =
        .error .classificationRecursion ∧
      ¬(tripSchema ["plate", "colour", "plate"]).WellFormed ∧
      (tripSchema ["plate", "colour", "plate"]).problems = [.fieldInTwoGroups "cars" "plate"] := by
  obtain ⟨-, -, hform⟩ := schema_usable_iff (tripSchema ["plate", "colour"]) tripForm.classify
  obtain ⟨htwice, -⟩ := schema_usable_iff (tripSchema ["plate", "colour", "plate"]) tripForm.classify
  have hmade : Form.ofSchema (tripSchema ["plate", "colour"]) tripForm.classify = .ok tripForm := dif_pos tripForm.valid
  rw [hmade] at hform
  obtain ⟨hwellFormed, -, -, hstarts⟩ := hform
  exact ⟨hwellFormed, (hstarts tripNew SilentSink.mk).resolve_right (by decide +kernel),
    (hstarts tripNew (⟨[[], [.classify]]⟩ : ScriptedSink)).resolve_left (by decide +kernel),
    mt htwice.mpr (by decide +kernel), by decide +kernel⟩

end FormSession
