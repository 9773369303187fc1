import FormSession.Schema.Validation
import FormSession.Session.Event
import FormSession.TaskQueue

/-! # Sessions

A session is the state of one form being filled in: the values, what the display was told, the rows of
each group, the step displayed, and the work that waits. What does not change in a session, the schema and
the classifier, is its form.

An operation of a session is an action on a run: the session, the receiver of its events, and the trace of
what it did. An action that fails leaves the run as it is at that point. -/

namespace FormSession

/-- Tells for the values of a form which classes and fields match. -/
abbrev Classifier := FieldValues → Classification

/-- A form: a schema that can be used, and a classifier. -/
structure Form where
  schema : Schema
  valid : schema.problems = []
  classify : Classifier

namespace Form

/-- The form of a schema, if the schema can be used. -/
def ofSchema (schema : Schema) (classify : Classifier) : Except SchemaError Form :=
  if valid : schema.problems = [] then .ok ⟨schema, valid, classify⟩
  else .error (.invalid schema.problems)

/-- The rules of the fields of a form. -/
def rules (form : Form) : FieldRules :=
  ⟨form.schema.registry, form.schema.settings.naValue⟩

end Form

/-- Work that waits. -/
inductive Task where
  | write (edit : FormEdit)
  | classify
  deriving DecidableEq

namespace Task

/-- The key of the one classification that may wait. -/
def classifyKey : String := "classify"

end Task

/-- What can go wrong in a session. -/
inductive SessionError where
  /-- A classification was asked for while a pass was being told. -/
  | classificationRecursion
  /-- Waiting work led to more work for too many batches in a row. -/
  | cascadeLimit (batches : Nat)
  | unknownGroup (group : String)
  | unknownStep (step : String)
  deriving DecidableEq, Repr

namespace SessionError

/-- The text of an error. -/
def message : SessionError → String
  | classificationRecursion => "classification recursion"
  | cascadeLimit n => "deferred work did not settle after " ++ toString n ++ " batches"
  | unknownGroup g => "unknown group: " ++ g
  | unknownStep s => "unknown step: " ++ s

end SessionError

/-- The state of a form being filled in. -/
structure Session (η : Type) where
  store : Store η
  visibility : Visibility
  /-- The rows of each group. -/
  trackers : NameMap RowTracker
  activeStep : Option String
  /-- The fields shown on the displayed step alone. -/
  activeFields : NameSet
  queue : TaskQueue Task

namespace Session

variable {η : Type}

/-- The trackers of the groups of a schema, none of which is displayed. -/
def newTrackers (schema : Schema) : NameMap RowTracker :=
  schema.groups.foldl (fun m g =>
    match g.lengthField? with
    | some field => m.insert g.id (.new field ⟨g.minRows, g.maxRows⟩)
    | none => m) ∅

/-- A session of a form that has not started yet. -/
def new (form : Form) (store : Store η) : Session η where
  store := store
  visibility := .empty
  trackers := newTrackers form.schema
  activeStep := none
  activeFields := ∅
  queue := .empty

/-- The number of rows shown for a field, if it belongs to a displayed group. -/
def rendered? (form : Form) (s : Session η) (field : String) : Option Nat := do
  let group ← form.schema.groupOf? field
  let tracker ← s.trackers[group.id]?
  if tracker.active then some tracker.count else none

/-- What a pass looks up in a session. -/
def passContext (form : Form) (s : Session η) : PassContext where
  active := s.activeFields
  values := s.store.values
  rules := form.rules
  rendered := s.rendered? form

/-- A session in one line. -/
def summary (s : Session η) : String :=
  let step := match s.activeStep with
    | some id => "Some(" ++ Text.quote id ++ ")"
    | none => "None"
  Text.accountOfParts "FormEngine"
    [("active_step", step), ("groups", toString s.trackers.size),
      ("bucket_version", toString s.store.version), ("scheduler", s.queue.summary)] true

end Session

/-! ### Actions -/

/-- A session in the course of an operation, with the receiver of its events and what was done so far. -/
structure Run (η σ : Type) where
  session : Session η
  sink : σ
  trace : List Moment

/-- What the run did that can be seen from outside. -/
def Run.log {η σ : Type} (r : Run η σ) : List Effect :=
  r.trace.filterMap Moment.effect?

/-- An action on a run, which may fail. -/
abbrev Action (η σ α : Type) := ExceptT SessionError (StateM (Run η σ)) α

namespace Action

variable {η σ α β : Type}

/-- What an action returns, and the run after it. -/
def perform (a : Action η σ α) (r : Run η σ) : Except SessionError α × Run η σ :=
  (ExceptT.run a).run r

@[simp] theorem perform_pure (a : α) (r : Run η σ) : (pure a : Action η σ α).perform r = (.ok a, r) :=
  rfl

@[simp] theorem perform_throw (e : SessionError) (r : Run η σ) :
    (throw e : Action η σ α).perform r = (.error e, r) :=
  rfl

theorem perform_bind (a : Action η σ α) (f : α → Action η σ β) (r : Run η σ) :
    (a >>= f).perform r =
      match a.perform r with
      | (.ok x, r) => (f x).perform r
      | (.error e, r) => (.error e, r) := by
  simp only [perform, ExceptT.run_bind, StateT.run_bind]
  show (match (ExceptT.run a).run r with | (x, r) => _) = _
  rcases (ExceptT.run a).run r with ⟨x | x, r⟩ <;> rfl

theorem perform_tryCatch (a : Action η σ α) (f : SessionError → Action η σ α) (r : Run η σ) :
    (tryCatch a f).perform r =
      match a.perform r with
      | (.ok x, r) => (.ok x, r)
      | (.error e, r) => (f e).perform r := by
  have key : ∀ p, a.perform r = p → (tryCatch a f).perform r =
      match p with
      | (.ok x, r) => (.ok x, r)
      | (.error e, r) => (f e).perform r := by
    intro p hp
    have hp' : (a : Run η σ → _) r = p := hp
    unfold perform
    simp only [tryCatch, tryCatchThe, MonadExceptOf.tryCatch, ExceptT.tryCatch, ExceptT.run_mk,
      StateT.run_bind]
    simp only [StateT.run]
    rw [hp']
    rcases p with ⟨x | x, r'⟩ <;> rfl
  exact key _ rfl

/-- The session of the run. -/
def session : Action η σ (Session η) :=
  return (← get).session

/-- Changes the session. -/
def update (f : Session η → Session η) : Action η σ Unit :=
  modify fun r => { r with session := f r.session }

/-- Adds moments to the trace. -/
def note (moments : List Moment) : Action η σ Unit :=
  modify fun r => { r with trace := r.trace ++ moments }

@[simp] theorem perform_session (r : Run η σ) : (session : Action η σ _).perform r = (.ok r.session, r) :=
  rfl

@[simp] theorem perform_update (f : Session η → Session η) (r : Run η σ) :
    (update f : Action η σ _).perform r = (.ok (), { r with session := f r.session }) :=
  rfl

@[simp] theorem perform_note (moments : List Moment) (r : Run η σ) :
    (note moments : Action η σ _).perform r = (.ok (), { r with trace := r.trace ++ moments }) :=
  rfl

end Action

end FormSession
