import FormSession.Session.Flush

/-! # Steps

One step of a form is displayed at a time. Leaving a step clears its hidden rows and forgets what the
display was told; entering one brings the rows of its groups up to date and classifies the values.
Saving a step clears it, runs the waiting work and commits the values. -/

namespace FormSession

namespace Session

variable {η : Type}

/-- The group belongs to the step. -/
def isOnStep (form : Form) (group : String) (step : Option String) : Bool :=
  (form.schema.group? group).any fun g => step == some g.step

/-- Displays a step in place of the one displayed so far: nothing was told yet, and the groups of the
    step left are no longer displayed. -/
def display (form : Form) (step : String) (s : Session η) : Session η :=
  { s with
    visibility := s.visibility.resetTracking
    activeStep := some step
    activeFields := form.schema.stepFields step
    trackers := s.trackers.map fun group t =>
      if isOnStep form group s.activeStep then (t.setActive false).2 else t }

end Session

namespace Action

variable {η σ : Type}

/-- Displays a group, and tells its rows. -/
def enterGroup [Sink σ] (form : Form) (group : String) : Action η σ Unit := do
  let s ← session
  match s.trackers[group]? with
  | none => pure ()
  | some t =>
    let (ops, t) := t.setActive true
    update fun s => { s with trackers := s.trackers.insert group t }
    tellRows form group ops

/-- Displays groups in order. -/
def enterGroups [Sink σ] (form : Form) : List String → Action η σ Unit
  | [] => pure ()
  | group :: rest => do
    enterGroup form group
    enterGroups form rest

/-- Leaves the displayed step and displays another one, or the same one anew. -/
def navigate [EditHook η] [Sink σ] (form : Form) (step : String) : Action η σ Unit := do
  if !form.schema.hasStep step then throw (.unknownStep step)
  let s ← session
  if s.activeStep.isSome then
    let _ ← clear form
  update (Session.display form step)
  enterGroups form (s.trackers.keys.filter fun group => Session.isOnStep form group (some step))
  classify form

/-- The move of a tracker at the start. -/
def seed (s : Session η) (t : RowTracker) : List RowOp × RowTracker :=
  t.init (s.store.length t.lengthField)

/-- Starts the session: the rows take over the values there are, and the first step is displayed. -/
def start [EditHook η] [Sink σ] (form : Form) : Action η σ Unit := do
  moveTrackers form seed
  match form.schema.firstStep? with
  | some step => navigate form step
  | none => classify form

/-- Clears the displayed step, runs the waiting work and commits the values. Tells the fields committed. -/
def save [EditHook η] [Sink σ] (form : Form) : Action η σ (List String) := do
  let _ ← clear form
  let _ ← flush form
  let s ← session
  let (fields, store) := s.store.commit
  update fun s => { s with store }
  return fields

end Action

end FormSession
