import FormSession.Session.Telling

/-! # Values and passes

An edit is staged, the rows of the groups follow, and the values are classified anew. The pass that
applies a classification tells the display and queues the corrections; if telling it fails, the fields
of the pass are forgotten, so that the next pass tells them from scratch. -/

namespace FormSession.Action

variable {η σ : Type}

/-- Applies a classification: a pass is computed and told, and its corrections are queued. -/
def apply [Sink σ] (form : Form) (m : Classification) (force : Bool) : Action η σ Unit := do
  let s ← session
  let cx := s.passContext form
  let (pass, visibility) := s.visibility.pass cx force m
  update fun s => { s with visibility }
  note ((s.visibility.resolutions cx force m).map fun found => .resolved found.field found.held)
  tryCatch (tellAll .applying pass.events) fun e => do
    update fun s => { s with visibility := s.visibility.forget (pass.queue.map (·.field)) }
    throw e
  if !pass.corrections.isEmpty then
    update fun s => { s with queue := s.queue.add (.write pass.corrections) }

/-- Classifies the values there are, and applies what comes of it. -/
def classify [Sink σ] (form : Form) : Action η σ Unit := do
  let s ← session
  apply form (form.classify s.store.view) false

/-- Applies the classification applied last to every row again. -/
def reapply [Sink σ] (form : Form) : Action η σ Unit := do
  let s ← session
  apply form s.visibility.cache true

/-- Changes the store, and notes the update if one is published. -/
def changeStore (change : Store η → Option Update × Store η) : Action η σ (Option Update) :=
  modifyGet fun r =>
    let (update, store) := change r.session.store
    (update, { r with
      session := { r.session with store }
      trace := r.trace ++ (update.map fun u => Moment.effect (.published u)).toList })

/-- The move of a tracker after a change of the values. -/
def followEdit (e : FormEdit) (s : Session η) (t : RowTracker) : List RowOp × RowTracker :=
  match e[t.lengthField]? with
  | some edit => t.change edit (s.store.length t.lengthField)
  | none => ([], t)

/-- Follows a change of the values: first the rows, then the classification. -/
def followUpdate [Sink σ] (form : Form) (u : Update) : Action η σ Unit := do
  moveTrackers form (followEdit u.edit)
  classify form

/-- Changes the store and follows the change. -/
def changeData [Sink σ] (form : Form) (change : Store η → Option Update × Store η) :
    Action η σ (Option Update) := do
  match ← changeStore change with
  | none => return none
  | some u =>
    followUpdate form u
    return some u

/-- Stages an edit. -/
def write [EditHook η] [Sink σ] (form : Form) (e : FormEdit) : Action η σ (Option Update) :=
  changeData form (·.stage e)

/-- Drops what is staged. -/
def discard [Sink σ] (form : Form) : Action η σ (Option Update) :=
  changeData form (·.revert)

/-- Puts the hidden rows of the displayed step back to their resting values, and starts a new list of
    hidden rows. -/
def clear [EditHook η] [Sink σ] (form : Form) : Action η σ (Option Update) := do
  let s ← session
  let request := s.visibility.resettable s.activeFields s.store.values form.schema.registry
  update fun s => { s with visibility := s.visibility.clearHidden }
  if request.isEmpty then return none
  else write form (form.rules.reset s.visibility.cache s.store.values request)

end FormSession.Action
