import FormSession.Session.Basic

/-! # Telling the display

An event goes to the receiver, and what the receiver asks for is queued: writes in the order asked, and
after them one classification, however often it was asked for. While a pass is being told, asking for a
classification fails the action, and what else was asked for with the same event is lost. -/

namespace FormSession

namespace FieldChange

/-- The events that tell the rows of a field to show and to hide. -/
def events (c : FieldChange) : List Event :=
  (if c.shown.isEmpty then [] else [.shown c.field c.shown])
    ++ (if c.hidden.isEmpty then [] else [.hidden c.field c.hidden]) ++ [.settled c.field]

end FieldChange

namespace Pass

/-- The events that tell a pass, field by field. -/
def events (p : Pass) : List Event :=
  p.queue.flatMap FieldChange.events

end Pass

namespace TaskQueue

/-- The queue with what the receiver of an event asks for: the writes in order, then at most one classification. -/
def accept (q : TaskQueue Task) (requests : List Request) : TaskQueue Task :=
  let q := (requests.filterMap Request.edit?).foldl (fun q e => q.add (.write e)) q
  if .classify ∈ requests then q.addKeyed Task.classifyKey .classify else q

end TaskQueue

namespace Visibility

/-- Follows a step in showing the rows of a group, for the fields of the group. -/
def follow (v : Visibility) (fields : List String) : RowOp → Visibility
  | .add _ => v
  | .remove i => fields.foldl (fun v field => v.removeRow field i) v
  | .reset _ => v.forget fields

end Visibility

namespace Action

variable {η σ : Type}

/-- Hands an event to the receiver, and tells what it asks for. -/
def deliver [Sink σ] (event : Event) (phase : Phase) : Action η σ (List Request) :=
  modifyGet fun r =>
    let (requests, sink) := Sink.receive r.sink event phase
    (requests, { r with sink, trace := r.trace ++ [.effect (.told event phase requests)] })

/-- Tells an event, and queues what the receiver asks for. -/
def tell [Sink σ] (event : Event) (phase : Phase) : Action η σ Unit := do
  let requests ← deliver event phase
  if phase = .applying ∧ .classify ∈ requests then throw .classificationRecursion
  update fun s => { s with queue := s.queue.accept requests }

/-- Tells events in order. -/
def tellAll [Sink σ] (phase : Phase) : List Event → Action η σ Unit
  | [] => pure ()
  | e :: rest => do
    tell e phase
    tellAll phase rest

/-- Tells steps in showing the rows of a group, each after what is known of its fields followed it. -/
def tellSteps [Sink σ] (group : String) (fields : List String) : List RowOp → Action η σ Unit
  | [] => pure ()
  | op :: rest => do
    update fun s => { s with visibility := s.visibility.follow fields op }
    tell (.rows group op) .idle
    tellSteps group fields rest

/-- Tells the steps of a group; if there are any, the next pass resolves the fields of the group again. -/
def tellRows [Sink σ] (form : Form) (group : String) (ops : List RowOp) : Action η σ Unit :=
  if ops.isEmpty then pure ()
  else do
    let fields := ((form.schema.group? group).map (·.fields)).getD []
    tellSteps group fields ops
    update fun s => { s with visibility := s.visibility.invalidate fields }

/-- Tells the steps of several groups in order. -/
def tellMoves [Sink σ] (form : Form) : List (String × List RowOp) → Action η σ Unit
  | [] => pure ()
  | (group, ops) :: rest => do
    tellRows form group ops
    tellMoves form rest

/-- Moves every tracker, and then tells the steps of all groups in ascending order of their ids. -/
def moveTrackers [Sink σ] (form : Form) (move : Session η → RowTracker → List RowOp × RowTracker) :
    Action η σ Unit := do
  let s ← session
  let moves := s.trackers.map fun _ t => move s t
  update fun s => { s with trackers := moves.map fun _ m => m.2 }
  tellMoves form (moves.toList.map fun (group, m) => (group, m.1))

end Action

end FormSession
