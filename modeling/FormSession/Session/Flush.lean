import FormSession.Session.Data

/-! # Waiting work

Waiting work is run batch by batch until nothing waits. A session runs a limited number of batches in a
row; work that waits after that is dropped. -/

namespace FormSession.Action

variable {η σ : Type}

/-- Runs a task that waited. -/
def runTask [EditHook η] [Sink σ] (form : Form) : Task → Action η σ Unit
  | .write e => do
    let _ ← write form e
  | .classify => classify form

/-- Runs tasks in order. A task that fails ends the batch. -/
def runTasks [EditHook η] [Sink σ] (form : Form) : List Task → Action η σ Unit
  | [] => pure ()
  | t :: rest => do
    runTask form t
    runTasks form rest

/-- Runs batches until nothing waits, with some number of batches left to run, and tells how many were
    run in all. -/
def flushWithin [EditHook η] [Sink σ] (form : Form) : (left done : Nat) → Action η σ Nat
  | left, done => do
    let s ← session
    match s.queue.takeBatch? with
    | none => return done
    | some (batch, queue) =>
      match left with
      | 0 =>
        update fun s => { s with queue := queue.clear }
        note [.dropped]
        throw (.cascadeLimit form.schema.settings.maxBatches)
      | left + 1 =>
        update fun s => { s with queue := queue }
        runTasks form batch.tasks
        flushWithin form left (done + 1)

/-- Runs batches until nothing waits. -/
def flush [EditHook η] [Sink σ] (form : Form) : Action η σ Nat :=
  flushWithin form form.schema.settings.maxBatches 0

end FormSession.Action
