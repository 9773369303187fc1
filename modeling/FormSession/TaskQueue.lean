import FormSession.Text.Quoted

/-! # Task queue

Work that must wait is queued and handed out in batches. A batch takes everything that waits; what is
queued while it runs goes into the next one. A task may carry a key: a later task with the key of a
waiting one takes its place in the queue. -/

namespace FormSession

/-- A waiting task. -/
structure QueueEntry (α : Type) where
  key : Option String
  task : α

/-- Waiting tasks in order, and the number of batches handed out so far. -/
structure TaskQueue (α : Type) where
  waiting : List (QueueEntry α)
  batchesTaken : Nat

/-- The tasks of one batch in order, and its number, from 1 on. -/
structure Batch (α : Type) where
  number : Nat
  tasks : List α

namespace TaskQueue

variable {α : Type}

/-- The queue in which nothing waits and of which no batch was taken. -/
def empty : TaskQueue α :=
  ⟨[], 0⟩

/-- The number of tasks that wait. -/
def size (q : TaskQueue α) : Nat :=
  q.waiting.length

/-- Nothing waits. -/
def isIdle (q : TaskQueue α) : Bool :=
  q.waiting.isEmpty

/-- A task with the key waits. -/
def holdsKey (q : TaskQueue α) (key : String) : Bool :=
  q.waiting.any (·.key == some key)

/-- Queues a task without a key. -/
def add (q : TaskQueue α) (task : α) : TaskQueue α :=
  { q with waiting := q.waiting ++ [⟨none, task⟩] }

/-- Puts a task in place of the first one with the key. -/
def replaceKeyed (key : String) (task : α) : List (QueueEntry α) → List (QueueEntry α)
  | [] => []
  | e :: rest => if e.key = some key then { e with task } :: rest else e :: replaceKeyed key task rest

/-- Queues a task with a key, in place of a waiting one with the same key. -/
def addKeyed (q : TaskQueue α) (key : String) (task : α) : TaskQueue α :=
  if q.holdsKey key then { q with waiting := replaceKeyed key task q.waiting }
  else { q with waiting := q.waiting ++ [⟨some key, task⟩] }

/-- Hands out everything that waits, unless nothing does. -/
def takeBatch? (q : TaskQueue α) : Option (Batch α × TaskQueue α) :=
  if q.isIdle then none
  else some (⟨q.batchesTaken + 1, q.waiting.map (·.task)⟩, ⟨[], q.batchesTaken + 1⟩)

/-- Drops all that waits. -/
def clear (q : TaskQueue α) : TaskQueue α :=
  { q with waiting := [] }

/-- The queue in one line. -/
def summary (q : TaskQueue α) : String :=
  Text.accountOfParts "Scheduler"
    [("pending", toString q.size), ("batches_taken", toString q.batchesTaken)] false

end TaskQueue

end FormSession
