import FormSession.Proofs.Quiet
import FormSession.Proofs.QueueCalls
import Mathlib.Data.List.Induction

/-! # Histories of a queue

A queue keeps account of every task that it is given, whatever is asked of it and in whatever order: each task that no
later one took the place of is in one batch, or was dropped by one clear, or still waits, and no other task is anywhere
(`Accounts`). What waits, and so each batch, is in the order in which the places were first queued (`Waits`). One call
keeps both, whichever of three things it does to the queue (`TaskQueue.Change`), and so does any list of calls
(`queue_accounts`). A batch is a value: what is asked of the queue while one is run is asked after the call that took
it. -/

namespace FormSession
open QueueCalls

/-- What a queue answers. A clear tells how many tasks it drops; here it is noted which. -/
inductive QueueReply (α : Type) where
  | added
  /-- A waiting task was replaced, or none was. -/
  | addedKeyed (replaced : Bool)
  | taken (batch? : Option (Batch α))
  | cleared (dropped : List α)

namespace QueueReply
variable {α β : Type}

/-- The tasks that leave the queue. -/
def released : QueueReply α → List α
  | taken (some batch) => batch.tasks
  | cleared dropped => dropped
  | _ => []

/-- The batch that a call hands out. -/
def batch? : QueueReply α → Option (Batch α)
  | taken batch? => batch?
  | _ => none

/-- The same reply with other tasks. -/
def map (f : α → β) : QueueReply α → QueueReply β
  | added => added
  | addedKeyed replaced => addedKeyed replaced
  | taken batch? => taken (batch?.map fun b => ⟨b.number, b.tasks.map f⟩)
  | cleared dropped => cleared (dropped.map f)

end QueueReply

namespace TaskQueue
variable {α β : Type}

/-- What a call returns, and the queue after it. -/
def call (q : TaskQueue α) : QueueCall α → QueueReply α × TaskQueue α
  | .add task => (.added, q.add task)
  | .addKeyed key task => (.addedKeyed (q.holdsKey key), q.addKeyed key task)
  | .takeBatch =>
    match q.takeBatch? with
    | some (batch, queue) => (.taken (some batch), queue)
    | none => (.taken none, q)
  | .clear => (.cleared (q.waiting.map (·.task)), q.clear)

/-- The same queue with other tasks. -/
def map (f : α → β) (q : TaskQueue α) : TaskQueue β := ⟨q.waiting.map fun e => ⟨e.key, f e.task⟩, q.batchesTaken⟩

end TaskQueue

/-- A queue after calls, and what it answered, in order. -/
structure QueueRun (α : Type) where
  queue : TaskQueue α
  replies : List (QueueReply α)

namespace QueueRun
variable {α β : Type}

/-- One more call. -/
def step (r : QueueRun α) (c : QueueCall α) : QueueRun α := ⟨(r.queue.call c).2, r.replies ++ [(r.queue.call c).1]⟩

/-- A new queue after calls. -/
def after (calls : List (QueueCall α)) : QueueRun α := calls.foldl step ⟨.empty, []⟩

/-- The batches handed out, in order. -/
def batches (r : QueueRun α) : List (Batch α) := r.replies.filterMap QueueReply.batch?

/-- The tasks that are in a batch or were dropped. -/
def released (r : QueueRun α) : List α := r.replies.flatMap QueueReply.released

/-- The tasks in all the places where a task can be: the batches, what was dropped, and the queue. -/
def places (r : QueueRun α) : List α := r.released ++ r.queue.waiting.map (·.task)

/-- The same run with other tasks. -/
def map (f : α → β) (r : QueueRun α) : QueueRun β := ⟨r.queue.map f, r.replies.map (QueueReply.map f)⟩

theorem after_concat (calls : List (QueueCall α)) (c : QueueCall α) : after (calls ++ [c]) = (after calls).step c :=
  List.foldl_concat ..

theorem released_step (r : QueueRun α) (c : QueueCall α) :
    (r.step c).released = r.released ++ (r.queue.call c).1.released := by
  simp [released, step]

end QueueRun

/-! ### What one call does -/

namespace TaskQueue
variable {α β : Type} {q : TaskQueue α} {key : String} {task : α} {waiting : List (QueueEntry α)}

theorem holdsKey_iff : q.holdsKey key = true ↔ ∃ e ∈ q.waiting, e.key = some key := by
  simp [holdsKey]

/-- The tasks that a call releases and what waits after it. -/
inductive Change (c : QueueCall α) (waiting : List (QueueEntry α)) : List α → List (QueueEntry α) → Prop
  | queued {task : α} (queues : c.task? = some task)
    (fresh : ∀ key, c.key? = some key → ∀ e ∈ waiting, e.key ≠ some key) :
    Change c waiting [] (waiting ++ [⟨c.key?, task⟩])
  | replaced {key : String} {task old : α} {l r : List (QueueEntry α)} (keyed : c = .addKeyed key task)
    (place : waiting = l ++ ⟨some key, old⟩ :: r) : Change c waiting [] (l ++ ⟨some key, task⟩ :: r)
  | released (releases : c.releases = true) : Change c waiting (waiting.map (·.task)) []

theorem replaceKeyed_eq (h : ∃ e ∈ waiting, e.key = some key) (task : α) : ∃ old l r,
    waiting = l ++ ⟨some key, old⟩ :: r ∧ replaceKeyed key task waiting = l ++ ⟨some key, task⟩ :: r := by
  induction waiting with
  | nil => simp at h
  | cons e rest ih =>
    rw [replaceKeyed]
    by_cases hkey : e.key = some key
    · rw [if_pos hkey, hkey]
      exact ⟨e.task, [], rest, by rw [← hkey]; rfl, rfl⟩
    · rw [if_neg hkey]
      have hrest : ∃ e ∈ rest, e.key = some key := by simpa [hkey] using h
      obtain ⟨old, l, r, hplace, hreplaced⟩ := ih hrest
      exact ⟨old, e :: l, r, congrArg (e :: ·) hplace, congrArg (e :: ·) hreplaced⟩

theorem change_call (q : TaskQueue α) (c : QueueCall α) :
    Change c q.waiting (q.call c).1.released (q.call c).2.waiting := by
  cases c with
  | add task => exact .queued rfl (fun key hkey => by cases hkey)
  | addKeyed key task =>
    rw [call, addKeyed]
    split
    · rename_i hheld
      obtain ⟨old, l, r, hplace, hreplaced⟩ := replaceKeyed_eq (holdsKey_iff.mp hheld) task
      dsimp only
      rw [hreplaced]
      exact .replaced rfl hplace
    · rename_i hfree
      refine .queued rfl fun key' hkey e he hheld => hfree (holdsKey_iff.mpr ⟨e, he, ?_⟩)
      exact hheld.trans hkey.symm
  | takeBatch =>
    rw [call]
    by_cases idle : q.waiting = []
    · rw [takeBatch?_of_idle idle]
      have hnone : Change (.takeBatch : QueueCall α) q.waiting (q.waiting.map (·.task)) [] := .released rfl
      rw [idle] at hnone ⊢
      exact hnone
    · rw [takeBatch?_of_waiting idle]
      exact .released rfl
  | clear => exact .released rfl

/-- A batch is everything that waits, and is numbered after the one before. -/
theorem batch?_call (q : TaskQueue α) (c : QueueCall α) :
    (q.waiting ≠ [] ∧ (q.call c).1.batch? = some ⟨q.batchesTaken + 1, q.waiting.map (·.task)⟩ ∧
        (q.call c).2.batchesTaken = q.batchesTaken + 1) ∨
      ((q.call c).1.batch? = none ∧ (q.call c).2.batchesTaken = q.batchesTaken) := by
  cases c with
  | add task => exact Or.inr ⟨rfl, rfl⟩
  | addKeyed key task =>
    rw [call, addKeyed]
    split <;> exact Or.inr ⟨rfl, rfl⟩
  | takeBatch =>
    rw [call]
    by_cases idle : q.waiting = []
    · rw [takeBatch?_of_idle idle]
      exact Or.inr ⟨rfl, rfl⟩
    · rw [takeBatch?_of_waiting idle]
      exact Or.inl ⟨idle, rfl, rfl⟩
  | clear => exact Or.inr ⟨rfl, rfl⟩

/-! ### Tasks and tickets -/

theorem map_replaceKeyed (f : α → β) (key : String) (task : α) (waiting : List (QueueEntry α)) :
    (replaceKeyed key task waiting).map (fun e => (⟨e.key, f e.task⟩ : QueueEntry β)) =
      replaceKeyed key (f task) (waiting.map fun e => ⟨e.key, f e.task⟩) := by
  induction waiting with
  | nil => rfl
  | cons e rest ih =>
    rw [replaceKeyed, List.map_cons, replaceKeyed]
    split
    · rfl
    · rw [List.map_cons, ih]

/-- A queue does not look at its tasks. -/
theorem call_map (f : α → β) (q : TaskQueue α) (c : QueueCall α) :
    (q.map f).call (c.map f) = ((q.call c).1.map f, (q.call c).2.map f) := by
  have hheld : ∀ key, (q.map f).holdsKey key = q.holdsKey key := fun key => by
    simp [holdsKey, map, Function.comp_def]
  cases c with
  | add task => simp [QueueCall.map, call, add, map, QueueReply.map]
  | addKeyed key task =>
    rw [QueueCall.map, call, call, addKeyed, addKeyed, hheld]
    split
    · simp [map, QueueReply.map, map_replaceKeyed]
    · simp [map, QueueReply.map]
  | takeBatch =>
    rw [QueueCall.map, call, call]
    by_cases idle : q.waiting = []
    · have hidle : (q.map f).waiting = [] := by simp [map, idle]
      rw [takeBatch?_of_idle idle, takeBatch?_of_idle hidle]
      rfl
    · have hwaiting : (q.map f).waiting ≠ [] := by simpa [map] using idle
      rw [takeBatch?_of_waiting idle, takeBatch?_of_waiting hwaiting]
      simp [map, QueueReply.map, handedOut]
  | clear => simp [QueueCall.map, call, map, QueueReply.map, clear]

end TaskQueue

/-! ### What waits -/

section Calls
variable {α : Type} {calls : List (QueueCall α)} {c : QueueCall α} {key : String} {task : α} {old : Ticket α}
  {released out : List (Ticket α)} {waiting waiting' l r : List (QueueEntry (Ticket α))}

/-- A task waits under the key that it was queued with, since everything was released last. -/
structure Enqueued (calls : List (QueueCall α)) (e : QueueEntry (Ticket α)) : Prop where
  task : taskAt calls e.task.number = some e.task.task
  key : keyAt calls e.task.number = e.key
  unreleased : Unreleased calls e.task.number

namespace Enqueued
variable {e : QueueEntry (Ticket α)}

theorem lt_length (h : Enqueued calls e) : e.task.number < calls.length := lt_length_of_taskAt h.task

theorem concat (h : Enqueued calls e) (calm : c.releases = false) : Enqueued (calls ++ [c]) e where
  task := (taskAt_append h.lt_length [c]).trans h.task
  key := (keyAt_append h.lt_length [c]).trans h.key
  unreleased := (unreleased_concat h.lt_length).mpr ⟨h.unreleased, calm⟩

theorem last (queues : c.task? = some task) : Enqueued (calls ++ [c]) ⟨c.key?, ⟨calls.length, task⟩⟩ where
  task := taskAt_concat_length.trans queues
  key := keyAt_concat_length
  unreleased := unreleased_of_length_le (by simp)

end Enqueued

/-- What waits after some calls: something under each key that was used since everything was released last, and all of
    it in the order in which the places were first queued. -/
structure Waits (calls : List (QueueCall α)) (waiting : List (QueueEntry (Ticket α))) : Prop where
  enqueued : ∀ e ∈ waiting, Enqueued calls e
  held : ∀ i key, keyAt calls i = some key → Unreleased calls i → ∃ e ∈ waiting, e.key = some key
  ordered : waiting.Pairwise fun a b => firstQueued calls a.task.number < firstQueued calls b.task.number

namespace Waits

theorem empty : Waits ([] : List (QueueCall α)) [] where
  enqueued := by simp
  held i key hkey := absurd (lt_length_of_keyAt hkey) (Nat.not_lt_zero i)
  ordered := .nil

/-- A call that uses no key of a waiting task replaces none. -/
theorem not_replaces (h : Waits calls waiting) (fresh : ∀ key, c.key? = some key → ∀ e ∈ waiting, e.key ≠ some key)
    (i : Nat) : ¬Replaces calls c i := by
  rintro ⟨key, hc, hkey, hun⟩
  obtain ⟨e, he, hheld⟩ := h.held i key hkey hun
  exact fresh key hc e he hheld

/-- Something waits under each key after a call that releases nothing, if it does under the key of the call. -/
theorem held_concat (h : Waits calls waiting) (kept : ∀ e ∈ waiting, ∃ e' ∈ waiting', e'.key = e.key)
    (last : ∀ key, c.key? = some key → ∃ e ∈ waiting', e.key = some key) :
    ∀ i key, keyAt (calls ++ [c]) i = some key → Unreleased (calls ++ [c]) i → ∃ e ∈ waiting', e.key = some key := by
  intro i key hkey hun
  rcases keyAt_concat hkey with ⟨hlt, hkey⟩ | ⟨-, hkey⟩
  · obtain ⟨e, he, hheld⟩ := h.held i key hkey ((unreleased_concat hlt).mp hun).1
    obtain ⟨e', he', hsame⟩ := kept e he
    exact ⟨e', he', hsame.trans hheld⟩
  · exact last key hkey

/-- A task that replaces none comes last. -/
theorem queued (h : Waits calls waiting) (queues : c.task? = some task) (calm : c.releases = false)
    (fresh : ∀ key, c.key? = some key → ∀ e ∈ waiting, e.key ≠ some key) :
    Waits (calls ++ [c]) (waiting ++ [⟨c.key?, ⟨calls.length, task⟩⟩]) where
  enqueued := List.forall_mem_append.mpr
    ⟨fun e he => (h.enqueued e he).concat calm, List.forall_mem_singleton.mpr (.last queues)⟩
  held := h.held_concat (fun e he => ⟨e, List.mem_append_left _ he, rfl⟩) fun key hkey =>
    ⟨_, List.mem_append_right _ (List.mem_singleton_self _), hkey⟩
  ordered := by
    have hfirst : firstQueued (calls ++ [c]) calls.length = calls.length :=
      firstQueued_of_none fun o ho => h.not_replaces fresh o (supersedes_concat_length.mp ho)
    have hkept : ∀ e ∈ waiting, firstQueued (calls ++ [c]) e.task.number = firstQueued calls e.task.number :=
      fun e he => firstQueued_append (h.enqueued e he).lt_length [c]
    refine List.pairwise_append.mpr ⟨h.ordered.imp_of_mem fun ha hb hlt => ?_, List.pairwise_singleton .., ?_⟩
    · rwa [hkept _ ha, hkept _ hb]
    · intro a ha b hb
      rw [List.mem_singleton.mp hb, hkept a ha, hfirst]
      exact Nat.lt_of_le_of_lt (firstQueued_le ..) (h.enqueued a ha).lt_length

/-- A task that replaces a waiting one has its place. -/
theorem replaced (h : Waits calls (l ++ ⟨some key, old⟩ :: r)) (task : α) :
    Waits (calls ++ [.addKeyed key task]) (l ++ ⟨some key, ⟨calls.length, task⟩⟩ :: r) where
  enqueued := by
    obtain ⟨hl, hr⟩ := List.forall_mem_append.mp h.enqueued
    obtain ⟨-, hr⟩ := List.forall_mem_cons.mp hr
    refine List.forall_mem_append.mpr ⟨fun e he => (hl e he).concat rfl, List.forall_mem_cons.mpr ⟨.last rfl, ?_⟩⟩
    exact fun e he => (hr e he).concat rfl
  held := by
    refine h.held_concat (fun e he => ?_) fun key' hkey => ⟨_, List.mem_append_right _ List.mem_cons_self, hkey⟩
    rcases List.mem_append.mp he with he | he
    · exact ⟨e, List.mem_append_left _ he, rfl⟩
    · rcases List.mem_cons.mp he with rfl | he
      · exact ⟨_, List.mem_append_right _ List.mem_cons_self, rfl⟩
      · exact ⟨e, List.mem_append_right _ (List.mem_cons_of_mem _ he), rfl⟩
  ordered := by
    have hold : Enqueued calls ⟨some key, old⟩ := h.enqueued _ (List.mem_append_right _ List.mem_cons_self)
    -- The new task takes over when its key was queued first, so no place moves.
    have hplace : firstQueued (calls ++ [.addKeyed key task]) calls.length = firstQueued calls old.number := by
      rw [← firstQueued_append hold.lt_length [.addKeyed key task]]
      exact (supersedes_concat_length.mpr ⟨key, rfl, hold.key, hold.unreleased⟩).firstQueued
    have hkept : ∀ e ∈ l ++ ⟨some key, old⟩ :: r,
        firstQueued (calls ++ [.addKeyed key task]) e.task.number = firstQueued calls e.task.number :=
      fun e he => firstQueued_append (h.enqueued e he).lt_length _
    obtain ⟨hl, hr⟩ := List.forall_mem_append.mp hkept
    obtain ⟨-, hr⟩ := List.forall_mem_cons.mp hr
    have hsame : (l ++ ⟨some key, ⟨calls.length, task⟩⟩ :: r).map
        (fun e => firstQueued (calls ++ [.addKeyed key task]) e.task.number) =
          (l ++ ⟨some key, old⟩ :: r).map fun e => firstQueued calls e.task.number := by
      rw [List.map_append, List.map_cons, List.map_append, List.map_cons, List.map_congr_left hl,
        List.map_congr_left hr, hplace]
    rw [← List.pairwise_map, hsame, List.pairwise_map]
    exact h.ordered

theorem of_releases (h : c.releases = true) : Waits (calls ++ [c]) [] where
  enqueued := by simp
  held i key hkey hun := by
    rcases keyAt_concat hkey with ⟨hlt, -⟩ | ⟨-, hkey⟩
    · have hcalm := ((unreleased_concat hlt).mp hun).2
      rw [h] at hcalm
      cases hcalm
    · rw [QueueCall.key?_of_releases h] at hkey
      cases hkey
  ordered := .nil

theorem step (h : Waits calls waiting)
    (change : TaskQueue.Change (c.map (Ticket.mk calls.length)) waiting out waiting') :
    Waits (calls ++ [c]) waiting' := by
  cases change with
  | queued queues fresh =>
    rw [QueueCall.task?_map] at queues
    obtain ⟨task, htask, rfl⟩ := Option.map_eq_some_iff.mp queues
    rw [QueueCall.key?_map] at fresh ⊢
    exact h.queued htask (QueueCall.releases_of_task? htask) fresh
  | replaced keyed place =>
    obtain ⟨task, rfl, rfl⟩ := QueueCall.map_eq_addKeyed keyed
    subst place
    exact h.replaced task
  | released releases =>
    rw [QueueCall.releases_map] at releases
    exact of_releases releases

/-- At most one task waits under a key. -/
theorem pairwise_key (h : Waits calls waiting) : waiting.Pairwise fun a b => a.key = b.key → a.key = none := by
  refine h.ordered.imp_of_mem fun {a b} ha hb hlt hsame => ?_
  by_contra hkeyed
  obtain ⟨key, hkey⟩ := Option.ne_none_iff_exists'.mp hkeyed
  have hka := (h.enqueued a ha).key.trans hkey
  have hkb := (h.enqueued b hb).key.trans (hsame.symm.trans hkey)
  have hplace := firstQueued_eq_of_key hka hkb (h.enqueued a ha).unreleased (h.enqueued b hb).unreleased
  exact absurd hplace (Nat.ne_of_lt hlt)

end Waits

/-! ### Where the tasks are -/

/-- The tasks in all places together: each that no later one took the place of, and each of these once. -/
structure Accounts (calls : List (QueueCall α)) (places : List (Ticket α)) : Prop where
  once : (places.map (·.number)).Nodup
  stands : ∀ x, x ∈ places ↔ Stands calls x

namespace Accounts
variable {places before after : List (Ticket α)}

theorem empty : Accounts ([] : List (QueueCall α)) [] where
  once := .nil
  stands x := iff_of_false (by simp) fun h => absurd (lt_length_of_taskAt h.1) (Nat.not_lt_zero x.number)

theorem lt_length (h : Accounts calls places) {x : Ticket α} (hx : x ∈ places) : x.number < calls.length :=
  lt_length_of_taskAt ((h.stands x).mp hx).1

theorem notMem_length (h : Accounts calls places) : calls.length ∉ places.map (·.number) := fun hmem => by
  obtain ⟨x, hx, hlength⟩ := List.mem_map.mp hmem
  exact absurd hlength (Nat.ne_of_lt (h.lt_length hx))

theorem perm (h : Accounts calls before) (hperm : before.Perm after) : Accounts calls after where
  once := (hperm.map _).nodup_iff.mp h.once
  stands x := hperm.mem_iff.symm.trans (h.stands x)

/-- A call without a task leaves the tasks where they are. -/
theorem still (h : Accounts calls places) (noTask : c.task? = none) (fresh : ∀ i, ¬Replaces calls c i) :
    Accounts (calls ++ [c]) places where
  once := h.once
  stands x := by
    rw [stands_concat, noTask, h.stands x]
    simp [fresh]

theorem queued (h : Accounts calls places) (queues : c.task? = some task) (fresh : ∀ i, ¬Replaces calls c i) :
    Accounts (calls ++ [c]) (⟨calls.length, task⟩ :: places) where
  once := List.nodup_cons.mpr ⟨h.notMem_length, h.once⟩
  stands x := by
    rw [List.mem_cons, stands_concat, h.stands x, or_comm]
    exact or_congr (and_iff_left (fresh _)).symm (eq_ticket_iff queues)

/-- A task that takes the place of another one is there instead of it. -/
theorem replaced (h : Accounts calls (old :: places)) (queues : c.task? = some task)
    (only : ∀ x, Stands calls x → (Replaces calls c x.number ↔ x = old)) :
    Accounts (calls ++ [c]) (⟨calls.length, task⟩ :: places) where
  once := by
    obtain ⟨-, hothers⟩ := List.nodup_cons.mp h.once
    exact List.nodup_cons.mpr ⟨fun hmem => h.notMem_length (List.mem_cons_of_mem _ hmem), hothers⟩
  stands x := by
    have hgone : old ∉ places := fun hmem => (List.nodup_cons.mp h.once).1 (List.mem_map_of_mem hmem)
    have hothers : x ∈ places ↔ Stands calls x ∧ ¬Replaces calls c x.number := by
      rw [← h.stands x, List.mem_cons]
      refine ⟨fun hx => ⟨Or.inr hx, fun hr => ?_⟩, fun ⟨hx, hr⟩ => hx.resolve_left fun hold => ?_⟩
      · exact hgone ((only x ((h.stands x).mp (List.mem_cons_of_mem _ hx))).mp hr ▸ hx)
      · exact hr ((only x ((h.stands x).mp (hold ▸ List.mem_cons_self))).mpr hold)
    rw [List.mem_cons, stands_concat, hothers, or_comm, eq_ticket_iff queues]

/-- What a call does to the queue leaves each task that stands in one place. -/
theorem step (h : Accounts calls (released ++ waiting.map (·.task))) (waits : Waits calls waiting)
    (change : TaskQueue.Change (c.map (Ticket.mk calls.length)) waiting out waiting') :
    Accounts (calls ++ [c]) (released ++ out ++ waiting'.map (·.task)) := by
  cases change with
  | queued queues fresh =>
    rw [QueueCall.task?_map] at queues
    obtain ⟨task, htask, rfl⟩ := Option.map_eq_some_iff.mp queues
    rw [QueueCall.key?_map] at fresh
    refine (h.queued htask (waits.not_replaces fresh)).perm ?_
    rw [List.append_nil, List.map_append, ← List.append_assoc]
    exact (List.perm_append_singleton ..).symm
  | @replaced key ticket old l r keyed place =>
    obtain ⟨task, rfl, rfl⟩ := QueueCall.map_eq_addKeyed keyed
    subst place
    have hold := waits.enqueued _ (List.mem_append_right l List.mem_cons_self)
    have hplaces : ∀ x : Ticket α, (x :: (released ++ l.map (·.task) ++ r.map (·.task))).Perm
        (released ++ [] ++ (l ++ ⟨some key, x⟩ :: r).map (·.task)) := fun x => by
      rw [List.append_nil, List.map_append, List.map_cons, ← List.append_assoc]
      exact List.perm_middle.symm
    -- Of the tasks that stand only the one in this place has the key, so it is the one that is superseded.
    have hbefore := h.perm (List.append_nil released ▸ hplaces old).symm
    refine (hbefore.replaced rfl fun x hx => ⟨?_, ?_⟩).perm (hplaces _)
    · rintro ⟨key', hkey', hx', hun⟩
      cases hkey'
      exact hx.eq_of_key ((hbefore.stands old).mp List.mem_cons_self) hx' hold.key hun hold.unreleased
    · rintro rfl
      exact ⟨key, rfl, hold.key, hold.unreleased⟩
  | released releases =>
    rw [QueueCall.releases_map] at releases
    rw [List.map_nil, List.append_nil]
    refine h.still (QueueCall.task?_of_releases releases) (waits.not_replaces fun key hkey => ?_)
    rw [QueueCall.key?_of_releases releases] at hkey
    cases hkey

end Accounts

end Calls

/-! ### Whole histories -/

namespace QueueRun
variable {α β : Type}

theorem after_map (f : α → β) (calls : List (QueueCall α)) :
    after (calls.map (QueueCall.map f)) = (after calls).map f := by
  induction calls using List.reverseRecOn with
  | nil => rfl
  | append_singleton calls c ih =>
    rw [List.map_append, List.map_singleton, after_concat, after_concat, ih, step, step, map, map]
    dsimp only
    rw [TaskQueue.call_map, List.map_append, List.map_singleton]

theorem waits_after (calls : List (QueueCall α)) : Waits calls (after (numbered calls)).queue.waiting := by
  induction calls using List.reverseRecOn with
  | nil => exact .empty
  | append_singleton calls c ih =>
    rw [numbered_concat, after_concat]
    exact ih.step (TaskQueue.change_call _ _)

theorem accounts_after (calls : List (QueueCall α)) : Accounts calls (after (numbered calls)).places := by
  induction calls using List.reverseRecOn with
  | nil => exact .empty
  | append_singleton calls c ih =>
    rw [numbered_concat, after_concat, places, released_step]
    exact ih.step (waits_after calls) (TaskQueue.change_call _ _)

theorem length_replies (calls : List (QueueCall α)) : (after calls).replies.length = calls.length := by
  induction calls using List.reverseRecOn with
  | nil => rfl
  | append_singleton calls c ih =>
    rw [after_concat, step, List.length_append, List.length_append, ih]
    rfl

/-- Each call is answered by the queue as it is after the calls before. -/
theorem getElem?_replies (calls : List (QueueCall α)) (c : QueueCall α) (rest : List (QueueCall α)) :
    (after (calls ++ c :: rest)).replies[calls.length]? = some ((after calls).queue.call c).1 := by
  induction rest using List.reverseRecOn with
  | nil =>
    rw [after_concat, step, ← length_replies calls]
    exact List.getElem?_concat_length
  | append_singleton rest last ih =>
    rw [← List.cons_append, ← List.append_assoc, after_concat, step]
    exact (List.getElem?_append_left (List.getElem?_eq_some_iff.mp ih).1).trans ih

theorem number_batches (calls : List (QueueCall α)) :
    (after calls).batches.map (·.number) = List.range' 1 (after calls).queue.batchesTaken := by
  induction calls using List.reverseRecOn with
  | nil => rfl
  | append_singleton calls c ih =>
    have hstep : ((after calls).step c).batches.map (·.number) =
        (after calls).batches.map (·.number) ++ (((after calls).queue.call c).1.batch?.map (·.number)).toList := by
      rw [batches, step, List.filterMap_append, List.map_append, batches]
      cases hbatch : ((after calls).queue.call c).1.batch? <;> simp [hbatch]
    rw [after_concat, hstep, ih]
    rcases (after calls).queue.batch?_call c with ⟨-, hbatch, hcount⟩ | ⟨hnone, hcount⟩
    · rw [hbatch, step, hcount, List.range'_1_concat, Nat.add_comm 1]
      rfl
    · rw [hnone, step, hcount]
      exact List.append_nil _

/-- The calls before one, and what it is answered. -/
theorem reply_at {calls : List (QueueCall α)} {p : Nat} {c : QueueCall α} (h : calls[p]? = some c) :
    ∃ before rest, calls = before ++ c :: rest ∧ before.length = p ∧ (after (numbered calls)).replies[p]? =
      some ((after (numbered before)).queue.call (c.map (Ticket.mk p))).1 := by
  obtain ⟨hp, rfl⟩ := List.getElem?_eq_some_iff.mp h
  have hsplit : calls = calls.take p ++ calls[p] :: calls.drop (p + 1) := by
    rw [← List.drop_eq_getElem_cons hp, List.take_append_drop]
  have hlength : (calls.take p).length = p := List.length_take_of_le (Nat.le_of_lt hp)
  obtain ⟨rest, hnumbered⟩ := numbered_append_cons (calls.take p) calls[p] (calls.drop (p + 1))
  rw [hlength, ← hsplit] at hnumbered
  have hreply := getElem?_replies (numbered (calls.take p)) (calls[p].map (Ticket.mk p)) rest
  have hcount : (numbered (calls.take p)).length = p := List.length_mapIdx.trans hlength
  rw [← hnumbered, hcount] at hreply
  exact ⟨_, _, hsplit, hlength, hreply⟩

/-- A task with a key replaces a waiting one exactly if it takes the place of an earlier one. -/
theorem reply_addKeyed {calls : List (QueueCall α)} {j : Nat} {key : String} (h : keyAt calls j = some key) :
    ∃ replaced, (after (numbered calls)).replies[j]? = some (.addedKeyed replaced) ∧
      (replaced = true ↔ ∃ i, Supersedes calls i j) := by
  obtain ⟨c, hc, hkey⟩ := Option.bind_eq_some_iff.mp h
  obtain ⟨before, rest, rfl, rfl, hreply⟩ := reply_at hc
  cases c with
  | addKeyed key' task =>
    cases hkey
    refine ⟨_, hreply, ?_⟩
    have hsupersedes : ∀ i, Supersedes (before ++ .addKeyed key task :: rest) i before.length ↔
        Replaces before (.addKeyed key task) i := fun i => by
      rw [← supersedes_concat_length, List.append_cons]
      exact supersedes_append (by simp) rest
    simp only [hsupersedes]
    rw [TaskQueue.holdsKey_iff]
    constructor
    · rintro ⟨e, he, hheld⟩
      have enqueued := (waits_after before).enqueued e he
      exact ⟨_, key, rfl, enqueued.key.trans hheld, enqueued.unreleased⟩
    · rintro ⟨i, key', hkey', hi, hun⟩
      cases hkey'
      exact (waits_after before).held i key hi hun
  | _ => cases hkey

/-- A batch is not empty, holds tasks from before it was taken, and has them in the order of their places. -/
theorem reply_taken {calls : List (QueueCall α)} {p : Nat} {b : Batch (Ticket α)}
    (h : (after (numbered calls)).replies[p]? = some (.taken (some b))) :
    b.tasks ≠ [] ∧ (∀ x ∈ b.tasks, x.number < p) ∧
      b.tasks.Pairwise fun x y => firstQueued calls x.number < firstQueued calls y.number := by
  have hp : p < calls.length := by
    have hlt := (List.getElem?_eq_some_iff.mp h).1
    rwa [length_replies, numbered, List.length_mapIdx] at hlt
  obtain ⟨before, rest, hcalls, rfl, hreply⟩ := reply_at (List.getElem?_eq_getElem hp)
  have waits := waits_after before
  generalize (after (numbered before)).queue = q at hreply waits
  have hbatch : (q.call (calls[before.length].map (Ticket.mk before.length))).1.batch? = some b := by
    rw [← Option.some.inj (hreply.symm.trans h).symm]
    rfl
  rcases q.batch?_call (calls[before.length].map (Ticket.mk before.length)) with ⟨hwaiting, htaken, -⟩ | ⟨hnone, -⟩
  · rw [htaken] at hbatch
    cases hbatch
    have hlt : ∀ e ∈ q.waiting, e.task.number < before.length := fun e he => (waits.enqueued e he).lt_length
    refine ⟨by simpa using hwaiting, List.forall_mem_map.mpr hlt, List.pairwise_map.mpr ?_⟩
    refine waits.ordered.imp_of_mem fun {x y} hx hy hxy => ?_
    rw [hcalls, firstQueued_append (hlt x hx), firstQueued_append (hlt y hy)]
    exact hxy
  · rw [hnone] at hbatch
    cases hbatch

end QueueRun

/-- Whatever is asked of a new queue, in whatever order: the numbers of the tasks change nothing; each task is once in
    the batches, what was dropped and the queue, unless a later one took its place, and is nowhere then; a task with a
    key is told to replace another one exactly if it takes the place of one, and its place is the one that was first
    queued then; a batch is not empty, holds no task queued after it was taken, and has its tasks in the order in which
    their places were first queued; so is what waits, and at most one task under a key; and batches are numbered 1, 2,
    3 and so on. -/
theorem queue_accounts {α : Type} (calls : List (QueueCall α)) :
    let r := QueueRun.after (numbered calls)
    QueueRun.after calls = r.map Ticket.task ∧
      ((r.places.map (·.number)).Nodup ∧ ∀ x, x ∈ r.places ↔ Stands calls x) ∧
      (∀ j key, keyAt calls j = some key → ∃ replaced, r.replies[j]? = some (.addedKeyed replaced) ∧
        (replaced = true ↔ ∃ i, Supersedes calls i j)) ∧
      (∀ i j, Supersedes calls i j → firstQueued calls j = firstQueued calls i) ∧
      (∀ p (b : Batch (Ticket α)), r.replies[p]? = some (.taken (some b)) →
        b.tasks ≠ [] ∧ (∀ x ∈ b.tasks, x.number < p) ∧
        b.tasks.Pairwise fun x y => firstQueued calls x.number < firstQueued calls y.number) ∧
      r.queue.waiting.Pairwise (fun a b => firstQueued calls a.task.number < firstQueued calls b.task.number ∧
        (a.key = b.key → a.key = none)) ∧
      r.batches.map (·.number) = List.range' 1 r.batches.length := by
  intro r
  have accounts := QueueRun.accounts_after calls
  have waits := QueueRun.waits_after calls
  refine ⟨?_, ⟨accounts.once, accounts.stands⟩, fun j key => QueueRun.reply_addKeyed, fun i j h => h.firstQueued,
    fun p b => QueueRun.reply_taken, waits.ordered.and waits.pairwise_key, ?_⟩
  · rw [← QueueRun.after_map, map_task_numbered]
  · have hnumbers : r.batches.map (·.number) = List.range' 1 r.queue.batchesTaken := QueueRun.number_batches _
    have hcount : r.batches.length = r.queue.batchesTaken := by
      rw [← List.length_map, hnumbers, List.length_range']
    rw [hnumbers, hcount]

/-! ### An evening of orders -/

/-- The bill is asked for twice before the first orders are taken, and once more while they are brought. -/
def tableCalls : List (QueueCall String) :=
  [.addKeyed "bill" "in cash", .add "soup", .addKeyed "bill" "by card", .takeBatch,
    .addKeyed "bill" "together", .add "cake", .clear, .takeBatch, .add "tea", .takeBatch, .add "nuts"]

theorem queue_accounts_tableCalls :
    let r := QueueRun.after (numbered tableCalls)
    r.places = [⟨2, "by card"⟩, ⟨1, "soup"⟩, ⟨4, "together"⟩, ⟨5, "cake"⟩, ⟨8, "tea"⟩, ⟨10, "nuts"⟩] ∧
      (r.places.map (·.number)).Nodup ∧ Stands tableCalls ⟨5, "cake"⟩ ∧ ¬Stands tableCalls ⟨0, "in cash"⟩ ∧
      r.replies[2]? = some (.addedKeyed true) ∧ firstQueued tableCalls 2 = firstQueued tableCalls 0 ∧
      r.replies[4]? = some (.addedKeyed false) ∧ (∀ i, ¬Supersedes tableCalls i 4) ∧
      firstQueued tableCalls 2 < firstQueued tableCalls 1 ∧
      r.batches.map (·.number) = [1, 2] := by
  intro r
  obtain ⟨-, ⟨honce, hstands⟩, hkeyed, hplace, hbatch, -, hnumbers⟩ := queue_accounts tableCalls
  have hplaces : r.places =
      [⟨2, "by card"⟩, ⟨1, "soup"⟩, ⟨4, "together"⟩, ⟨5, "cake"⟩, ⟨8, "tea"⟩, ⟨10, "nuts"⟩] := rfl
  have hsupersedes : Supersedes tableCalls 0 2 := by decide
  have htaken : r.replies[3]? = some (.taken (some ⟨1, [⟨2, "by card"⟩, ⟨1, "soup"⟩]⟩)) := rfl
  obtain ⟨replaced, hreply, hreplaced⟩ := hkeyed 2 "bill" rfl
  rw [hreplaced.mpr ⟨0, hsupersedes⟩] at hreply
  obtain ⟨later, hlater, hfirst⟩ := hkeyed 4 "bill" rfl
  have hfresh : r.replies[4]? = some (.addedKeyed false) := rfl
  cases hfresh.symm.trans hlater
  obtain ⟨-, -, hordered⟩ := hbatch 3 _ htaken
  refine ⟨hplaces, honce, (hstands _).mp (hplaces ▸ by simp), fun h => ?_, hreply, hplace 0 2 hsupersedes, hlater,
    fun i hi => ?_, (List.pairwise_cons.mp hordered).1 _ (List.mem_singleton_self _), hnumbers⟩
  · exact h.2 2 hsupersedes
  · exact absurd (hfirst.mpr ⟨i, hi⟩) Bool.false_ne_true

end FormSession
