import FormSession.TaskQueue
import Mathlib.Data.Nat.Find

/-! # Calls of a queue

What can be asked of a queue of tasks, and what a list of such calls says of its tasks, without a look at the queue: the
calls are numbered from 0 on, each task has the number of the call that queued it, and a task takes the place of an
earlier one if both have the same key and nothing was handed out or cleared between them (`Supersedes`). The place that
a task has in the queue was first queued by the earliest task of which it takes the place (`firstQueued`). -/

namespace FormSession

/-- What is asked of a queue. -/
inductive QueueCall (α : Type) where
  | add (task : α)
  | addKeyed (key : String) (task : α)
  | takeBatch
  | clear

/-- A task with the number of the call that queued it. -/
@[ext]
structure Ticket (α : Type) where
  number : Nat
  task : α
  deriving DecidableEq

namespace QueueCall
variable {α β : Type}

/-- The task that a call queues. -/
def task? : QueueCall α → Option α
  | add task => some task
  | addKeyed _ task => some task
  | _ => none

/-- The key under which a call queues its task. -/
def key? : QueueCall α → Option String
  | addKeyed key _ => some key
  | _ => none

/-- The call leaves nothing waiting. -/
def releases : QueueCall α → Bool
  | takeBatch => true
  | clear => true
  | _ => false

/-- The same call with another task. -/
def map (f : α → β) : QueueCall α → QueueCall β
  | add task => add (f task)
  | addKeyed key task => addKeyed key (f task)
  | takeBatch => takeBatch
  | clear => clear

variable {c : QueueCall α} {f : α → β} {key : String}

theorem key?_of_releases (h : c.releases = true) : c.key? = none := by
  cases c with
  | addKeyed => cases h
  | _ => rfl

theorem task?_of_releases (h : c.releases = true) : c.task? = none := by
  cases c with
  | add | addKeyed => cases h
  | _ => rfl

theorem releases_of_task? {task : α} (h : c.task? = some task) : c.releases = false := by
  rw [Bool.eq_false_iff]
  intro hreleases
  rw [task?_of_releases hreleases] at h
  cases h

@[simp] theorem task?_map (f : α → β) (c : QueueCall α) : (c.map f).task? = c.task?.map f := by
  cases c <;> rfl

@[simp] theorem key?_map (f : α → β) (c : QueueCall α) : (c.map f).key? = c.key? := by
  cases c <;> rfl

@[simp] theorem releases_map (f : α → β) (c : QueueCall α) : (c.map f).releases = c.releases := by
  cases c <;> rfl

theorem map_eq_addKeyed {task : β} (h : c.map f = .addKeyed key task) : ∃ t, c = .addKeyed key t ∧ f t = task := by
  cases c with
  | addKeyed k t =>
    cases h
    exact ⟨t, rfl, rfl⟩
  | _ => cases h

end QueueCall

namespace QueueCalls
variable {α : Type} {calls : List (QueueCall α)} {c : QueueCall α} {i j o n : Nat} {key : String} {task : α}

/-- The calls with each task as a ticket. -/
def numbered (calls : List (QueueCall α)) : List (QueueCall (Ticket α)) := calls.mapIdx fun i c => c.map (Ticket.mk i)

/-- The task queued by the call of a number. -/
def taskAt (calls : List (QueueCall α)) (i : Nat) : Option α := calls[i]?.bind QueueCall.task?

/-- The key of the task queued by the call of a number. -/
def keyAt (calls : List (QueueCall α)) (i : Nat) : Option String := calls[i]?.bind QueueCall.key?

/-- The call of a number empties the queue. -/
def releasesAt (calls : List (QueueCall α)) (i : Nat) : Bool := calls[i]?.any QueueCall.releases

/-- Nothing was handed out or cleared since. -/
def Unreleased (calls : List (QueueCall α)) (i : Nat) : Prop := ∀ p, i < p → releasesAt calls p = false

/-- A task takes the place of an earlier one: the keys are the same, and nothing is handed out or cleared in between. -/
structure Supersedes (calls : List (QueueCall α)) (i j : Nat) : Prop where
  before : i < j
  keyed : (keyAt calls i).isSome
  same : keyAt calls j = keyAt calls i
  undisturbed : ∀ p < j, i < p → releasesAt calls p = false

theorem supersedes_iff : Supersedes calls i j ↔ i < j ∧ (keyAt calls i).isSome ∧ keyAt calls j = keyAt calls i ∧
    ∀ p < j, i < p → releasesAt calls p = false :=
  ⟨fun h => ⟨h.before, h.keyed, h.same, h.undisturbed⟩, fun ⟨hb, hk, hs, hu⟩ => ⟨hb, hk, hs, hu⟩⟩

instance : Decidable (Supersedes calls i j) := decidable_of_iff' _ supersedes_iff

/-- The task would take the place of an earlier one if it was queued next. -/
def Replaces (calls : List (QueueCall α)) (c : QueueCall α) (i : Nat) : Prop :=
  ∃ key, c.key? = some key ∧ keyAt calls i = some key ∧ Unreleased calls i

/-- The task was queued, and no later one took its place. -/
def Stands (calls : List (QueueCall α)) (x : Ticket α) : Prop :=
  taskAt calls x.number = some x.task ∧ ∀ j, ¬Supersedes calls x.number j

/-- The call that first queued something at the place of a task: the earliest one whose place it takes. -/
def firstQueued (calls : List (QueueCall α)) (i : Nat) : Nat :=
  Nat.find (⟨i, Or.inl rfl⟩ : ∃ o, o = i ∨ Supersedes calls o i)

/-! ### Calls and one more -/

theorem lt_length_of_taskAt (h : taskAt calls i = some task) : i < calls.length := by
  obtain ⟨c, hc, -⟩ := Option.bind_eq_some_iff.mp h
  exact (List.getElem?_eq_some_iff.mp hc).1

theorem lt_length_of_keyAt (h : keyAt calls i = some key) : i < calls.length := by
  obtain ⟨c, hc, -⟩ := Option.bind_eq_some_iff.mp h
  exact (List.getElem?_eq_some_iff.mp hc).1

theorem numbered_concat (calls : List (QueueCall α)) (c : QueueCall α) :
    numbered (calls ++ [c]) = numbered calls ++ [c.map (Ticket.mk calls.length)] :=
  List.mapIdx_concat

theorem numbered_append_cons (calls : List (QueueCall α)) (c : QueueCall α) (rest : List (QueueCall α)) :
    ∃ rest', numbered (calls ++ c :: rest) = numbered calls ++ c.map (Ticket.mk calls.length) :: rest' := by
  rw [numbered, List.mapIdx_append, List.mapIdx_cons, Nat.zero_add]
  exact ⟨_, rfl⟩

theorem map_task_numbered (calls : List (QueueCall α)) : (numbered calls).map (QueueCall.map Ticket.task) = calls := by
  refine List.ext_getElem? fun i => ?_
  rw [List.getElem?_map, numbered, List.getElem?_mapIdx, Option.map_map]
  have hsame : QueueCall.map Ticket.task ∘ QueueCall.map (Ticket.mk i) = (id : QueueCall α → QueueCall α) := by
    funext c
    cases c <;> rfl
  rw [hsame, Option.map_id_apply]

theorem taskAt_append (h : i < calls.length) (rest : List (QueueCall α)) :
    taskAt (calls ++ rest) i = taskAt calls i := by
  rw [taskAt, taskAt, List.getElem?_append_left h]

theorem keyAt_append (h : i < calls.length) (rest : List (QueueCall α)) : keyAt (calls ++ rest) i = keyAt calls i := by
  rw [keyAt, keyAt, List.getElem?_append_left h]

theorem releasesAt_append (h : i < calls.length) (rest : List (QueueCall α)) :
    releasesAt (calls ++ rest) i = releasesAt calls i := by
  rw [releasesAt, releasesAt, List.getElem?_append_left h]

@[simp] theorem taskAt_concat_length : taskAt (calls ++ [c]) calls.length = c.task? := by
  simp [taskAt]

@[simp] theorem keyAt_concat_length : keyAt (calls ++ [c]) calls.length = c.key? := by
  simp [keyAt]

@[simp] theorem releasesAt_concat_length : releasesAt (calls ++ [c]) calls.length = c.releases := by
  simp [releasesAt]

theorem eq_ticket_iff {x : Ticket α} (queues : c.task? = some task) :
    x = ⟨n, task⟩ ↔ x.number = n ∧ c.task? = some x.task := by
  rw [Ticket.ext_iff, queues, Option.some.injEq, eq_comm (a := task)]

theorem keyAt_concat (h : keyAt (calls ++ [c]) i = some key) :
    i < calls.length ∧ keyAt calls i = some key ∨ i = calls.length ∧ c.key? = some key := by
  rcases Nat.lt_or_ge i calls.length with hlt | hge
  · exact Or.inl ⟨hlt, keyAt_append hlt [c] ▸ h⟩
  · have hi := lt_length_of_keyAt h
    rw [List.length_append, List.length_singleton] at hi
    obtain rfl : i = calls.length := by omega
    exact Or.inr ⟨rfl, keyAt_concat_length.symm.trans h⟩

theorem releasesAt_of_length_le (h : calls.length ≤ i) : releasesAt calls i = false := by
  rw [releasesAt, List.getElem?_eq_none h]
  rfl

theorem unreleased_of_length_le (h : calls.length ≤ i + 1) : Unreleased calls i := fun _ hp =>
  releasesAt_of_length_le (Nat.le_trans h hp)

theorem unreleased_concat (h : i < calls.length) :
    Unreleased (calls ++ [c]) i ↔ Unreleased calls i ∧ c.releases = false := by
  constructor
  · intro hall
    refine ⟨fun p hp => ?_, releasesAt_concat_length ▸ hall calls.length h⟩
    rcases Nat.lt_or_ge p calls.length with hlt | hge
    · exact releasesAt_append hlt [c] ▸ hall p hp
    · exact releasesAt_of_length_le hge
  · rintro ⟨hall, hc⟩ p hp
    rcases Nat.lt_trichotomy p calls.length with hlt | rfl | hgt
    · exact (releasesAt_append hlt [c]).trans (hall p hp)
    · exact releasesAt_concat_length.trans hc
    · exact releasesAt_of_length_le (by simpa using Nat.succ_le_of_lt hgt)

/-! ### Places -/

theorem Supersedes.lt_length (h : Supersedes calls i j) : j < calls.length := by
  obtain ⟨key, hkey⟩ := Option.isSome_iff_exists.mp h.keyed
  exact lt_length_of_keyAt (h.same.trans hkey)

theorem supersedes_append (h : j < calls.length) (rest : List (QueueCall α)) :
    Supersedes (calls ++ rest) i j ↔ Supersedes calls i j := by
  have hkeys : i < j → keyAt (calls ++ rest) i = keyAt calls i := fun hi => keyAt_append (Nat.lt_trans hi h) rest
  have hreleases : ∀ p < j, releasesAt (calls ++ rest) p = releasesAt calls p := fun p hp =>
    releasesAt_append (Nat.lt_trans hp h) rest
  rw [supersedes_iff, supersedes_iff, keyAt_append h]
  refine and_congr_right fun hi => ?_
  rw [hkeys hi]
  refine and_congr_right fun _ => and_congr_right fun _ => forall_congr' fun p => ?_
  exact forall_congr' fun hp => by rw [hreleases p hp]

theorem supersedes_concat_length : Supersedes (calls ++ [c]) i calls.length ↔ Replaces calls c i := by
  constructor
  · intro h
    obtain ⟨key, hkey⟩ := Option.isSome_iff_exists.mp h.keyed
    rw [keyAt_append h.before] at hkey
    refine ⟨key, ?_, hkey, fun p hp => ?_⟩
    · have hlast : keyAt (calls ++ [c]) calls.length = c.key? := keyAt_concat_length
      rw [← hlast, h.same, keyAt_append h.before, hkey]
    · rcases Nat.lt_or_ge p calls.length with hlt | hge
      · exact releasesAt_append hlt [c] ▸ h.undisturbed p hlt hp
      · exact releasesAt_of_length_le hge
  · rintro ⟨key, hc, hkey, hunreleased⟩
    have hi := lt_length_of_keyAt hkey
    refine ⟨hi, ?_, ?_, fun p hp hip => ?_⟩
    · rw [keyAt_append hi, hkey]
      rfl
    · rw [keyAt_concat_length, keyAt_append hi, hc, hkey]
    · exact (releasesAt_append hp [c]).trans (hunreleased p hip)

/-- One more call leaves it at who took the place of whom, but that its own task may take places. -/
theorem supersedes_concat :
    Supersedes (calls ++ [c]) i j ↔ Supersedes calls i j ∨ j = calls.length ∧ Replaces calls c i := by
  rcases Nat.lt_trichotomy j calls.length with hlt | rfl | hgt
  · rw [supersedes_append hlt]
    exact ⟨Or.inl, fun h => h.resolve_right fun hlast => absurd hlast.1 (Nat.ne_of_lt hlt)⟩
  · rw [supersedes_concat_length]
    exact ⟨fun h => Or.inr ⟨rfl, h⟩, fun h => h.elim (fun hold => absurd hold.lt_length (Nat.lt_irrefl _)) (·.2)⟩
  · refine ⟨fun h => ?_, fun h => ?_⟩
    · have hj := h.lt_length
      rw [List.length_append, List.length_singleton] at hj
      omega
    · rcases h with hold | ⟨hlast, -⟩
      · exact absurd hold.lt_length (Nat.not_lt_of_gt hgt)
      · omega

/-- One more call adds its own task to those that stand, and takes away those whose place it takes. -/
theorem stands_concat {x : Ticket α} : Stands (calls ++ [c]) x ↔
    Stands calls x ∧ ¬Replaces calls c x.number ∨ x.number = calls.length ∧ c.task? = some x.task := by
  rcases Nat.lt_trichotomy x.number calls.length with hlt | heq | hgt
  · have hsame : (∀ j, ¬Supersedes (calls ++ [c]) x.number j) ↔
        (∀ j, ¬Supersedes calls x.number j) ∧ ¬Replaces calls c x.number := by
      simp only [supersedes_concat, not_or, forall_and, not_and, forall_eq]
    rw [Stands, Stands, taskAt_append hlt, hsame, and_assoc]
    exact ⟨Or.inl, fun h => h.resolve_right fun hlast => absurd hlast.1 (Nat.ne_of_lt hlt)⟩
  · have hlast : ∀ j, ¬Supersedes (calls ++ [c]) x.number j := fun j h => by
      have hj := h.lt_length
      have hbefore := h.before
      rw [List.length_append, List.length_singleton] at hj
      omega
    rw [Stands, Stands, heq, taskAt_concat_length]
    refine ⟨fun h => Or.inr ⟨rfl, h.1⟩, fun h => ?_⟩
    rcases h with ⟨⟨hold, -⟩, -⟩ | ⟨-, htask⟩
    · exact absurd (lt_length_of_taskAt hold) (Nat.lt_irrefl _)
    · exact ⟨htask, heq ▸ hlast⟩
  · refine iff_of_false (fun h => ?_) fun h => ?_
    · have hx := lt_length_of_taskAt h.1
      rw [List.length_append, List.length_singleton] at hx
      omega
    · rcases h with ⟨⟨hold, -⟩, -⟩ | ⟨hlast, -⟩
      · exact absurd (lt_length_of_taskAt hold) (Nat.not_lt_of_gt hgt)
      · omega

theorem Supersedes.of_unreleased (hlt : i < j) (hi : keyAt calls i = some key) (hj : keyAt calls j = some key)
    (h : Unreleased calls i) : Supersedes calls i j where
  before := hlt
  keyed := by
    rw [hi]
    rfl
  same := hj.trans hi.symm
  undisturbed p _ hp := h p hp

/-- Of two tasks with the same key since everything was released last, one took the place of the other. -/
theorem Stands.eq_of_key {x y : Ticket α} (hx : Stands calls x) (hy : Stands calls y)
    (hkx : keyAt calls x.number = some key) (hky : keyAt calls y.number = some key) (hux : Unreleased calls x.number)
    (huy : Unreleased calls y.number) : x = y := by
  rcases Nat.lt_trichotomy x.number y.number with hlt | heq | hgt
  · exact absurd (.of_unreleased hlt hkx hky hux) (hx.2 y.number)
  · refine Ticket.ext heq (Option.some.inj ?_)
    rw [← hx.1, ← hy.1, heq]
  · exact absurd (.of_unreleased hgt hky hkx huy) (hy.2 x.number)

theorem Supersedes.trans (h : Supersedes calls i j) (h' : Supersedes calls j n) : Supersedes calls i n where
  before := Nat.lt_trans h.before h'.before
  keyed := h.keyed
  same := h'.same.trans h.same
  undisturbed p hp hip := by
    rcases Nat.lt_trichotomy p j with hlt | rfl | hgt
    · exact h.undisturbed p hlt hip
    · -- A call with a key releases nothing.
      rw [Bool.eq_false_iff]
      intro hrelease
      obtain ⟨c, hc, hreleases⟩ := (Option.any_eq_true ..).mp hrelease
      have hkey := h.same ▸ h.keyed
      rw [keyAt, hc, Option.bind_some, QueueCall.key?_of_releases hreleases] at hkey
      cases hkey
    · exact h'.undisturbed p hp hgt

theorem Supersedes.between (h : Supersedes calls o j) (h' : Supersedes calls i j) (hlt : o < i) :
    Supersedes calls o i where
  before := hlt
  keyed := h.keyed
  same := h'.same.symm.trans h.same
  undisturbed p hp := h.undisturbed p (Nat.lt_trans hp h'.before)

theorem firstQueued_spec (calls : List (QueueCall α)) (i : Nat) :
    firstQueued calls i = i ∨ Supersedes calls (firstQueued calls i) i :=
  Nat.find_spec (p := fun o => o = i ∨ Supersedes calls o i) _

theorem firstQueued_le (calls : List (QueueCall α)) (i : Nat) : firstQueued calls i ≤ i := by
  rcases firstQueued_spec calls i with h | h
  · exact Nat.le_of_eq h
  · exact Nat.le_of_lt h.before

theorem firstQueued_le_of_supersedes (h : Supersedes calls o i) : firstQueued calls i ≤ o :=
  Nat.find_min' (p := fun o => o = i ∨ Supersedes calls o i) _ (Or.inr h)

/-- A task has the place of each one that it supersedes. -/
theorem Supersedes.firstQueued (h : Supersedes calls i j) : firstQueued calls j = firstQueued calls i := by
  apply Nat.le_antisymm
  · rcases firstQueued_spec calls i with hself | hearlier
    · rw [hself]
      exact firstQueued_le_of_supersedes h
    · exact firstQueued_le_of_supersedes (hearlier.trans h)
  · have hle : QueueCalls.firstQueued calls j ≤ i := firstQueued_le_of_supersedes h
    rcases firstQueued_spec calls j with hself | hearlier
    · exact absurd (hself ▸ hle) (Nat.not_le_of_gt h.before)
    · rcases Nat.lt_or_eq_of_le hle with hlt | heq
      · exact firstQueued_le_of_supersedes (hearlier.between h hlt)
      · exact heq ▸ firstQueued_le calls i

/-- Tasks with the same key since everything was released last have one place. -/
theorem firstQueued_eq_of_key (hi : keyAt calls i = some key) (hj : keyAt calls j = some key)
    (hui : Unreleased calls i) (huj : Unreleased calls j) : firstQueued calls i = firstQueued calls j := by
  rcases Nat.lt_trichotomy i j with hlt | rfl | hgt
  · exact (Supersedes.of_unreleased hlt hi hj hui).firstQueued.symm
  · rfl
  · exact (Supersedes.of_unreleased hgt hj hi huj).firstQueued

theorem firstQueued_of_none (h : ∀ o, ¬Supersedes calls o i) : firstQueued calls i = i :=
  (firstQueued_spec calls i).resolve_right (h _)

theorem firstQueued_append (h : i < calls.length) (rest : List (QueueCall α)) :
    firstQueued (calls ++ rest) i = firstQueued calls i :=
  Nat.find_congr' fun {_} => or_congr_right (supersedes_append h rest)

end QueueCalls

end FormSession
