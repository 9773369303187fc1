import FormSession.Proofs.RowTargets
import FormSession.Rows.Tracker

/-! # Steps of a tracker

Whatever happens to a session, the tracker of a group keeps its rows, begins or ceases to be displayed, or
takes a target whose number of rows is that of the values (`RowTracker.Step`). Each of these steps lets the
rows follow the values (`Step.counts`), because the target of a published edit asks for as many rows as
there are values after it (`RowTarget.leads_ofEdit`). What a tracker tells of it can be taken where it comes: a row is
added after the last one, a row that is there is removed, the last row is torn down (`replays_submit`,
`replays_setActive`). -/

namespace FormSession

namespace RowTracker
variable {k k' : RowTracker} {held before after : Nat}

/-- The rows follow a number of values: the rows shown do if the group is displayed; if it is not, the
    target kept for later does, or the rows shown do and nothing is kept. -/
structure Counts (k : RowTracker) (held : Nat) : Prop where
  shown : k.active = true → k.count = k.bounds.clamp held
  kept : k.active = false → (∃ target, k.pending = some target ∧ target.desired = held) ∨
    (k.pending = none ∧ k.count = k.bounds.clamp held)

/-- A displayed group keeps no target for later. -/
def Settled (k : RowTracker) : Prop := k.active = true → k.pending = none

theorem settled_new (field : String) (bounds : RowBounds) : (new field bounds).Settled := fun _ => rfl

/-- What can happen to a tracker when the number of values goes from one to another. -/
inductive Step (before after : Nat) (k : RowTracker) : RowTracker → Prop
  | keeps (same : after = before) : Step before after k k
  | displays (active : Bool) (same : after = before) : Step before after k (k.setActive active).2
  | submits (target : RowTarget) (desired : target.desired = after) : Step before after k (k.submit target).2

/-! ### Targets -/

theorem active_submit (k : RowTracker) (target : RowTarget) : (k.submit target).2.active = k.active := by
  rw [submit]
  split <;> rfl

theorem submit_of_active (h : k.active = true) (target : RowTarget) :
    (k.submit target).2 = { k with count := k.bounds.clamp target.desired } := by
  rw [submit, if_pos h]
  rfl

theorem submit_of_not_active (h : k.active = false) (target : RowTarget) : ∃ kept, kept.desired = target.desired ∧
    (k.submit target).2 = { k with pending := some kept } := by
  rw [submit, if_neg (by simp [h])]
  cases k.pending with
  | none => exact ⟨target, rfl, rfl⟩
  | some earlier => exact ⟨earlier.absorb target, rfl, rfl⟩

/-- Taking a target makes the rows follow it, whatever was before. -/
theorem counts_submit (k : RowTracker) (target : RowTarget) : (k.submit target).2.Counts target.desired := by
  cases h : k.active with
  | true =>
    rw [submit_of_active h]
    exact ⟨fun _ => rfl, fun hn => absurd (h.symm.trans hn) (by simp)⟩
  | false =>
    obtain ⟨kept, hkept, hk⟩ := submit_of_not_active h target
    rw [hk]
    exact ⟨fun hn => absurd (h.symm.trans hn) (by simp), fun _ => Or.inl ⟨kept, rfl, hkept⟩⟩

theorem settled_submit (h : k.Settled) (target : RowTarget) : (k.submit target).2.Settled := by
  cases ha : k.active with
  | true =>
    rw [submit_of_active ha]
    exact h
  | false =>
    obtain ⟨kept, -, hk⟩ := submit_of_not_active ha target
    rw [hk]
    exact fun hn => absurd (ha.symm.trans hn) (by simp)

/-! ### Displaying -/

/-- Displaying a group leaves nothing kept, and the rows at the kept target if there was one. -/
theorem setActive_true (k : RowTracker) : ∃ count,
    (k.setActive true).2 = { k with count, active := true, pending := none } ∧
      ((∃ target, k.pending = some target ∧ count = k.bounds.clamp target.desired) ∨
        (k.pending = none ∧ count = k.count)) := by
  cases hp : k.pending with
  | none => exact ⟨k.count, by simp [setActive, hp], Or.inr ⟨rfl, rfl⟩⟩
  | some target => exact ⟨k.bounds.clamp target.desired, by simp [setActive, hp, realize], Or.inl ⟨target, rfl, rfl⟩⟩

theorem counts_setActive (settled : k.Settled) (counts : k.Counts held) (active : Bool) :
    (k.setActive active).2.Counts held := by
  cases active with
  | true =>
    obtain ⟨count, hk, hcount⟩ := k.setActive_true
    rw [hk]
    refine ⟨fun _ => ?_, fun hn => by cases hn⟩
    show count = k.bounds.clamp held
    -- What was kept back for a tracker that is not active is realized now; one that is active has nothing kept back.
    cases ha : k.active with
    | true =>
      have hp := settled ha
      obtain ⟨target, ht, -⟩ | ⟨-, hcount⟩ := hcount
      · rw [hp] at ht
        cases ht
      · rw [hcount, counts.shown ha]
    | false =>
      obtain ⟨target, ht, hcount⟩ | ⟨hp, hcount⟩ := hcount
      · obtain ⟨target', ht', hdesired⟩ | ⟨hnone, -⟩ := counts.kept ha
        · rw [ht] at ht'
          cases ht'
          rw [hcount, hdesired]
        · rw [ht] at hnone
          cases hnone
      · obtain ⟨target', ht', -⟩ | ⟨-, hshown⟩ := counts.kept ha
        · rw [hp] at ht'
          cases ht'
        · rw [hcount, hshown]
  | false =>
    refine ⟨fun hn => (by cases hn), fun _ => ?_⟩
    cases ha : k.active with
    | true => exact Or.inr ⟨settled ha, counts.shown ha⟩
    | false => exact counts.kept ha

theorem settled_setActive (k : RowTracker) (active : Bool) : (k.setActive active).2.Settled := by
  cases active with
  | true =>
    obtain ⟨count, hk, -⟩ := k.setActive_true
    rw [hk]
    exact fun _ => rfl
  | false => exact fun hn => (by cases hn)

/-! ### Every step -/

namespace Step

theorem settled (h : Step before after k k') (hk : k.Settled) : k'.Settled := by
  cases h with
  | keeps => exact hk
  | displays active => exact settled_setActive k active
  | submits target => exact settled_submit hk target

/-- The rows follow the values after every step. -/
theorem counts (h : Step before after k k') (hk : k.Settled) (hc : k.Counts before) : k'.Counts after := by
  cases h with
  | keeps same => exact same ▸ hc
  | displays active same => exact same ▸ counts_setActive hk hc active
  | submits target desired => exact desired ▸ counts_submit k target

/-- A step never changes which field a tracker follows, nor its bounds. -/
theorem same_group (h : Step before after k k') : k'.lengthField = k.lengthField ∧ k'.bounds = k.bounds := by
  cases h with
  | keeps => exact ⟨rfl, rfl⟩
  | displays active =>
    cases active with
    | true =>
      obtain ⟨count, hk, -⟩ := k.setActive_true
      rw [hk]
      exact ⟨rfl, rfl⟩
    | false => exact ⟨rfl, rfl⟩
  | submits target =>
    cases ha : k.active with
    | true =>
      rw [submit_of_active ha]
      exact ⟨rfl, rfl⟩
    | false =>
      obtain ⟨kept, -, hk⟩ := submit_of_not_active ha target
      rw [hk]
      exact ⟨rfl, rfl⟩

end Step

end RowTracker

/-! ### What is told, step by step -/

namespace RowOp
variable {n : Nat}

/-- The number of rows after a step, if it can be taken with `n` rows: a row is added after the last one, one of
    the rows is removed, or the last one is torn down. -/
def after? (n : Nat) : RowOp → Option Nat
  | add i => if i = n then some (n + 1) else none
  | remove i => if i < n then some (n - 1) else none
  | reset i => if i + 1 = n then some i else none

/-- The number of rows after steps that start with `n` rows, if each can be taken where it comes. -/
def replay? : Nat → List RowOp → Option Nat
  | n, [] => some n
  | n, op :: rest => (op.after? n).bind fun m => replay? m rest

theorem replay?_append (n : Nat) (ops rest : List RowOp) :
    replay? n (ops ++ rest) = (replay? n ops).bind fun m => replay? m rest := by
  induction ops generalizing n with
  | nil => rfl
  | cons op ops ih =>
    rw [List.cons_append, replay?, replay?]
    cases op.after? n with
    | none => rfl
    | some m => exact ih m

end RowOp

namespace RowTracker
open RowOp (replay?)

theorem replay?_resets (count : Nat) : replay? count (resets count) = some 0 := by
  induction count with
  | zero => rfl
  | succ n ih =>
    have hlast : resets (n + 1) = .reset n :: resets n := by
      simp [resets, List.range_succ]
    rw [hlast]
    simpa [replay?, RowOp.after?] using ih

theorem replay?_range' (count k : Nat) : replay? count ((List.range' count k).map .add) = some (count + k) := by
  induction k generalizing count with
  | zero => rfl
  | succ k ih =>
    have hrest := ih (count + 1)
    rw [Nat.add_assoc, Nat.add_comm 1] at hrest
    simpa [List.range'_succ, replay?, RowOp.after?] using hrest

theorem replay?_additions (count goal : Nat) : replay? count (additions count goal) = some (max count goal) := by
  rw [additions, replay?_range']
  congr 1
  omega

/-- Removals name rows that are there, whatever rows are marked as gone. -/
theorem replay?_removals {k count : Nat} (h : k ≤ count) (marked : List Nat) :
    replay? count (removals k count marked) = some (count - k) := by
  induction k generalizing count marked with
  | zero => rfl
  | succ k ih =>
    have hrest : ∀ left, replay? (count - 1) (removals k (count - 1) left) = some (count - (k + 1)) := fun left => by
      rw [ih (by omega), Nat.sub_sub, Nat.add_comm 1]
    rw [removals]
    cases hmarked : marked.dropWhile (count ≤ ·) with
    | nil =>
      have hlast : count - 1 < count := by omega
      simpa [replay?, RowOp.after?, hlast] using hrest []
    | cons i rest =>
      -- What is left of the marked rows begins with one that is shown.
      have hshown : i < count := by
        have hhead := List.head?_dropWhile_not (count ≤ ·) marked
        rw [hmarked] at hhead
        simpa using hhead
      simpa [replay?, RowOp.after?, hshown] using hrest rest

theorem replay?_steps (target : RowTarget) (count goal : Nat) :
    replay? count (steps target count goal) = some goal := by
  have hbuild : ∀ left, replay? left (additions left goal ++ removals (left - goal) left target.removed.reverse) =
      some goal := fun left => by
    rw [RowOp.replay?_append, replay?_additions, Option.bind_some]
    rcases Nat.le_total left goal with hgrow | hshrink
    · rw [Nat.sub_eq_zero_of_le hgrow, Nat.max_eq_right hgrow]
      rfl
    · rw [Nat.max_eq_left hshrink, replay?_removals (Nat.sub_le ..), Nat.sub_sub_self hshrink]
  rw [steps, List.append_assoc]
  cases target.reset with
  | true =>
    rw [if_pos rfl, if_pos rfl, RowOp.replay?_append, replay?_resets]
    exact hbuild 0
  | false =>
    rw [if_neg Bool.false_ne_true, if_neg Bool.false_ne_true]
    exact hbuild count

/-- The steps of a move lead from the rows of one tracker to those of another. -/
def Replays (k : RowTracker) (move : List RowOp × RowTracker) : Prop := replay? k.count move.1 = some move.2.count

theorem replays_still {k k' : RowTracker} (h : k'.count = k.count) : k.Replays ([], k') := congrArg some h.symm

theorem replays_realize (k : RowTracker) (target : RowTarget) : k.Replays (k.realize target) := replay?_steps ..

theorem replays_submit (k : RowTracker) (target : RowTarget) : k.Replays (k.submit target) := by
  rw [submit]
  split
  · exact k.replays_realize target
  · exact replays_still rfl

theorem replays_setActive (k : RowTracker) (active : Bool) : k.Replays (k.setActive active) := by
  cases active with
  | true =>
    cases hp : k.pending with
    | none =>
      rw [setActive, hp]
      exact replays_still rfl
    | some target =>
      rw [setActive, hp]
      exact replays_realize { k with active := true, pending := none } target
  | false => exact replays_still rfl

theorem length_removals (n count : Nat) (marked : List Nat) : (removals n count marked).length = n := by
  induction n generalizing count marked with
  | zero => rfl
  | succ n ih =>
    rw [removals]
    split <;> rw [List.length_cons, ih]

/-- Without a teardown there is one step for each row more or less. -/
theorem length_realize (k : RowTracker) {target : RowTarget} (kept : target.reset = false) :
    (k.realize target).1.length = ((k.count : Int) - (k.realize target).2.count).natAbs := by
  have hcount : (k.realize target).2.count = k.bounds.clamp target.desired := rfl
  rw [hcount, realize, steps, kept]
  simp only [Bool.false_eq_true, ↓reduceIte, List.nil_append, List.length_append, additions, List.length_map,
    List.length_range', length_removals]
  omega

section OneRow
variable {target : RowTarget} {n : Nat}

theorem steps_same (kept : target.reset = false) (n : Nat) : steps target n n = [] := by
  simp [steps, kept, additions, removals]

theorem steps_add (kept : target.reset = false) (n : Nat) : steps target n (n + 1) = [.add n] := by
  simp [steps, kept, additions, removals]

/-- One row less is the last one, if no row before it went away. -/
theorem steps_remove (kept : target.reset = false) (gone : ∀ i ∈ target.removed, n ≤ i) :
    steps target (n + 1) n = [.remove n] := by
  have hlast : removals 1 (n + 1) target.removed.reverse = [.remove n] := by
    rw [removals]
    cases hmarked : target.removed.reverse.dropWhile (n + 1 ≤ ·) with
    | nil => rfl
    | cons i rest =>
      have hhead := List.head?_dropWhile_not (n + 1 ≤ ·) target.removed.reverse
      rw [hmarked] at hhead
      have hshown : i < n + 1 := by simpa using hhead
      have hmem : i ∈ target.removed.reverse :=
        (List.dropWhile_sublist (n + 1 ≤ ·)).subset (hmarked ▸ List.mem_cons_self)
      obtain rfl : i = n := Nat.le_antisymm (Nat.le_of_lt_succ hshown) (gone i (List.mem_reverse.mp hmem))
      rfl
  simp [steps, kept, additions, hlast]

variable {k : RowTracker}

theorem realize_same (kept : target.reset = false) (hgoal : k.bounds.clamp target.desired = k.count) :
    k.realize target = ([], k) := by
  rw [realize, hgoal, steps_same kept]

theorem realize_add (kept : target.reset = false) (hgoal : k.bounds.clamp target.desired = k.count + 1) :
    k.realize target = ([.add k.count], { k with count := k.count + 1 }) := by
  rw [realize, hgoal, steps_add kept]

theorem realize_remove (kept : target.reset = false) (gone : ∀ i ∈ target.removed, n ≤ i)
    (hgoal : k.bounds.clamp target.desired = n) (hcount : k.count = n + 1) :
    k.realize target = ([.remove n], { k with count := n }) := by
  rw [realize, hgoal, hcount, steps_remove kept gone]

end OneRow

end RowTracker

end FormSession
