import FormSession.Proofs.Coverage
import FormSession.Proofs.Quiet

/-! # What corrections write

A pass corrects rows by writing to them, and takes none away. If a field holds values, the rows that a pass
decides are rows that it holds, so that the corrections of the pass leave the number of its values as it is
(`writtenLength_corrections_le`). Corrections that wait may do otherwise once the values became fewer. -/

namespace FormSession
open FormSession.Action (followEdit)

/-- The edit takes no row away. -/
def FormEdit.WritesOnly (e : FormEdit) : Prop :=
  ∀ (f : String) (x : FieldEdit), e[f]? = some x → x.hasDrops = false

theorem FormEdit.WritesOnly.hasDrops_getD {e : FormEdit} (h : e.WritesOnly) (f : String) :
    FieldEdit.hasDrops (e.getD f []) = false := by
  rw [Std.ExtTreeMap.getD_eq_getD_getElem?]
  cases hx : e[f]? with
  | none => rfl
  | some x => exact h f x hx

/-- As many values as a task writes to a field. -/
def Task.writtenLength (f : String) : Task → Nat
  | .write e => (e.getD f []).writtenLength
  | .classify => 0

/-- The task is a write that takes no row away. -/
def Task.WritesOnly (task : Task) : Prop := ∃ e, task = .write e ∧ e.WritesOnly

/-! ### One pass -/

theorem Verdict.length_decided_le (v : Verdict) (rendered : Option Nat) {held : Nat} (h : 0 < held) :
    (v.decided rendered held).length ≤ held := by
  rw [decided, if_pos h, List.length_take]
  exact Nat.min_le_left ..

theorem Resolution.lt_of_mem_corrections {cx : PassContext} {force : Bool} {previous : List Bool} {field : String}
    {v : Verdict} {w : Nat × String} (h : w ∈ (resolve cx force previous field v).corrections) :
    w.1 < (resolve cx force previous field v).vector.length := by
  obtain ⟨visible, hchange, -⟩ := mem_corrections_iff.mp h
  have hrow := (mem_resolve_changes.mp hchange).1
  exact (List.getElem?_eq_some_iff.mp hrow).1

namespace Visibility
variable {v : Visibility} {cx : PassContext} {force : Bool} {m : Classification} {f : String} {x : FieldEdit}

theorem writesOnly_corrections : (v.pass cx force m).1.corrections.WritesOnly := by
  intro f x hx
  obtain ⟨r, -, -, -, rfl⟩ := exists_of_getElem?_pass_corrections hx
  exact FieldEdit.hasDrops_writeEach _

/-- A pass writes to no row past the values of a field that holds some. -/
theorem writtenLength_corrections_le (hx : (v.pass cx force m).1.corrections[f]? = some x)
    (held : 0 < (cx.values f).length) : x.writtenLength ≤ (cx.values f).length := by
  obtain ⟨r, hr, rfl, -, rfl⟩ := exists_of_getElem?_pass_corrections hx
  obtain ⟨f, verdict, -, -, -, rfl⟩ := mem_resolutions.mp hr
  refine FieldEdit.writtenLength_writeEach_le fun w hw => ?_
  exact Nat.lt_of_lt_of_le (Resolution.lt_of_mem_corrections hw) (verdict.length_decided_le _ held)

theorem writtenLength_write_corrections_le (held : 0 < (cx.values f).length) :
    Task.writtenLength f (.write (v.pass cx force m).1.corrections) ≤ (cx.values f).length := by
  rw [Task.writtenLength, Std.ExtTreeMap.getD_eq_getD_getElem?]
  cases hx : (v.pass cx force m).1.corrections[f]? with
  | none => exact Nat.zero_le _
  | some x => exact writtenLength_corrections_le hx held

end Visibility

/-! ### Sessions -/

namespace Session
variable {η : Type} [EditHook η] {form : Form} {s : Session η} {e : FormEdit}

theorem store_written (form : Form) (s : Session η) (e : FormEdit) : (s.written form e).store = (s.store.stage e).2 := by
  rw [written]
  rcases s.store.stage e with ⟨_ | u, store⟩ <;> rfl

theorem hooks_written (hooks : s.store.hooks = []) (e : FormEdit) : (s.written form e).store.hooks = [] := by
  have hlength : (s.ran form (.write e)).store.hooks.length = s.store.hooks.length :=
    keep_ran (P := fun t => t.store.hooks.length = s.store.hooks.length) (fun ht hs => ht.length_hooks.trans hs) rfl _
  exact List.length_eq_zero_iff.mp (hlength.trans (by rw [hooks, List.length_nil]))

/-- When an edit is written, what waits goes on to wait. What comes to wait are corrections: they take no row away,
    and do not lengthen a field that holds values. -/
theorem waiting_written {f : String} (held : 0 < (s.written form e).store.length f) :
    (∀ task ∈ s.queue.waiting.map (·.task), task ∈ (s.written form e).queue.waiting.map (·.task)) ∧
      ∀ task ∈ (s.written form e).queue.waiting.map (·.task), task ∈ s.queue.waiting.map (·.task) ∨
        (task.WritesOnly ∧ task.writtenLength f ≤ (s.written form e).store.length f) := by
  rw [written] at held ⊢
  rcases hstage : s.store.stage e with ⟨_ | u, store⟩
  · exact ⟨fun task htask => htask, fun task htask => Or.inl htask⟩
  · refine ⟨fun task htask => TaskQueue.mem_corrected.mpr (Or.inl htask), fun task htask => ?_⟩
    rcases TaskQueue.mem_corrected.mp htask with hbefore | ⟨-, rfl⟩
    · exact Or.inl hbefore
    · rw [hstage] at held
      exact Or.inr ⟨⟨_, rfl, Visibility.writesOnly_corrections⟩, Visibility.writtenLength_write_corrections_le held⟩

end Session

namespace Store
variable {η : Type} [EditHook η] {s : Store η} {e : FormEdit}

/-- An edit that takes no row away lengthens a field as far as it writes. -/
theorem length_stage (hooks : s.hooks = []) (he : e.WritesOnly) (f : String) :
    (s.stage e).2.length f = max (s.length f) (FieldEdit.writtenLength (e.getD f [])) := by
  rw [Store.length, values_stage_applyTo hooks]
  exact FieldEdit.length_applyTo_of_no_drops (he.hasDrops_getD f) _

end Store

end FormSession
