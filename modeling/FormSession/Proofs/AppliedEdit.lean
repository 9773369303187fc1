import FormSession.Proofs.FieldEdit
import Mathlib.Order.Nat

/-! # An edit in closed form

What `applyTo` computes slot by slot, said at once: how many values an edit leaves and which one stands at each
row, from the edit and the values before it (`applyTo_closed_form`). The slots at and past the first row that goes
away have no part in it. -/

namespace FormSession.FieldEdit
variable {e : FieldEdit} {values : List String} {i : Nat}

/-- The value that an edit leaves at a row, if it leaves one there. -/
def valueAt (e : FieldEdit) (values : List String) (i : Nat) : String :=
  match e.slotAt i with
  | .write v => v
  | _ => values.getD i ""

theorem valueAt_of_write {v : String} (h : e.slotAt i = .write v) : e.valueAt values i = v := by
  rw [valueAt, h]

theorem valueAt_of_keep (h : e.slotAt i = .keep) : e.valueAt values i = values[i]?.getD "" := by
  rw [valueAt, h, List.getD_eq_getElem?_getD]

/-- The writes come in ascending order of their rows, so the last one is the furthest. -/
theorem writtenLength_eq (e : FieldEdit) : e.writtenLength = (e.writes.getLast?.map (·.1 + 1)).getD 0 := by
  -- Both sides are compared by what they are at most.
  refine eq_of_forall_ge_iff fun n => ?_
  have hwrites : e.writtenLength ≤ n ↔ ∀ w ∈ e.writes, w.1 < n := by
    rw [writtenLength_le_iff_uncut, Prod.forall]
    simp only [mem_writes_iff, ← cuts_eq_false_iff, and_imp]
    exact forall₂_congr fun i v => imp.swap
  rw [hwrites]
  cases hlast : e.writes.getLast? with
  | none => simp [List.getLast?_eq_none_iff.mp hlast]
  | some last =>
    obtain ⟨earlier, hall⟩ := List.getLast?_eq_some_iff.mp hlast
    have hordered := e.pairwise_writes
    rw [hall] at hordered ⊢
    have hearlier : ∀ w ∈ earlier, w.1 < last.1 := fun w hw =>
      (List.pairwise_append.mp hordered).2.2 w hw last (List.mem_singleton_self last)
    simp only [List.mem_append, List.mem_singleton, Option.map_some, Option.getD_some]
    constructor
    · exact fun h => h last (Or.inr rfl)
    · rintro h w (hw | rfl)
      · exact Nat.lt_trans (hearlier w hw) h
      · exact h

/-- No row is left where the edit cuts. -/
theorem cuts_eq_false_of_lt_length (h : i < (e.applyTo values).length) : e.cuts i = false := by
  cases hcut : e.cuts i with
  | false => rfl
  | true => exact absurd h (Nat.not_lt.mpr (List.getElem?_eq_none_iff.mp (getElem?_applyTo_of_cuts hcut values)))

theorem getElem?_applyTo (h : i < (e.applyTo values).length) : (e.applyTo values)[i]? = some (e.valueAt values i) := by
  have hc := cuts_eq_false_of_lt_length h
  cases hs : e.slotAt i with
  | write v => rw [valueAt_of_write hs, getElem?_applyTo_of_write hc hs]
  | drop =>
    rw [cuts_of_drop (getElem?_of_slotAt hs (by simp)) (Nat.le_refl i)] at hc
    cases hc
  | keep =>
    rw [valueAt_of_keep hs]
    rcases getElem?_applyTo_of_keep hc hs values with hkept | ⟨hnone, hpadded⟩
    · rw [← hkept, List.getElem?_eq_getElem h, Option.getD_some]
    · rw [hpadded, hnone, Option.getD_none]

/-- An edit leaves as many values as there were or as it writes to, whichever is more, but none from the first row
    that goes away on. Each is the one written to its row, the one that was there, or an empty one. What an edit
    writes are its written slots before that row, in order, and to apply it once more changes nothing. -/
theorem applyTo_closed_form (e : FieldEdit) (values : List String) :
    let w := (e.writes.getLast?.map (·.1 + 1)).getD 0
    let n := match e.firstDrop? with
      | some r => min (max values.length w) r
      | none => max values.length w
    e.applyTo values = (List.range n).map (e.valueAt values) ∧
      (∀ i v, (i, v) ∈ e.writes ↔ e.slotAt i = .write v ∧ ∀ r ∈ e.firstDrop?, i < r) ∧
      e.writes.Pairwise (fun a b => a.1 < b.1) ∧
      e.applyTo (e.applyTo values) = e.applyTo values := by
  intro w n
  have hlength : (e.applyTo values).length = n := by
    have hcount := length_applyTo e values
    rwa [writtenLength_eq] at hcount
  refine ⟨List.ext_getElem? fun i => ?_, fun i v => mem_writes_iff, e.pairwise_writes, e.applyTo_applyTo values⟩
  by_cases hi : i < n
  · rw [getElem?_applyTo (hlength ▸ hi), List.getElem?_map, List.getElem?_range hi, Option.map_some]
  · rw [List.getElem?_eq_none (hlength ▸ Nat.le_of_not_lt hi), List.getElem?_eq_none (by simpa using hi)]

/-- A write past the end pads the rows before it; the one past the first row that goes away is no write. -/
example : applyTo [.keep, .keep, .write "d", .keep, .drop, .write "f"] ["a"] = ["a", "", "d"] := by decide

end FormSession.FieldEdit
