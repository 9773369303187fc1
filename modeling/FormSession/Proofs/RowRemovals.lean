import FormSession.Proofs.KeptTargets
import Mathlib.Data.List.InsertIdx

/-! # Which rows a tracker removes

When values of a length field go away, the rows of its group are removed one by one until as many are left as there are
to be: first those at the places that went away, from the last place down, and then rows from the end (`removals_eq`).
The rows before the first place stay where they are, whatever the bounds of the group (`removals_spare_held`). A least
number of rows leaves more of them, and a greatest number that is below the first place leaves nothing to remove, since
no more rows than that are ever shown (`count_le_greatest`). -/

namespace FormSession

/-! ### Rows that stay -/

namespace RowOp
variable {α : Type} {new : α} {p : Nat}

/-- The rows after a step; a row that is added is `new`. -/
def rowsAfter (new : α) (rows : List α) : RowOp → List α
  | add i => rows.insertIdx i new
  | remove i => rows.eraseIdx i
  | reset i => rows.take i

theorem take_rowsAfter {op : RowOp} (h : p ≤ op.index) (rows : List α) :
    (op.rowsAfter new rows).take p = rows.take p := by
  cases op with
  | add i => exact List.take_insertIdx_eq_take_of_le rows new p i h
  | remove i => exact List.take_eraseIdx_eq_take_of_le rows p i h
  | reset i =>
    rw [rowsAfter, List.take_take]
    exact congrArg (rows.take ·) (Nat.min_eq_left h)

/-- Steps leave the rows before all of their places where they are. -/
theorem take_foldl_rowsAfter {ops : List RowOp} (h : ∀ op ∈ ops, p ≤ op.index) (rows : List α) :
    (ops.foldl (rowsAfter new) rows).take p = rows.take p := by
  induction ops generalizing rows with
  | nil => rfl
  | cons op rest ih =>
    obtain ⟨hop, hrest⟩ := List.forall_mem_cons.mp h
    rw [List.foldl_cons, ih hrest, take_rowsAfter hop]

/-- The row that a step takes away. -/
def removed? : RowOp → Option Nat
  | remove i => some i
  | _ => none

/-- The places at which steps remove a row, in order. -/
def removedRows (ops : List RowOp) : List Nat := ops.filterMap removed?

end RowOp

namespace RowTracker

/-! ### Bounds -/

theorem clamp_le_greatest {b : RowBounds} (h : 0 < b.greatest) (n : Nat) : b.clamp n ≤ b.greatest := by
  simp only [RowBounds.clamp, gt_iff_lt, if_pos h]
  exact Nat.min_le_right ..

/-- Fewer rows than come before a place are wanted only if the greatest number says so. -/
theorem greatest_of_clamp_lt {b : RowBounds} {n : Nat} (h : b.clamp n < n) :
    0 < b.greatest ∧ b.clamp n = b.greatest := by
  simp only [RowBounds.clamp] at h ⊢
  split at h <;> rename_i hgreatest
  · exact ⟨hgreatest, by rw [if_pos hgreatest]; omega⟩
  · omega

/-- A displayed group never shows more rows than its greatest number. -/
theorem count_le_greatest {bounds : RowBounds} {targets : List RowTarget} {k : RowTracker}
    (h : Landed bounds targets k) (active : k.active = true) (greatest : 0 < bounds.greatest) :
    k.count ≤ bounds.greatest := by
  rw [(h.of_active active).2, landing]
  split
  · exact clamp_le_greatest greatest _
  · exact Nat.zero_le _

/-! ### The order of removals -/

/-- The last ones of some rows, the very last one first. -/
def lastRows (count n : Nat) : List Nat := (List.range' (count - n) n).reverse

theorem length_lastRows (count n : Nat) : (lastRows count n).length = n := by
  simp [lastRows]

theorem lastRows_succ {count n : Nat} (h : n ≤ count) : lastRows (count + 1) (n + 1) = count :: lastRows count n := by
  have hlast : count - n + n = count := Nat.sub_add_cancel h
  rw [lastRows, Nat.add_sub_add_right, List.range'_1_concat, List.reverse_append, hlast]
  rfl

theorem mem_lastRows {count n i : Nat} : i ∈ lastRows count n ↔ count - n ≤ i ∧ i < count - n + n := by
  rw [lastRows, List.mem_reverse, List.mem_range'_1]

/-- Of marked rows in descending order, those that are shown come last. -/
theorem dropWhile_marked {marked : List Nat} (h : marked.Pairwise (· > ·)) (count : Nat) :
    marked.dropWhile (count ≤ ·) = marked.filter (· < count) := by
  induction marked with
  | nil => rfl
  | cons i rest ih =>
    obtain ⟨hlater, hrest⟩ := List.pairwise_cons.mp h
    by_cases hi : count ≤ i
    · have hgone : ¬i < count := Nat.not_lt.mpr hi
      simpa [List.dropWhile_cons, hi, hgone] using ih hrest
    · have hshown : i < count := Nat.lt_of_not_le hi
      have hall : rest.filter (· < count) = rest :=
        List.filter_eq_self.mpr fun j hj => decide_eq_true (Nat.lt_trans (hlater j hj) hshown)
      simp [hi, hshown, hall]

/-- Removals take the marked rows that are shown, in their order, and rows from the end after them. -/
theorem removals_eq {n count : Nat} {marked : List Nat} (hn : n ≤ count) (h : marked.Pairwise (· > ·)) :
    removals n count marked =
      ((marked.filter (· < count)).take n ++
        lastRows (count - (marked.filter (· < count)).length) (n - (marked.filter (· < count)).length)).map .remove := by
  induction n generalizing count marked with
  | zero => simp [removals, lastRows]
  | succ n ih =>
    obtain ⟨count, rfl⟩ := Nat.exists_eq_add_one_of_ne_zero (Nat.ne_zero_of_lt hn)
    have hn : n ≤ count := Nat.le_of_succ_le_succ hn
    rw [removals, dropWhile_marked h]
    cases hgone : marked.filter (· < count + 1) with
    | nil =>
      have hrest := ih hn (List.Pairwise.nil (R := (· > ·)))
      simp only [List.filter_nil, List.take_nil, List.nil_append, List.length_nil, Nat.sub_zero] at hrest ⊢
      rw [lastRows_succ hn, Nat.add_sub_cancel, hrest]
      rfl
    | cons i rest =>
      -- What is left of the marked rows comes before the row removed, and is shown after it.
      obtain ⟨hlater, hrest⟩ := List.pairwise_cons.mp (hgone ▸ h.filter _)
      have hi : i < count + 1 := by
        have hmem : i ∈ marked.filter (· < count + 1) := hgone ▸ List.mem_cons_self
        simpa using (List.mem_filter.mp hmem).2
      have hall : rest.filter (· < count) = rest := List.filter_eq_self.mpr fun j hj => by
        have hlt := hlater j hj
        exact decide_eq_true (by omega)
      have hleft := ih hn hrest
      rw [hall] at hleft
      simp only [Nat.add_sub_cancel, List.take_succ_cons, List.length_cons, Nat.add_sub_add_right, List.cons_append,
        List.map_cons]
      rw [hleft]

/-! ### A change that takes rows away -/

section Change
variable {α : Type} {field : String} {bounds : RowBounds} {requests : List RowRequest} {k : RowTracker} {e : FieldEdit}
  {r : Nat}

/-- The steps of a displayed group when values go away from a place on. -/
theorem change_eq (active : k.active = true) (hr : e.firstDrop? = some r) (held : Nat) :
    k.change e held = (additions k.count (k.bounds.clamp r) ++
      removals (k.count - k.bounds.clamp r) k.count e.dropped.reverse, { k with count := k.bounds.clamp r }) := by
  rw [change, submit, if_pos active, RowTarget.ofEdit_of_drops hr]
  rfl

theorem removedRows_map (rows : List Nat) : RowOp.removedRows (rows.map .remove) = rows := by
  rw [RowOp.removedRows, List.filterMap_map]
  exact List.filterMap_some

/-- The rows that such a change removes: of the places that went away those that are shown, and rows from the end. -/
theorem removedRows_change (active : k.active = true) (hr : e.firstDrop? = some r) (held : Nat) :
    RowOp.removedRows (k.change e held).1 =
      (e.dropped.filter (· < k.count)).reverse.take (k.count - k.bounds.clamp r) ++
        lastRows (k.count - (e.dropped.filter (· < k.count)).reverse.length)
          (k.count - k.bounds.clamp r - (e.dropped.filter (· < k.count)).reverse.length) := by
  have hadded : (additions k.count (k.bounds.clamp r)).filterMap RowOp.removed? = [] := by
    simp [additions, RowOp.removed?]
  have hremovals := removals_eq (Nat.sub_le k.count (k.bounds.clamp r)) (List.pairwise_reverse.mpr e.pairwise_dropped)
  rw [List.filter_reverse] at hremovals
  rw [change_eq active hr, RowOp.removedRows, List.filterMap_append, hadded, hremovals, List.nil_append]
  exact removedRows_map _

theorem length_removedRows (active : k.active = true) (hr : e.firstDrop? = some r) (held : Nat) :
    (RowOp.removedRows (k.change e held).1).length = k.count - k.bounds.clamp r := by
  rw [removedRows_change active hr, List.length_append, List.length_take, length_lastRows]
  omega

/-- No row before the first place that went away is removed, unless more rows are shown than the greatest number. -/
theorem le_of_mem_removedRows (active : k.active = true) (hr : e.firstDrop? = some r) {held i : Nat}
    (within : 0 < k.bounds.greatest → k.count ≤ k.bounds.greatest)
    (hi : i ∈ RowOp.removedRows (k.change e held).1) : r ≤ i := by
  rw [removedRows_change active hr] at hi
  rcases List.mem_append.mp hi with hmarked | htail
  · have hmem := List.mem_reverse.mp (List.mem_of_mem_take hmarked)
    have hdrop := FieldEdit.mem_dropped.mp (List.mem_filter.mp hmem).1
    exact Nat.le_of_not_lt fun hlt => (FieldEdit.firstDrop?_eq_some hr).2 i hlt hdrop
  · -- There is a row to remove from the end, so that fewer are wanted than there are.
    obtain ⟨hfrom, hbelow⟩ := mem_lastRows.mp htail
    have hgoal : r ≤ k.bounds.clamp r := by
      by_contra hnot
      obtain ⟨hgreatest, hclamp⟩ := greatest_of_clamp_lt (Nat.lt_of_not_le hnot)
      have hcount := within hgreatest
      omega
    omega

/-- A row is added past the rows shown, or a row is removed. -/
theorem mem_change {op : RowOp} {held : Nat} (active : k.active = true) (hr : e.firstDrop? = some r)
    (h : op ∈ (k.change e held).1) : (∃ i, op = .add i ∧ k.count ≤ i) ∨ ∃ i, op = .remove i := by
  rw [change_eq active hr] at h
  rcases List.mem_append.mp h with hadd | hremove
  · obtain ⟨i, hi, rfl⟩ := List.mem_map.mp hadd
    exact Or.inl ⟨i, rfl, (List.mem_range'_1.mp hi).1⟩
  · rw [removals_eq (Nat.sub_le ..) (List.pairwise_reverse.mpr e.pairwise_dropped)] at hremove
    obtain ⟨i, -, rfl⟩ := List.mem_map.mp hremove
    exact Or.inr ⟨i, rfl⟩

/-- Every step is taken at the first place that went away or past it, or past the rows shown. -/
theorem le_index_of_mem_change {op : RowOp} {held : Nat} (active : k.active = true) (hr : e.firstDrop? = some r)
    (within : 0 < k.bounds.greatest → k.count ≤ k.bounds.greatest) (hop : op ∈ (k.change e held).1) :
    min r k.count ≤ op.index := by
  rcases mem_change active hr hop with ⟨i, rfl, hi⟩ | ⟨i, rfl⟩
  · exact Nat.le_trans (Nat.min_le_right ..) hi
  · have hremoved : i ∈ RowOp.removedRows (k.change e held).1 := List.mem_filterMap.mpr ⟨.remove i, hop, rfl⟩
    exact Nat.le_trans (Nat.min_le_left ..) (le_of_mem_removedRows active hr within hremoved)

/-- The removals, as the places that went away and those from the end after them. -/
theorem removedRows_order (active : k.active = true) (hr : e.firstDrop? = some r) (held : Nat) :
    ∃ marked tail, RowOp.removedRows (k.change e held).1 = marked ++ tail ∧ marked.Pairwise (· > ·) ∧
      marked <+: (e.dropped.filter (· < k.count)).reverse ∧
      (tail ≠ [] → ∀ i ∈ e.dropped, i < k.count → i ∈ marked) ∧
      tail = lastRows (k.count - marked.length) tail.length := by
  have hremoved := removedRows_change active hr held
  generalize hgone : (e.dropped.filter (· < k.count)).reverse = gone at hremoved
  generalize k.count - k.bounds.clamp r = n at hremoved
  have hdescending : gone.Pairwise (· > ·) :=
    hgone ▸ List.pairwise_reverse.mpr (e.pairwise_dropped.filter _)
  rcases Nat.lt_or_ge gone.length n with hmore | hfewer
  · -- All places that went away are used up.
    rw [List.take_of_length_le (Nat.le_of_lt hmore)] at hremoved
    refine ⟨gone, _, hremoved, hdescending, List.prefix_rfl, fun _ i hi hlt => ?_, ?_⟩
    · rw [← hgone, List.mem_reverse, List.mem_filter]
      exact ⟨hi, decide_eq_true hlt⟩
    · rw [length_lastRows]
  · rw [Nat.sub_eq_zero_of_le hfewer] at hremoved
    exact ⟨gone.take n, [], hremoved, hdescending.sublist (List.take_sublist ..), List.take_prefix ..,
      fun hne => absurd rfl hne, rfl⟩

/-- Whatever was asked of a tracker before: if its group is displayed and values go away from place `r` on, as many rows
    are removed as are shown beyond `r` and the bounds, but no row before that place, and the rows before it stay where
    they are, whatever the bounds are. The places that went away come first, from the last one that is shown down and
    each once; rows are removed from the end only when there is no such place left. -/
theorem removals_spare_held (active : ((new field bounds).performAll requests).active = true)
    (hr : e.firstDrop? = some r) (held : Nat) :
    let k := (new field bounds).performAll requests
    let ops := (k.change e held).1
    (RowOp.removedRows ops).length = k.count - bounds.clamp r ∧
      (∀ i, .remove i ∈ ops → r ≤ i) ∧
      (∀ (new : α) (rows : List α),
        (ops.foldl (RowOp.rowsAfter new) rows).take (min r k.count) = rows.take (min r k.count)) ∧
      ∃ marked tail, RowOp.removedRows ops = marked ++ tail ∧ marked.Pairwise (· > ·) ∧
        marked <+: (e.dropped.filter (· < k.count)).reverse ∧
        (tail ≠ [] → ∀ i ∈ e.dropped, i < k.count → i ∈ marked) ∧
        tail = lastRows (k.count - marked.length) tail.length := by
  intro k ops
  have landed : Landed bounds (givenTargets requests) k := (landed_new field bounds).performAll requests
  have within : 0 < k.bounds.greatest → k.count ≤ k.bounds.greatest := fun greatest => by
    rw [landed.bounds] at greatest ⊢
    exact count_le_greatest landed active greatest
  refine ⟨?_, fun i hi => ?_, fun new rows => ?_, ?_⟩
  · rw [← landed.bounds]
    exact length_removedRows active hr held
  · exact le_of_mem_removedRows active hr within (List.mem_filterMap.mpr ⟨.remove i, hi, rfl⟩)
  · exact RowOp.take_foldl_rowsAfter (fun op hop => le_index_of_mem_change active hr within hop) rows
  · exact removedRows_order active hr held

end Change

/-- Four rows are shown of nine values. The second, fourth and fifth value go away: the fourth row is removed, then the
    second, then the last one that is left, and the first row stays. -/
theorem removals_spare_held_fourRows :
    let k := (new "vin" ⟨1, 4⟩).performAll [.setActive true, .init 9]
    let e : FieldEdit := [.keep, .drop, .keep, .drop, .drop]
    let ops := (k.change e 1).1
    k.active = true ∧ e.firstDrop? = some 1 ∧ k.count = 4 ∧ ops = [.remove 3, .remove 1, .remove 1] ∧
      (RowOp.removedRows ops).length = 3 ∧ (∀ i, .remove i ∈ ops → 1 ≤ i) ∧
      (ops.foldl (RowOp.rowsAfter "new") ["a", "b", "c", "d"]).take 1 = ["a"] ∧
      ∃ marked tail, RowOp.removedRows ops = marked ++ tail ∧ marked.Pairwise (· > ·) ∧ marked <+: [3, 1] ∧
        (tail ≠ [] → ∀ i ∈ e.dropped, i < 4 → i ∈ marked) ∧ tail = lastRows (4 - marked.length) tail.length := by
  intro k e ops
  have active : k.active = true := by decide
  have hr : e.firstDrop? = some 1 := by decide
  have hcount : k.count = 4 := by decide
  have hgone : (e.dropped.filter (· < k.count)).reverse = [3, 1] := by decide
  obtain ⟨hlength, hspared, hkept, hordered⟩ := removals_spare_held (α := String) active hr 1
  have hfirst := hkept "new" ["a", "b", "c", "d"]
  rw [hcount] at hfirst
  rw [hgone, hcount] at hordered
  exact ⟨active, hr, hcount, by decide, hlength.trans (by decide), hspared, hfirst, hordered⟩

end RowTracker

end FormSession
