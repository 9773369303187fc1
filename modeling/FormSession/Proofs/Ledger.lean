import FormSession.Visibility.Pass
import Mathlib.Data.List.Nodup

/-! # What the ledger lists

Which rows the ledger of hidden rows lists after each of its operations, and with which number, row by row. When a row
of a field goes away, the rows listed after it move down by one (`order?_removeRow`). Marking rows that are different
ones lists exactly those hidden, and no longer lists those shown (`contains_marks`). -/

namespace FormSession.Ledger
variable {l : Ledger} {field f : String} {i k n : Nat}

theorem rows_setRows (l : Ledger) (field : String) (rows : HiddenRows) (f : String) :
    (l.setRows field rows).rows f = if field = f then rows else l.rows f := by
  simp only [Ledger.rows, setRows]
  split
  · rename_i hempty
    have hrows : rows = ∅ := Std.ExtTreeMap.isEmpty_iff.mp hempty
    rw [Std.ExtTreeMap.getD_erase, hrows]
    simp only [Std.LawfulEqCmp.compare_eq_iff_eq]
  · rw [Std.ExtTreeMap.getD_insert]
    simp only [Std.LawfulEqCmp.compare_eq_iff_eq]

theorem order?_setRows (l : Ledger) (field : String) (rows : HiddenRows) (f : String) (i : Nat) :
    (l.setRows field rows).order? f i = if field = f then rows[i]? else l.order? f i := by
  rw [order?, rows_setRows]
  split <;> rfl

theorem contains_eq_isSome : l.contains f i = (l.order? f i).isSome := Std.ExtTreeMap.contains_eq_isSome_getElem?

theorem contains_iff_order? : l.contains f i = true ↔ ∃ order, l.order? f i = some order := by
  rw [contains_eq_isSome, Option.isSome_iff_exists]

theorem contains_clear (l : Ledger) (f : String) (i : Nat) : l.clear.contains f i = false := by
  simp [contains, rows, clear]

/-! ### Hiding and showing -/

theorem hide_of_listed (h : l.contains field k = true) : l.hide field k = l := if_pos h

theorem order?_hide : (l.hide field k).order? f i =
    if field = f ∧ k = i ∧ l.contains field k = false then some l.nextOrder else l.order? f i := by
  rw [hide]
  split
  · rename_i hlisted
    simp [hlisted]
  · rename_i hnot
    show (l.setRows field ((l.rows field).insert k l.nextOrder)).order? f i = _
    rw [order?_setRows]
    by_cases hf : field = f
    · subst hf
      simp only [Std.ExtTreeMap.getElem?_insert, Std.LawfulEqCmp.compare_eq_iff_eq, hnot, ↓reduceIte, true_and, and_true]
      rfl
    · simp [hf]

theorem order?_reveal : (l.reveal field k).order? f i = if field = f ∧ k = i then none else l.order? f i := by
  rw [reveal, order?_setRows]
  by_cases hf : field = f
  · subst hf
    simp only [Std.ExtTreeMap.getElem?_erase, Std.LawfulEqCmp.compare_eq_iff_eq, ↓reduceIte, true_and]
    rfl
  · simp [hf]

theorem contains_hide : (l.hide field k).contains f i = true ↔ (field = f ∧ k = i) ∨ l.contains f i = true := by
  rw [contains_eq_isSome, order?_hide]
  split
  · rename_i hnew
    simp [hnew.1, hnew.2.1]
  · rename_i hnot
    rw [← contains_eq_isSome]
    constructor
    · exact Or.inr
    · rintro (⟨rfl, rfl⟩ | h)
      · simpa using hnot
      · exact h

theorem contains_reveal : (l.reveal field k).contains f i = true ↔ ¬(field = f ∧ k = i) ∧ l.contains f i = true := by
  rw [contains_eq_isSome, order?_reveal, contains_eq_isSome]
  split <;> simp [*]

theorem contains_mark_of_ne {visible : Bool} (h : ¬(field = f ∧ k = i)) :
    (l.mark field k visible).contains f i = true ↔ l.contains f i = true := by
  rw [mark]
  split
  · simp [contains_reveal, h]
  · simp [contains_hide, h]

theorem contains_mark_self {visible : Bool} : (l.mark field k visible).contains field k = true ↔ visible = false := by
  rw [mark]
  split
  · rename_i hvisible
    simp [contains_reveal, hvisible]
  · rename_i hvisible
    simpa [contains_hide] using hvisible

/-- Marks some rows of a field as shown or hidden, in order. -/
def marks (l : Ledger) (field : String) (changes : List (Nat × Bool)) : Ledger :=
  changes.foldl (fun l (i, visible) => l.mark field i visible) l

theorem contains_marks_of_notMem {changes : List (Nat × Bool)} (h : field = f → i ∉ changes.map (·.1)) :
    (l.marks field changes).contains f i = true ↔ l.contains f i = true := by
  induction changes generalizing l with
  | nil => exact Iff.rfl
  | cons change rest ih =>
    have hrest : field = f → i ∉ rest.map (·.1) := fun hf hi => h hf (List.mem_cons_of_mem _ hi)
    have hne : ¬(field = f ∧ change.1 = i) := fun ⟨hf, hi⟩ => h hf (hi ▸ List.mem_cons_self)
    exact (ih hrest).trans (contains_mark_of_ne hne)

/-- A row that is marked is listed exactly if it is marked as hidden. -/
theorem contains_marks {changes : List (Nat × Bool)} {visible : Bool} (hrows : (changes.map (·.1)).Nodup)
    (h : (i, visible) ∈ changes) : (l.marks field changes).contains field i = true ↔ visible = false := by
  induction changes generalizing l with
  | nil => cases h
  | cons change rest ih =>
    obtain ⟨hnot, hrest⟩ := List.nodup_cons.mp hrows
    rcases List.mem_cons.mp h with rfl | h
    · exact (contains_marks_of_notMem fun _ => hnot).trans contains_mark_self
    · exact ih hrest h

/-- The rows marked as hidden are listed, and those that were listed and are not marked as shown. -/
theorem contains_marks_iff {changes : List (Nat × Bool)} (hrows : (changes.map (·.1)).Nodup) :
    (l.marks field changes).contains f i = true ↔ (field = f ∧ (i, false) ∈ changes) ∨
      (l.contains f i = true ∧ (field = f → (i, true) ∉ changes)) := by
  have hone : (i, false) ∈ changes → (i, true) ∉ changes := fun hfalse htrue =>
    absurd (List.inj_on_of_nodup_map hrows hfalse htrue rfl) (by simp)
  by_cases hmem : field = f ∧ i ∈ changes.map (·.1)
  · obtain ⟨rfl, hmem⟩ := hmem
    obtain ⟨⟨_, visible⟩, hchange, rfl⟩ := List.mem_map.mp hmem
    rw [contains_marks hrows hchange]
    cases visible with
    | true =>
      refine iff_of_false (by simp) ?_
      rintro (⟨-, hfalse⟩ | ⟨-, hnot⟩)
      · exact hone hfalse hchange
      · exact hnot rfl hchange
    | false => exact iff_of_true rfl (Or.inl ⟨rfl, hchange⟩)
  · have hnot : ∀ visible, field = f → (i, visible) ∉ changes := fun visible hf hchange =>
      hmem ⟨hf, List.mem_map.mpr ⟨_, hchange, rfl⟩⟩
    rw [contains_marks_of_notMem fun hf hi => hmem ⟨hf, hi⟩]
    constructor
    · exact fun h => Or.inr ⟨h, hnot true⟩
    · rintro (⟨hf, hchange⟩ | ⟨h, -⟩)
      · exact absurd hchange (hnot false hf)
      · exact h

/-! ### A row that goes away -/

/-- Where a row is once another one went away. -/
def moveDown (k i : Nat) : Nat := if k < i then i - 1 else i

/-- Where a row was before another one went away. -/
def moveBack (k i : Nat) : Nat := if i < k then i else i + 1

theorem moveBack_ne (k i : Nat) : moveBack k i ≠ k := by
  rw [moveBack]
  split <;> omega

theorem moveDown_eq_iff {j : Nat} (hj : j ≠ k) : moveDown k j = i ↔ j = moveBack k i := by
  rw [moveDown, moveBack]
  split <;> split <;> omega

/-- Rows other than the one that went away come to lie at different places, so none takes another's number. -/
theorem getElem?_shifted {entries : List (Nat × Nat)} (hrows : (entries.map (·.1)).Nodup) {acc : HiddenRows} :
    (entries.foldl (fun acc entry =>
      if entry.1 = k then acc else acc.insert (moveDown k entry.1) entry.2) acc)[i]? = some n ↔
      (moveBack k i, n) ∈ entries ∨ (moveBack k i ∉ entries.map (·.1) ∧ acc[i]? = some n) := by
  induction entries generalizing acc with
  | nil => simp
  | cons entry rest ih =>
    obtain ⟨hnot, hrest⟩ := List.nodup_cons.mp hrows
    obtain ⟨j, order⟩ := entry
    rw [List.foldl_cons, ih hrest]
    by_cases hj : j = moveBack k i
    · subst hj
      have hback : moveDown k (moveBack k i) = i := (moveDown_eq_iff (moveBack_ne k i)).mpr rfl
      have hout : (moveBack k i, n) ∉ rest := fun hmem => hnot (List.mem_map.mpr ⟨_, hmem, rfl⟩)
      rw [if_neg (moveBack_ne k i), hback]
      simp [hout, hnot, eq_comm]
    · have hkept : (if j = k then acc else acc.insert (moveDown k j) order)[i]? = acc[i]? := by
        split
        · rfl
        · rename_i hk
          simp [Std.ExtTreeMap.getElem?_insert, moveDown_eq_iff hk, hj]
      simp [hkept, Ne.symm hj]

theorem getElem?_shiftedRows (rows : HiddenRows) (k i : Nat) : (shiftedRows rows k)[i]? = rows[moveBack k i]? := by
  have hrows : (rows.toList.map (·.1)).Nodup := by
    rw [Std.ExtTreeMap.map_fst_toList_eq_keys]
    exact Std.ExtTreeMap.nodup_keys
  refine Option.ext fun n => ?_
  rw [shiftedRows, Std.ExtTreeMap.foldl_eq_foldl_toList]
  refine (getElem?_shifted hrows).trans ?_
  simp [Std.ExtTreeMap.mem_toList_iff_getElem?_eq_some]

theorem order?_removeRow (l : Ledger) (field : String) (k : Nat) (f : String) (i : Nat) :
    (l.removeRow field k).order? f i = if field = f then l.order? f (moveBack k i) else l.order? f i := by
  rw [removeRow, order?_setRows]
  split
  · rename_i hf
    subst hf
    exact getElem?_shiftedRows _ k i
  · rfl

theorem contains_removeRow (l : Ledger) (field : String) (k : Nat) (f : String) (i : Nat) :
    (l.removeRow field k).contains f i =
      if field = f then l.contains f (if i < k then i else i + 1) else l.contains f i := by
  simp only [contains_eq_isSome, order?_removeRow]
  split <;> rfl

/-! ### The numbers of listed rows -/

theorem order?_mark_of_ne (visible : Bool) (h : ¬(field = f ∧ k = i)) :
    (l.mark field k visible).order? f i = l.order? f i := by
  rw [mark]
  split
  · rw [order?_reveal, if_neg h]
  · rw [order?_hide, if_neg fun hk => h ⟨hk.1, hk.2.1⟩]

/-- A listed row keeps its number as long as it is not shown. -/
theorem order?_marks_of_listed {changes : List (Nat × Bool)} (hlisted : l.contains f i = true)
    (h : field = f → (i, true) ∉ changes) : (l.marks field changes).order? f i = l.order? f i := by
  induction changes generalizing l with
  | nil => rfl
  | cons change rest ih =>
    obtain ⟨k, visible⟩ := change
    have hrest : field = f → (i, true) ∉ rest := fun hf hmem => h hf (List.mem_cons_of_mem _ hmem)
    by_cases hrow : field = f ∧ k = i
    · obtain ⟨rfl, rfl⟩ := hrow
      cases visible with
      | true => exact absurd List.mem_cons_self (h rfl)
      | false =>
        have hsame : l.mark field k false = l := hide_of_listed hlisted
        show ((l.mark field k false).marks field rest).order? field k = _
        rw [hsame]
        exact ih hlisted hrest
    · show ((l.mark field k visible).marks field rest).order? f i = _
      rw [ih ((contains_mark_of_ne hrow).mpr hlisted) hrest, order?_mark_of_ne visible hrow]

/-! ### Fields without hidden rows -/

/-- No field is listed without rows. -/
def Tidy (l : Ledger) : Prop := ∀ (f : String) (rows : HiddenRows), l.fields[f]? = some rows → rows.isEmpty = false

theorem tidy_empty : empty.Tidy := fun f rows h => by simp [empty] at h

theorem Tidy.clear (l : Ledger) : l.clear.Tidy := fun f rows h => by simp [Ledger.clear] at h

theorem Tidy.setRows (h : l.Tidy) (field : String) (rows : HiddenRows) : (l.setRows field rows).Tidy := by
  intro f rows' hrows
  simp only [Ledger.setRows] at hrows
  split at hrows
  · rw [Std.ExtTreeMap.getElem?_erase] at hrows
    split at hrows
    · cases hrows
    · exact h f rows' hrows
  · rename_i hfilled
    rw [Std.ExtTreeMap.getElem?_insert] at hrows
    split at hrows
    · cases hrows
      simpa using hfilled
    · exact h f rows' hrows

theorem Tidy.mark (h : l.Tidy) (field : String) (k : Nat) (visible : Bool) : (l.mark field k visible).Tidy := by
  rw [Ledger.mark]
  split
  · exact h.setRows field _
  · rw [hide]
    split
    · exact h
    · exact h.setRows field ((l.rows field).insert k l.nextOrder)

theorem Tidy.marks (h : l.Tidy) (field : String) (changes : List (Nat × Bool)) : (l.marks field changes).Tidy := by
  induction changes generalizing l with
  | nil => exact h
  | cons change rest ih => exact ih (h.mark field change.1 change.2)

theorem Tidy.setRows_self (h : l.Tidy) (field : String) : l.setRows field (l.rows field) = l := by
  have hfields : (l.setRows field (l.rows field)).fields = l.fields := by
    refine Std.ExtTreeMap.ext_getElem? fun f => ?_
    simp only [Ledger.setRows]
    by_cases hf : field = f
    · subst hf
      cases hrows : l.fields[field]? with
      | none => simp [Ledger.rows, Std.ExtTreeMap.getD_eq_getD_getElem?, hrows]
      | some rows =>
        have hfilled := h field rows hrows
        simp [Ledger.rows, Std.ExtTreeMap.getD_eq_getD_getElem?, hrows, hfilled]
    · split <;> simp [hf, Std.ExtTreeMap.getElem?_erase, Std.ExtTreeMap.getElem?_insert]
  show Ledger.mk (l.setRows field (l.rows field)).fields l.nextOrder = l
  rw [hfields]

/-- Marking a row as it is listed already changes nothing. -/
theorem Tidy.mark_self (h : l.Tidy) {visible : Bool} (hlisted : l.contains field k = !visible) :
    l.mark field k visible = l := by
  cases visible with
  | false => exact hide_of_listed hlisted
  | true =>
    have herase : (l.rows field).erase k = l.rows field :=
      Std.ExtTreeMap.ext_getElem? fun i => by
        rw [Std.ExtTreeMap.getElem?_erase]
        split
        · rename_i hk
          have hk : k = i := by simpa using hk
          subst hk
          have hnone : (l.rows field).contains k = false := hlisted
          rw [Std.ExtTreeMap.contains_eq_isSome_getElem?, Option.isSome_eq_false_iff, Option.isNone_iff_eq_none] at hnone
          exact hnone.symm
        · rfl
    show l.setRows field ((l.rows field).erase k) = l
    rw [herase]
    exact h.setRows_self field

theorem Tidy.marks_self (h : l.Tidy) {changes : List (Nat × Bool)}
    (hlisted : ∀ change ∈ changes, l.contains field change.1 = !change.2) : l.marks field changes = l := by
  induction changes with
  | nil => rfl
  | cons change rest ih =>
    obtain ⟨hchange, hrest⟩ := List.forall_mem_cons.mp hlisted
    show (l.mark field change.1 change.2).marks field rest = l
    rw [h.mark_self hchange]
    exact ih hrest

end FormSession.Ledger
