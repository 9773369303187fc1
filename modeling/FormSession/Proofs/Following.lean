import FormSession.Proofs.Telling

/-! # Following the rows

While the steps of a group are told, what is known of its fields follows each step, and afterwards the
verdicts last applied to the fields are forgotten. Nothing changes for other fields. -/

namespace FormSession

/-- What a step in showing the rows of a group leaves known of a field of the group. -/
def RowOp.follow (known : Option (List Bool)) : RowOp → Option (List Bool)
  | .add _ => known
  | .remove i => known.map (·.eraseIdx i)
  | .reset _ => none

/-- Entries under the given names are left out. -/
theorem getElem?_leaveOut {α : Type} (m : NameMap α) (names : List String) (f : String) :
    (m.filter fun name _ => !names.contains name)[f]? = if f ∈ names then none else m[f]? := by
  rw [Std.ExtTreeMap.getElem?_filter']
  cases m[f]? with
  | none => simp
  | some a => by_cases h : f ∈ names <;> simp [Option.filter, h]

namespace Visibility
variable {form : Form} {v : Visibility} {fields : List String} {f : String} {op : RowOp} {ops : List RowOp}
  {moves : List (String × List RowOp)}

/-! ### What was last applied -/

theorem getElem?_applied_forget (v : Visibility) (fields : List String) (f : String) :
    (v.forget fields).applied[f]? = if f ∈ fields then none else v.applied[f]? :=
  getElem?_leaveOut ..

theorem getElem?_applied_removeRow (v : Visibility) (field : String) (i : Nat) (f : String) :
    (v.removeRow field i).applied[f]? = if f = field then v.applied[f]?.map (·.eraseIdx i) else v.applied[f]? := by
  simp only [removeRow, Std.ExtTreeMap.getElem?_modify, Std.LawfulEqCmp.compare_eq_iff_eq]
  by_cases h : field = f
  · subst h
    simp
  · rw [if_neg h, if_neg (Ne.symm h)]

theorem getElem?_applied_removeRows (hf : fields.Nodup) (v : Visibility) (i : Nat) (f : String) :
    (fields.foldl (fun v field => v.removeRow field i) v).applied[f]? =
      if f ∈ fields then v.applied[f]?.map (·.eraseIdx i) else v.applied[f]? := by
  induction fields generalizing v with
  | nil => rfl
  | cons field rest ih =>
    obtain ⟨hnot, hrest⟩ := List.nodup_cons.mp hf
    rw [List.foldl_cons, ih hrest, getElem?_applied_removeRow]
    by_cases h : f = field
    · subst h
      simp [hnot]
    · simp [h]

/-- One step changes what is known of the fields of its group only. -/
theorem getElem?_applied_follow (hf : fields.Nodup) (v : Visibility) (op : RowOp) (f : String) :
    (v.follow fields op).applied[f]? = if f ∈ fields then op.follow v.applied[f]? else v.applied[f]? := by
  cases op with
  | add i => simp [follow, RowOp.follow]
  | remove i => exact getElem?_applied_removeRows hf v i f
  | reset i => exact getElem?_applied_forget v fields f

theorem getElem?_applied_follow_of_notMem (v : Visibility) (op : RowOp) (h : f ∉ fields) :
    (v.follow fields op).applied[f]? = v.applied[f]? := by
  cases op with
  | add i => rfl
  | remove i =>
    -- The fields may repeat here, so the removals are followed one by one.
    show (fields.foldl (fun v field => v.removeRow field i) v).applied[f]? = v.applied[f]?
    induction fields generalizing v with
    | nil => rfl
    | cons field rest ih =>
      obtain ⟨hne, hrest⟩ := List.ne_and_not_mem_of_not_mem_cons h
      rw [List.foldl_cons, ih _ hrest, getElem?_applied_removeRow, if_neg hne]
  | reset i => rw [follow, getElem?_applied_forget, if_neg h]

/-- The applied visibility of a field outlives the moves of groups that it does not belong to. -/
theorem getElem?_applied_followRows (v : Visibility) (h : ops ≠ [] → f ∉ fields) :
    (v.followRows fields ops).applied[f]? = v.applied[f]? := by
  rw [followRows]
  split
  · rfl
  · rename_i hops
    have hf : f ∉ fields := h (by simpa using hops)
    show (ops.foldl (fun v op => v.follow fields op) v).applied[f]? = v.applied[f]?
    clear h hops
    induction ops generalizing v with
    | nil => rfl
    | cons op rest ih => rw [List.foldl_cons, ih, getElem?_applied_follow_of_notMem v op hf]

theorem getElem?_applied_followMoves (v : Visibility) (h : ∀ m ∈ moves, m.2 ≠ [] → f ∉ form.groupFields m.1) :
    (v.followMoves form moves).applied[f]? = v.applied[f]? := by
  induction moves generalizing v with
  | nil => rfl
  | cons m rest ih =>
    obtain ⟨hm, hrest⟩ := List.forall_mem_cons.mp h
    exact (ih (v.followRows (form.groupFields m.1) m.2) hrest).trans (getElem?_applied_followRows v hm)

/-! ### The classification applied last -/

theorem getElem?_cache_invalidate (v : Visibility) (fields : List String) (f : String) :
    (v.invalidate fields).cache[f]? = if f ∈ fields then none else v.cache[f]? :=
  getElem?_leaveOut ..

theorem cache_removeRows (v : Visibility) (fields : List String) (i : Nat) :
    (fields.foldl (fun v field => v.removeRow field i) v).cache = v.cache := by
  induction fields generalizing v with
  | nil => rfl
  | cons field rest ih => exact ih (v.removeRow field i)

/-- A step forgets verdicts of the fields of its group, if any. -/
theorem getElem?_cache_follow_of_notMem (v : Visibility) (op : RowOp) (h : f ∉ fields) :
    (v.follow fields op).cache[f]? = v.cache[f]? := by
  cases op with
  | add i => rfl
  | remove i => exact congrArg (·[f]?) (cache_removeRows v fields i)
  | reset i =>
    show (v.invalidate fields).cache[f]? = v.cache[f]?
    rw [getElem?_cache_invalidate, if_neg h]

/-- After the steps of a group no verdict is left of its fields, and the verdicts of others are. -/
theorem getElem?_cache_followRows (v : Visibility) (fields : List String) (ops : List RowOp) (f : String) :
    (v.followRows fields ops).cache[f]? = if ops ≠ [] ∧ f ∈ fields then none else v.cache[f]? := by
  rw [followRows]
  by_cases hops : ops = []
  · simp [hops]
  · have hempty : ops.isEmpty = false := by simpa using hops
    rw [hempty, if_neg Bool.false_ne_true, getElem?_cache_invalidate]
    by_cases hf : f ∈ fields
    · simp [hops, hf]
    · rw [if_neg hf, if_neg (fun h => hf h.2)]
      clear hops hempty
      induction ops generalizing v with
      | nil => rfl
      | cons op rest ih => rw [List.foldl_cons, ih, getElem?_cache_follow_of_notMem v op hf]

/-- A verdict that is left after moves was there before, and the group of its field did not move. -/
theorem getElem?_cache_followMoves {verdict : Verdict} (h : (v.followMoves form moves).cache[f]? = some verdict) :
    v.cache[f]? = some verdict ∧ ∀ m ∈ moves, m.2 ≠ [] → f ∉ form.groupFields m.1 := by
  induction moves generalizing v with
  | nil => exact ⟨h, by simp⟩
  | cons m rest ih =>
    obtain ⟨hleft, hrest⟩ := ih (v := v.followRows (form.groupFields m.1) m.2) h
    rw [getElem?_cache_followRows] at hleft
    split at hleft
    · cases hleft
    · rename_i hmove
      exact ⟨hleft, List.forall_mem_cons.mpr ⟨fun hops hf => hmove ⟨hops, hf⟩, hrest⟩⟩

theorem cache_followRows_empty (h : v.cache = ∅) (fields : List String) (ops : List RowOp) :
    (v.followRows fields ops).cache = ∅ := by
  refine Std.ExtTreeMap.ext_getElem? fun f => ?_
  rw [getElem?_cache_followRows, h]
  simp

/-! ### What following keeps -/

/-- A property that stays when a row of a field goes away, and when fields or their verdicts are forgotten. -/
structure StaysFollowing (P : Visibility → Prop) : Prop where
  removeRow : ∀ {v} (field : String) (i : Nat), P v → P (v.removeRow field i)
  forget : ∀ {v} (fields : List String), P v → P (v.forget fields)
  invalidate : ∀ {v} (fields : List String), P v → P (v.invalidate fields)

namespace StaysFollowing
variable {P : Visibility → Prop}

theorem follow (stays : StaysFollowing P) (h : P v) (fields : List String) (op : RowOp) : P (v.follow fields op) := by
  cases op with
  | add i => exact h
  | remove i =>
    show P (fields.foldl (fun v field => v.removeRow field i) v)
    induction fields generalizing v with
    | nil => exact h
    | cons field rest ih => exact ih (stays.removeRow field i h)
  | reset i => exact stays.forget fields h

theorem followRows (stays : StaysFollowing P) (h : P v) (fields : List String) (ops : List RowOp) :
    P (v.followRows fields ops) := by
  have hsteps : P (ops.foldl (fun v op => v.follow fields op) v) := by
    induction ops generalizing v with
    | nil => exact h
    | cons op rest ih => exact ih (stays.follow h fields op)
  rw [Visibility.followRows]
  split
  · exact h
  · exact stays.invalidate fields hsteps

theorem followMoves (stays : StaysFollowing P) (h : P v) (form : Form) (moves : List (String × List RowOp)) :
    P (v.followMoves form moves) := by
  induction moves generalizing v with
  | nil => exact h
  | cons m rest ih => exact ih (stays.followRows h (form.groupFields m.1) m.2)

end StaysFollowing

end Visibility

end FormSession
