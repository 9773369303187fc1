import FormSession.Proofs.Merging
import FormSession.Proofs.WellFormed

/-! # Rows added and removed

A row operation that is refused does nothing, and one that is accepted writes one edit (`RowEdited`). The edit that
removes a row takes one value out of each field of the group that holds the row; the edit that adds one puts the default
of each field after its values, provided that the fields hold equally many. Nothing else is written, so that a row that
was added and is removed again leaves the values as they were (`row_edits_exact`). -/

namespace FormSession

/-! ### One field -/

namespace FieldEdit

theorem applyTo_writeAll_drop (new values : List String) : FieldEdit.applyTo (writeAll new ++ [Slot.drop]) values = new := by
  induction new generalizing values with
  | nil => rfl
  | cons v new ih => exact congrArg (v :: ·) (ih values.tail)

theorem applyTo_eraseRow {index : Nat} {values : List String} (h : index < values.length) :
    (eraseRow index values).applyTo values = values.eraseIdx index := by
  induction index generalizing values with
  | zero =>
    obtain ⟨v, rest, rfl⟩ := List.exists_cons_of_length_pos h
    exact applyTo_writeAll_drop rest (v :: rest)
  | succ index ih =>
    obtain ⟨v, rest, rfl⟩ := List.exists_cons_of_length_pos (Nat.zero_lt_of_lt h)
    exact congrArg (v :: ·) (ih (Nat.lt_of_succ_lt_succ h))

theorem applyTo_write_length (values : List String) (w : String) :
    (write [] values.length w).applyTo values = values ++ [w] := by
  induction values with
  | nil => rfl
  | cons v rest ih => exact congrArg (v :: ·) ih

end FieldEdit

/-! ### The fields of a group -/

namespace FormEdit
variable {fields : List String} {index : Nat}

theorem getD_adjust (e : FormEdit) (field : String) (change : FieldEdit → FieldEdit) (f : String) :
    (e.adjust field change).getD f [] = if field = f then change (e.getD f []) else e.getD f [] := by
  rw [Std.ExtTreeMap.getD_eq_getD_getElem?, getElem?_adjust]
  split
  · rfl
  · rw [Std.ExtTreeMap.getD_eq_getD_getElem?]

theorem getD_newRow (registry : Registry) (hfields : fields.Nodup) (f : String) :
    (newRow registry fields index).getD f [] =
      if f ∈ fields then FieldEdit.write [] index (registry.spec f).default else [] := by
  have hall : ∀ e : FormEdit, (fields.foldl (fun e field => write e field index (registry.spec field).default) e).getD f [] =
      if f ∈ fields then FieldEdit.write (e.getD f []) index (registry.spec f).default else e.getD f [] := by
    induction fields with
    | nil => simp
    | cons field rest ih =>
      intro e
      obtain ⟨hnot, hrest⟩ := List.nodup_cons.mp hfields
      rw [List.foldl_cons, ih hrest, write, getD_adjust]
      by_cases hfield : field = f
      · subst hfield
        simp [hnot]
      · simp [hfield, Ne.symm hfield]
  exact (hall ∅).trans (by simp)

theorem getElem?_eraseRow (values : String → List String) (fields : List String) (index : Nat) (f : String) :
    (eraseRow values fields index)[f]? =
      if f ∈ fields ∧ index < (values f).length then some (FieldEdit.eraseRow index (values f)) else none := by
  let erase (e : FormEdit) (field : String) : FormEdit :=
    if index < (values field).length then e.insert field (FieldEdit.eraseRow index (values field)) else e
  -- The edit of a field depends on the values alone, so a field that is listed twice is erased once.
  have hstep : ∀ e field, (erase e field)[f]? =
      if field = f ∧ index < (values f).length then some (FieldEdit.eraseRow index (values f)) else e[f]? := by
    intro e field
    by_cases hfield : field = f
    · subst hfield
      by_cases hindex : index < (values field).length <;> simp [erase, hindex]
    · simp only [erase, hfield, false_and, if_false]
      split
      · rw [Std.ExtTreeMap.getElem?_insert, if_neg (by simpa using hfield)]
      · rfl
  have hall : ∀ e : FormEdit, (fields.foldl erase e)[f]? =
      if f ∈ fields ∧ index < (values f).length then some (FieldEdit.eraseRow index (values f)) else e[f]? := by
    induction fields with
    | nil => simp
    | cons field rest ih =>
      intro e
      rw [List.foldl_cons, ih, hstep]
      by_cases hmem : f ∈ rest
      · simp only [hmem, List.mem_cons, or_true, true_and]
        split
        · rfl
        · rename_i hindex
          rw [if_neg fun h => hindex h.2]
      · simp [hmem, eq_comm]
  exact (hall ∅).trans (by simp)

end FormEdit

/-! ### Row operations -/

section Operations
variable {η σ : Type} [EditHook η] [Sink σ] {form : Form} {s : Session η} {sink : σ} {g : RowGroup} {b : Bool}
  {r r' : Run η σ}

/-- How a row operation ends that tells whether it was accepted. -/
inductive RowEdited (form : Form) (r : Run η σ) (allowed : Prop) (e : FormEdit) : Bool → Run η σ → Prop
  | refused (h : ¬allowed) : RowEdited form r allowed e false r
  | accepted {u : Option Update} {r' : Run η σ} (h : allowed) (written : (Action.write form e).perform r = (.ok u, r')) :
    RowEdited form r allowed e true r'

theorem RowEdited.of_ite {c : Bool} {e : FormEdit}
    (h : (if c then (do let _ ← Action.write form e; return true) else return false : Action η σ Bool).perform r =
      (.ok b, r')) : RowEdited form r (c = true) e b r' := by
  cases c with
  | false =>
    cases h
    exact .refused Bool.false_ne_true
  | true =>
    rw [if_pos rfl, Action.perform_bind] at h
    rcases hwrite : (Action.write form e).perform r with ⟨x | u, r''⟩
    · rw [hwrite] at h
      cases h
    · rw [hwrite] at h
      cases h
      exact .accepted rfl hwrite

theorem RowEdited.accepted_iff {p : Prop} {e : FormEdit} (h : RowEdited form r p e b r') : b = true ↔ p := by
  cases h with
  | refused h => simp [h]
  | accepted h => simp [h]

theorem RowEdited.allowed {p : Prop} {e : FormEdit} (h : RowEdited form r p e true r') : p :=
  h.accepted_iff.mp rfl

theorem RowEdited.eq_of_refused {p : Prop} {e : FormEdit} (h : RowEdited form r p e false r') : r' = r := by
  cases h
  rfl

theorem RowEdited.congr {p q : Prop} {e : FormEdit} (h : RowEdited form r p e b r') (hpq : p ↔ q) :
    RowEdited form r q e b r' :=
  propext hpq ▸ h

/-- A row is added exactly if the length field of the group may hold one value more. -/
theorem Operation.rowEdited_addRow (hg : form.schema.group? g.id = some g)
    (h : (addRow g.id).perform form s sink = (.ok (.accepted b), r)) :
    RowEdited form ⟨s, sink, []⟩ (∃ k, s.trackers[g.id]? = some k ∧ k.bounds.canGrow (Action.groupLength g s) = true)
      (FormEdit.newRow form.schema.registry g.fields (Action.groupLength g s)) b r := by
  obtain ⟨_, ⟨⟩, hadd⟩ := Action.perform_of_return h
  rw [Action.addRow, Action.editRows, Action.group, hg] at hadd
  exact (RowEdited.of_ite hadd).congr (Option.any_eq_true _ _)

/-- A row is removed exactly if the length field of the group holds it and may hold one value less. -/
theorem Operation.rowEdited_removeRow {index : Nat} (hg : form.schema.group? g.id = some g)
    (h : (removeRow g.id index).perform form s sink = (.ok (.accepted b), r)) :
    RowEdited form ⟨s, sink, []⟩ (index < Action.groupLength g s ∧
        ∃ k, s.trackers[g.id]? = some k ∧ k.bounds.canShrink (Action.groupLength g s) = true)
      (FormEdit.eraseRow s.store.values g.fields index) b r := by
  obtain ⟨_, ⟨⟩, hremove⟩ := Action.perform_of_return h
  rw [Action.removeRow, Action.editRows, Action.group, hg] at hremove
  refine (RowEdited.of_ite hremove).congr ?_
  rw [Bool.and_eq_true, decide_eq_true_eq, Option.any_eq_true]

theorem RowEdited.store {allowed : Prop} {e : FormEdit} (h : RowEdited form r allowed e true r') :
    r'.session.store = (r.session.store.stage e).2 := by
  cases h with
  | accepted _ written =>
    have hstore : ((Action.write form e).perform r).2.session.store = (r.session.store.stage e).2 :=
      Action.store_changeData (·.stage e) r
    rwa [written] at hstore

/-! ### Values -/

omit [EditHook η] in
theorem Action.groupLength_of_even {n : Nat} {f : String} (hf : f ∈ g.fields)
    (heven : ∀ f ∈ g.fields, s.store.length f = n) : Action.groupLength g s = n := by
  obtain ⟨field, rest, hfields⟩ := List.exists_cons_of_ne_nil (List.ne_nil_of_mem hf)
  rw [Action.groupLength, RowGroup.lengthField?, hfields]
  exact heven field (hfields ▸ List.mem_cons_self)

theorem Operation.values_removeRow {index : Nat} (hooks : s.store.hooks = []) (hg : form.schema.group? g.id = some g)
    (h : (removeRow g.id index).perform form s sink = (.ok (.accepted true), r)) (f : String) :
    r.session.store.values f = if f ∈ g.fields ∧ index < (s.store.values f).length
      then (s.store.values f).eraseIdx index else s.store.values f := by
  rw [(rowEdited_removeRow hg h).store, Store.values_stage_applyTo hooks, Std.ExtTreeMap.getD_eq_getD_getElem?,
    FormEdit.getElem?_eraseRow]
  split
  · rename_i hrow
    rw [Option.getD_some, FieldEdit.applyTo_eraseRow hrow.2]
  · rfl

/-- A row that is added comes after the values of each field that holds as many as the length field. -/
theorem Operation.values_addRow (hooks : s.store.hooks = []) (hg : g ∈ form.schema.groups)
    (h : (addRow g.id).perform form s sink = (.ok (.accepted true), r)) {f : String}
    (heven : f ∈ g.fields → s.store.length f = Action.groupLength g s) :
    r.session.store.values f = if f ∈ g.fields
      then s.store.values f ++ [(form.schema.registry.spec f).default] else s.store.values f := by
  have hvalid := Schema.problems_eq_nil_iff.mp form.valid
  rw [(rowEdited_addRow (hvalid.group?_of_mem hg) h).store, Store.values_stage_applyTo hooks,
    FormEdit.getD_newRow _ (hvalid.fields_nodup hg)]
  split
  · rename_i hf
    show FieldEdit.applyTo (FieldEdit.write [] (Action.groupLength g s) _) _ = _
    rw [← heven hf]
    exact FieldEdit.applyTo_write_length ..
  · rfl

/-- What an accepted row operation does to the values. A removal takes one value out of each field of the group that
    holds the row; an addition to fields that hold equally many values puts the default of each after them. No other
    value changes, the fields hold equally many values after it if they did before, and removing the row that was added
    brings all values back. -/
theorem row_edits_exact {τ : Type} [Sink τ] (hooks : s.store.hooks = []) (hg : g ∈ form.schema.groups) :
    (∀ (sink : σ) (index : Nat) (r : Run η σ),
      (Operation.removeRow g.id index).perform form s sink = (.ok (.accepted true), r) →
        (∀ f, r.session.store.values f = if f ∈ g.fields ∧ index < (s.store.values f).length
          then (s.store.values f).eraseIdx index else s.store.values f) ∧
        ∀ n, (∀ f ∈ g.fields, s.store.length f = n) → ∀ f ∈ g.fields, r.session.store.length f = n - 1) ∧
    ∀ (sink : σ) (n : Nat) (r : Run η σ), (∀ f ∈ g.fields, s.store.length f = n) →
      (Operation.addRow g.id).perform form s sink = (.ok (.accepted true), r) →
        (∀ f, r.session.store.values f = if f ∈ g.fields
          then s.store.values f ++ [(form.schema.registry.spec f).default] else s.store.values f) ∧
        (∀ f ∈ g.fields, r.session.store.length f = n + 1) ∧
        ∀ (sink' : τ) (r' : Run η τ), (Operation.removeRow g.id n).perform form r.session sink' =
          (.ok (.accepted true), r') → ∀ f, r'.session.store.values f = s.store.values f := by
  have hgroup := (Schema.problems_eq_nil_iff.mp form.valid).group?_of_mem hg
  constructor
  · intro sink index r hremove
    have hvalues := Operation.values_removeRow hooks hgroup hremove
    refine ⟨hvalues, fun n heven f hf => ?_⟩
    -- The bound is read off the length field, and all fields of the group are as long.
    have hindex : index < n := by
      rw [← Action.groupLength_of_even hf heven]
      exact (Operation.rowEdited_removeRow hgroup hremove).allowed.1
    have hlength : (s.store.values f).length = n := heven f hf
    rw [Store.length, hvalues, if_pos ⟨hf, hlength ▸ hindex⟩, List.length_eraseIdx_of_lt (hlength ▸ hindex), hlength]
  · intro sink n r heven hadd
    have hvalues := fun f => Operation.values_addRow (f := f) hooks hg hadd fun hf =>
      (heven f hf).trans (Action.groupLength_of_even hf heven).symm
    have hlengths : ∀ f ∈ g.fields, r.session.store.length f = n + 1 := by
      intro f hf
      rw [Store.length, hvalues, if_pos hf, List.length_append, ← heven f hf]
      rfl
    refine ⟨hvalues, hlengths, fun sink' r' hremove f => ?_⟩
    have hhooks : r.session.store.hooks = [] := by
      rw [(Operation.rowEdited_addRow hgroup hadd).store]
      exact Store.hooks_stage_eq_nil hooks _
    rw [Operation.values_removeRow hhooks hgroup hremove]
    -- The removal takes exactly the value that was appended.
    by_cases hf : f ∈ g.fields
    · have hlength : (s.store.values f).length = n := heven f hf
      have hheld : n < (r.session.store.values f).length := by
        rw [← Store.length, hlengths f hf]
        exact Nat.lt_succ_self n
      rw [if_pos ⟨hf, hheld⟩, hvalues, if_pos hf, List.eraseIdx_append_of_length_le (Nat.le_of_eq hlength), hlength,
        Nat.sub_self]
      exact List.append_nil _
    · rw [if_neg fun h => hf h.1, hvalues, if_neg hf]

end Operations

/-! ### Parcels with and without a service -/

/-- A form with one group. A parcel is sent by the standard service unless another one is asked for. -/
def parcelForm : Form where
  schema :=
    { Schema.empty with
      registry := (∅ : Registry).insert "service" ⟨"standard", .never, false⟩
      steps := [⟨"shipment", []⟩]
      groups := [⟨"parcels", "shipment", ["address", "service"], 0, 0⟩] }
  valid := by decide +kernel
  classify _ := ∅

/-- Two parcels with an address and a service each. -/
def parcelStore : Store Empty :=
  .ofCommitted (((∅ : FieldValues).insert "address" ["Dock 1", "Dock 1"]).insert "service" ["express", "standard"])

/-- A third parcel is asked for. -/
def parcelAdded : Except SessionError Reply × Run Empty SilentSink :=
  (Operation.addRow "parcels").perform parcelForm (.new parcelForm parcelStore) ⟨⟩

/-- One of two parcels to the same address is taken away. -/
def parcelTaken (index : Nat) (s : Session Empty) : Except SessionError Reply × Run Empty SilentSink :=
  (Operation.removeRow "parcels" index).perform parcelForm s ⟨⟩

theorem row_edits_exact_parcelAdded :
    (parcelTaken 0 (.new parcelForm parcelStore)).2.session.store.values "service" = ["standard"] ∧
      parcelAdded.2.session.store.values "service" = ["express", "standard", "standard"] ∧
      ∀ f, (parcelTaken 2 parcelAdded.2.session).2.session.store.values f = parcelStore.values f := by
  have taken : ∀ {index s}, (parcelTaken index s).1 = .ok (.accepted true) →
      (Operation.removeRow "parcels" index).perform parcelForm s SilentSink.mk =
        (.ok (.accepted true), (parcelTaken index s).2) := fun hok => Prod.ext hok rfl
  have added : (Operation.addRow "parcels").perform parcelForm (.new parcelForm parcelStore) SilentSink.mk =
      (.ok (.accepted true), parcelAdded.2) := Prod.ext (by decide +kernel) rfl
  have hgroup : ⟨"parcels", "shipment", ["address", "service"], 0, 0⟩ ∈ parcelForm.schema.groups :=
    List.mem_singleton_self _
  obtain ⟨hremove, hadd⟩ := row_edits_exact (σ := SilentSink) (τ := SilentSink) (s := .new parcelForm parcelStore)
    rfl hgroup
  obtain ⟨hremoved, -⟩ := hremove _ 0 _ (taken (by decide +kernel))
  obtain ⟨hadded, -, hback⟩ := hadd _ 2 _ (by decide +kernel) added
  exact ⟨(hremoved "service").trans (by decide +kernel), (hadded "service").trans (by decide +kernel),
    hback _ _ (taken (by decide +kernel))⟩

end FormSession
