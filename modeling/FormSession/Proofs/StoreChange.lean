import FormSession.Proofs.ReducedEdit
import FormSession.Store

/-! # What changes the values of a store

The values of a store change when an edit is staged and when what is staged is dropped. Either way the
published update tells for each field a reduced edit that takes its values to the new ones (`Leads`). A
commit changes no value. -/

namespace FormSession

/-- What a session asks of its store: to stage an edit, or to drop what is staged. -/
inductive StoreChange where
  | stage (e : FormEdit)
  | revert

namespace Store
variable {η : Type} {s t : Store η}

/-- Carries a change out. -/
def change [EditHook η] (s : Store η) : StoreChange → Option Update × Store η
  | .stage e => s.stage e
  | .revert => s.revert

/-- The edit takes the values of one store to those of another, and says only what changes them. -/
structure Leads (s : Store η) (edit : FormEdit) (t : Store η) : Prop where
  values : ∀ f, t.values f = FieldEdit.applyTo (edit.getD f []) (s.values f)
  reduced : ∀ {f e}, edit[f]? = some e → FieldEdit.Reduced e (s.values f)

theorem Leads.values_of_none (h : s.Leads edit t) {f : String} (hf : edit[f]? = none) : t.values f = s.values f := by
  rw [h.values, Std.ExtTreeMap.getD_eq_getD_getElem?, hf]
  rfl

theorem Leads.values_of_some (h : s.Leads edit t) {f : String} {e : FieldEdit} (hf : edit[f]? = some e) :
    t.values f = e.applyTo (s.values f) := by
  rw [h.values, Std.ExtTreeMap.getD_eq_getD_getElem?, hf]
  rfl

/-! ### Hooks -/

theorem length_runHooks [EditHook η] (hooks : List η) (e : FormEdit) :
    (runHooks hooks e).2.length = hooks.length := by
  induction hooks generalizing e with
  | nil => rfl
  | cons h rest ih => simp [runHooks, ih]

/-! ### Staging -/

theorem values_stageEdit (s : Store η) (edit : FormEdit) (f : String) :
    (s.stageEdit edit).values f = FieldEdit.applyTo (edit.getD f []) (s.values f) := by
  simp only [stageEdit, values, Std.ExtTreeMap.getD_eq_getD_getElem?, Std.ExtTreeMap.getElem?_union,
    Std.ExtTreeMap.getElem?_map]
  cases edit[f]? with
  | none => cases s.staged[f]? <;> rfl
  | some e => rfl

theorem getElem?_normalize (s : Store η) (edit : FormEdit) (f : String) :
    (s.normalize edit)[f]? = edit[f]?.bind fun e =>
      if e.normalize (s.values f) = [] then none else some (e.normalize (s.values f)) := by
  rw [normalize, Std.ExtTreeMap.getElem?_filterMap']
  rfl

theorem leads_stageEdit (s : Store η) (edit : FormEdit) :
    s.Leads (s.normalize edit) (s.stageEdit (s.normalize edit)) where
  values := values_stageEdit s _
  reduced h := by
    rw [getElem?_normalize] at h
    obtain ⟨e, -, he⟩ := Option.bind_eq_some_iff.mp h
    split at he
    · cases he
    · cases he
      exact FieldEdit.reduced_normalize e _

/-- What staging an edit does: nothing but to the hooks if the revised edit changes no value, and else the
    edit that is left of it is published. -/
theorem stage_cases [EditHook η] (s : Store η) (e : FormEdit) :
    let (revised, hooks) := runHooks s.hooks e
    (s.normalize revised = ∅ ∧ s.stage e = (none, { s with hooks })) ∨
      ∃ u t, s.stage e = (some u, t) ∧ u.edit = s.normalize revised ∧ s.Leads u.edit t ∧
        t.hooks = hooks ∧ t.committed = s.committed := by
  rcases hr : runHooks s.hooks e with ⟨revised, hooks⟩
  have hsame : ({ s with hooks } : Store η).normalize revised = s.normalize revised := rfl
  by_cases hempty : s.normalize revised = ∅
  · left
    refine ⟨hempty, ?_⟩
    simp [stage, hr, hsame, hempty]
  · right
    have hfilled : (s.normalize revised).isEmpty = false := Std.ExtTreeMap.isEmpty_eq_false_iff.mpr hempty
    have hleads := leads_stageEdit s revised
    refine ⟨⟨s.version + 1, s.normalize revised⟩,
      ((({ s with hooks } : Store η).stageEdit (s.normalize revised)).publish (s.normalize revised)).2, ?_, rfl,
      ⟨hleads.values, hleads.reduced⟩, rfl, rfl⟩
    simp only [stage, hr, hsame, hfilled, Bool.false_eq_true, ↓reduceIte]
    rfl

/-- What is left of an edit for a field, if the field is named or not. -/
theorem getD_normalize (s : Store η) (edit : FormEdit) (f : String) :
    (s.normalize edit).getD f [] = FieldEdit.normalize (edit.getD f []) (s.values f) := by
  rw [Std.ExtTreeMap.getD_eq_getD_getElem?, getElem?_normalize, Std.ExtTreeMap.getD_eq_getD_getElem?]
  cases edit[f]? with
  | none => rfl
  | some e =>
    rw [Option.bind_some, Option.getD_some]
    split
    · rename_i hnil
      rw [hnil]
      rfl
    · rfl

/-- Without hooks, the values after an edit is staged are those that the edit leads to, reduced to what changes
    them. -/
theorem values_stage [EditHook η] (hooks : s.hooks = []) (e : FormEdit) (f : String) :
    (s.stage e).2.values f = FieldEdit.applyTo (FieldEdit.normalize (e.getD f []) (s.values f)) (s.values f) := by
  have hcases := stage_cases s e
  rw [hooks] at hcases
  rw [← getD_normalize]
  rcases hcases with ⟨hempty, hstage⟩ | ⟨u, t, hstage, hedit, hleads, -⟩
  · have hempty : s.normalize e = ∅ := hempty
    rw [hstage, hempty]
    rfl
  · have hedit : u.edit = s.normalize e := hedit
    rw [hstage, ← hedit]
    exact hleads.values f

theorem values_stage_applyTo [EditHook η] (hooks : s.hooks = []) (e : FormEdit) (f : String) :
    (s.stage e).2.values f = (e.getD f []).applyTo (s.values f) := by
  rw [values_stage hooks, FieldEdit.applyTo_normalize]

/-! ### Dropping what is staged -/

theorem getElem?_restoring (s : Store η) (f : String) :
    s.restoring[f]? = s.staged[f]?.bind fun values =>
      if FieldEdit.restore values (s.committedValues f) = [] then none
      else some (FieldEdit.restore values (s.committedValues f)) := by
  rw [restoring, Std.ExtTreeMap.getElem?_filterMap']
  rfl

theorem values_of_staged {f : String} {values : List String} (h : s.staged[f]? = some values) : s.values f = values := by
  rw [Store.values, Std.ExtTreeMap.getD_eq_getD_getElem?, h, Option.getD_some]

theorem values_of_not_staged {f : String} (h : s.staged[f]? = none) : s.values f = s.committedValues f := by
  rw [Store.values, Std.ExtTreeMap.getD_eq_getD_getElem?, h, Option.getD_none, committedValues]

/-- Dropping what is staged leaves the committed values, and the restoring edit leads to them. -/
theorem leads_restoring (ht : ∀ f, t.values f = s.committedValues f) : s.Leads s.restoring t where
  values f := by
    rw [ht, Std.ExtTreeMap.getD_eq_getD_getElem?, getElem?_restoring]
    cases hs : s.staged[f]? with
    | none => exact (values_of_not_staged hs).symm
    | some values =>
      rw [Option.bind_some, values_of_staged hs]
      split
      · rename_i hnil
        rw [Option.getD_none, ← hnil, FieldEdit.applyTo_restore]
      · rw [Option.getD_some, FieldEdit.applyTo_restore]
  reduced {f e} h := by
    rw [getElem?_restoring] at h
    obtain ⟨values, hs, he⟩ := Option.bind_eq_some_iff.mp h
    split at he
    · cases he
    · cases he
      rw [values_of_staged hs]
      exact FieldEdit.reduced_restore _ _

/-- What dropping the staged values does: no value changes, or the restoring edit is published. -/
theorem revert_cases (s : Store η) :
    (∃ t, s.revert = (none, t) ∧ s.Leads ∅ t ∧ t.hooks = s.hooks ∧ t.committed = s.committed) ∨
      ∃ u t, s.revert = (some u, t) ∧ s.Leads u.edit t ∧ t.hooks = s.hooks ∧ t.committed = s.committed := by
  have hvalues : ∀ f, ({ s with staged := ∅ } : Store η).values f = s.committedValues f := fun f => by
    simp [Store.values, committedValues]
  have hleads := leads_restoring hvalues
  by_cases hempty : s.restoring = ∅
  · left
    rw [hempty] at hleads
    exact ⟨_, by simp [revert, hempty], hleads, rfl, rfl⟩
  · right
    have hfilled : s.restoring.isEmpty = false := Std.ExtTreeMap.isEmpty_eq_false_iff.mpr hempty
    refine ⟨⟨s.version + 1, s.restoring⟩, (({ s with staged := ∅ } : Store η).publish s.restoring).2, ?_,
      ⟨hleads.values, hleads.reduced⟩, rfl, rfl⟩
    simp only [revert, hfilled, Bool.false_eq_true, ↓reduceIte]
    rfl

/-! ### Either change, and the commit -/

/-- A change that publishes an update leads to the values that the update tells. -/
theorem leads_of_change [EditHook η] {c : StoreChange} {u : Update} (h : s.change c = (some u, t)) :
    s.Leads u.edit t := by
  cases c with
  | stage e =>
    rcases stage_cases s e with ⟨-, h'⟩ | ⟨u', t', h', -, hl, -⟩
    · rw [change, h'] at h; cases h
    · rw [change, h'] at h; cases h; exact hl
  | revert =>
    rcases revert_cases s with ⟨t', h', -⟩ | ⟨u', t', h', hl, -⟩
    · rw [change, h'] at h; cases h
    · rw [change, h'] at h; cases h; exact hl

/-- A change that publishes nothing changes no value. -/
theorem values_of_change_none [EditHook η] {c : StoreChange} (h : s.change c = (none, t)) (f : String) :
    t.values f = s.values f := by
  cases c with
  | stage e =>
    rcases stage_cases s e with ⟨-, h'⟩ | ⟨u', t', h', -⟩
    · rw [change, h'] at h; cases h; rfl
    · rw [change, h'] at h; cases h
  | revert =>
    rcases revert_cases s with ⟨t', h', hl, -⟩ | ⟨u', t', h', -⟩
    · rw [change, h'] at h; cases h; exact hl.values_of_none rfl
    · rw [change, h'] at h; cases h

theorem length_hooks_change [EditHook η] {c : StoreChange} {o : Option Update} (h : s.change c = (o, t)) :
    t.hooks.length = s.hooks.length := by
  cases c with
  | stage e =>
    rcases stage_cases s e with ⟨-, h'⟩ | ⟨u', t', h', -, -, hh, -⟩
    · rw [change, h'] at h; cases h; exact length_runHooks _ _
    · rw [change, h'] at h; cases h; rw [hh]; exact length_runHooks _ _
  | revert =>
    rcases revert_cases s with ⟨t', h', -, hh, -⟩ | ⟨u', t', h', -, hh, -⟩ <;>
      (rw [change, h'] at h; cases h; rw [hh])

/-- What a change leaves of the version and the subscriptions: an update moves the version up by one and forgets the
    subscriptions that were let go. -/
theorem publication_of_change [EditHook η] {c : StoreChange} {o : Option Update} (h : s.change c = (o, t)) :
    t.subscribed = s.subscribed ∧
      match o with
      | none => t.version = s.version ∧ t.subscriptions = s.subscriptions
      | some u => u.version = s.version + 1 ∧ t.version = s.version + 1 ∧
          t.subscriptions = s.subscriptions.filter (·.held) := by
  cases c with
  | stage e =>
    simp only [change, stage] at h
    split at h <;> cases h <;> exact ⟨rfl, rfl, by simp [publish, stageEdit]⟩
  | revert =>
    simp only [change, revert] at h
    split at h <;> cases h <;> exact ⟨rfl, rfl, by simp [publish]⟩

theorem committed_change [EditHook η] (s : Store η) (c : StoreChange) : (s.change c).2.committed = s.committed := by
  cases c with
  | stage e =>
    rcases stage_cases s e with ⟨-, h⟩ | ⟨u, t, h, -, -, -, hcommitted⟩
    · rw [change, h]
    · rw [change, h, hcommitted]
  | revert =>
    rcases revert_cases s with ⟨t, h, -, -, hcommitted⟩ | ⟨u, t, h, -, -, hcommitted⟩ <;> rw [change, h, hcommitted]

theorem staged_revert (s : Store η) : s.revert.2.staged = ∅ := by
  rw [revert]
  dsimp only
  split <;> rfl

/-- Once what is staged is dropped, the values are the committed ones. -/
theorem values_revert (s : Store η) (f : String) : s.revert.2.values f = s.revert.2.committedValues f :=
  values_of_not_staged (by rw [staged_revert]; exact Std.ExtTreeMap.getElem?_empty)

theorem values_commit (s : Store η) (f : String) : s.commit.2.values f = s.values f := by
  simp only [commit, values, FieldValues.of, FieldValues.filled, Std.ExtTreeMap.getD_eq_getD_getElem?,
    Std.ExtTreeMap.getElem?_union, Std.ExtTreeMap.getElem?_diff, Std.ExtTreeMap.getElem?_filter',
    Std.ExtTreeMap.getElem?_empty, Option.getD_none]
  cases hs : s.staged[f]? with
  | none =>
    have hmem : f ∉ s.staged := by rw [Std.ExtTreeMap.mem_iff_isSome_getElem?, hs]; simp
    simp only [hmem, ↓reduceIte, Option.filter_none, Option.none_or, Option.getD_none]
  | some values =>
    have hmem : f ∈ s.staged := by rw [Std.ExtTreeMap.mem_iff_isSome_getElem?, hs]; rfl
    cases values <;> simp [hmem, Option.filter]

/-- A commit makes the values at hand the committed ones. -/
theorem committedValues_commit (s : Store η) (f : String) : s.commit.2.committedValues f = s.values f := by
  have hnone : s.commit.2.staged[f]? = none := Std.ExtTreeMap.getElem?_empty
  rw [← values_of_not_staged hnone, values_commit]

end Store

end FormSession
