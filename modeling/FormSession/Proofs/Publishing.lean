import FormSession.Proofs.History

/-! # What a store publishes

An update tells exactly what changed (`Store.Tells`): it names the fields whose values are other than before, each
with an edit that takes them there and says nothing besides. So it is when an edit is staged, and staging the edit once
more then publishes nothing (`stage_publishes_change`); and so it is when what is staged is dropped, which leaves the
values that were committed (`commit_revert_exact`). Both rest on reduced edits: one that says something changes the
values, so that there is no update exactly if nothing changed. -/

namespace FormSession

namespace Store
variable {η : Type} {s t : Store η} {edit : FormEdit}

/-! ### Edits that tell exactly what changed -/

/-- The edit tells what changed between two stores, and nothing else. -/
structure Tells (s : Store η) (edit : FormEdit) (t : Store η) : Prop where
  named : ∀ f, f ∈ edit ↔ t.values f ≠ s.values f
  replays : ∀ {f e}, edit[f]? = some e → FieldEdit.applyTo e (s.values f) = t.values f
  reduced : ∀ {f e}, edit[f]? = some e → FieldEdit.Reduced e (s.values f)

/-- An edit that leads from one store to another tells what changed if it says something of each field it names. -/
theorem Leads.tells (h : s.Leads edit t) (hnonempty : ∀ f : String, edit[f]? ≠ some []) : s.Tells edit t where
  named f := by
    cases he : edit[f]? with
    | none => simp [Std.ExtTreeMap.mem_iff_isSome_getElem?, he, h.values_of_none he]
    | some e =>
      have hne : FieldEdit.applyTo e (s.values f) ≠ s.values f :=
        (h.reduced he).applyTo_ne fun hnil => hnonempty f (hnil ▸ he)
      simp [Std.ExtTreeMap.mem_iff_isSome_getElem?, he, h.values_of_some he, hne]
  replays he := (h.values_of_some he).symm
  reduced he := h.reduced he

theorem Tells.eq_empty_iff (h : s.Tells edit t) : edit = ∅ ↔ ∀ f, t.values f = s.values f := by
  constructor
  · rintro rfl f
    exact Classical.not_not.mp fun hne => Std.ExtTreeMap.not_mem_empty ((h.named f).mpr hne)
  · intro hsame
    refine Std.ExtTreeMap.ext_getElem? fun f => ?_
    rw [Std.ExtTreeMap.getElem?_eq_none fun hf => (h.named f).mp hf (hsame f), Std.ExtTreeMap.getElem?_empty]

theorem ne_nil_of_bind {α : Type} {entry : Option α} {reduce : α → FieldEdit} :
    (entry.bind fun x => if reduce x = [] then none else some (reduce x)) ≠ some [] := by
  intro h
  obtain ⟨x, -, hx⟩ := Option.bind_eq_some_iff.mp h
  split at hx
  · cases hx
  · next hne => exact hne (Option.some.inj hx)

theorem getElem?_normalize_ne_nil (s : Store η) (edit : FormEdit) (f : String) :
    (s.normalize edit)[f]? ≠ some [] := by
  rw [getElem?_normalize]
  exact ne_nil_of_bind

theorem getElem?_restoring_ne_nil (s : Store η) (f : String) : s.restoring[f]? ≠ some [] := by
  rw [getElem?_restoring]
  exact ne_nil_of_bind

/-! ### Changes -/

variable [EditHook η] {c : StoreChange} {o : Option Update}

/-- The update that a change publishes tells what changed, and something did. -/
theorem tells_of_change {u : Update} (h : s.change c = (some u, t)) : s.Tells u.edit t ∧ u.edit ≠ ∅ := by
  have hleads := leads_of_change h
  cases c with
  | stage e =>
    simp only [change, stage] at h
    split at h
    · cases h
    · rename_i hfilled
      cases h
      exact ⟨hleads.tells (getElem?_normalize_ne_nil _ _), mt Std.ExtTreeMap.isEmpty_iff.mpr hfilled⟩
  | revert =>
    simp only [change, revert] at h
    split at h
    · cases h
    · rename_i hfilled
      cases h
      exact ⟨hleads.tells (getElem?_restoring_ne_nil _), mt Std.ExtTreeMap.isEmpty_iff.mpr hfilled⟩

/-- Nothing is published exactly if no value changed. -/
theorem change_eq_none_iff (h : s.change c = (o, t)) : o = none ↔ ∀ f, t.values f = s.values f := by
  cases o with
  | none => exact ⟨fun _ => values_of_change_none h, fun _ => rfl⟩
  | some u =>
    obtain ⟨htells, hne⟩ := tells_of_change h
    exact ⟨fun hnone => (by cases hnone), fun hsame => absurd (htells.eq_empty_iff.mpr hsame) hne⟩

theorem staged_of_stage_none {e : FormEdit} (h : s.stage e = (none, t)) : t.staged = s.staged := by
  rcases stage_cases s e with ⟨-, h'⟩ | ⟨u, t', h', -⟩
  · rw [h'] at h
    cases h
    rfl
  · rw [h'] at h
    cases h

/-- Staging an edit that says nothing does nothing, without hooks. -/
theorem stage_empty (unhooked : s.hooks = []) : s.stage ∅ = (none, s) := by
  have hempty : s.normalize ∅ = ∅ := Std.ExtTreeMap.ext_getElem? fun f => by simp [getElem?_normalize]
  have hcases := stage_cases s ∅
  rw [unhooked] at hcases
  rcases hcases with ⟨-, hstage⟩ | ⟨u, t, hstage, hedit, -⟩
  · rw [hstage]
    show (none, { s with hooks := [] }) = (none, s)
    rw [← unhooked]
  · have htold : u.edit ≠ ∅ := (tells_of_change (c := .stage ∅) hstage).2
    exact absurd (hedit.trans hempty) htold

/-- Without hooks, the update is what is left of the edit that was staged. -/
theorem edit_of_stage {e : FormEdit} {u : Update} (unhooked : s.hooks = []) (h : (s.stage e).1 = some u) : u.edit = s.normalize e := by
  have hcases := stage_cases s e
  rw [unhooked] at hcases
  rcases hcases with ⟨-, hstage⟩ | ⟨u', t, hstage, hedit, -⟩
  · rw [hstage] at h
    cases h
  · rw [hstage] at h
    cases h
    exact hedit

theorem hooks_stage_eq_nil (unhooked : s.hooks = []) (e : FormEdit) : (s.stage e).2.hooks = [] := by
  have hchange : s.change (.stage e) = ((s.stage e).1, (s.stage e).2) := rfl
  have hlength := length_hooks_change hchange
  rw [unhooked] at hlength
  exact List.eq_nil_of_length_eq_zero hlength

theorem stage_stage_eq_none (unhooked : s.hooks = []) (e : FormEdit) : ((s.stage e).2.stage e).1 = none := by
  have hagain : (s.stage e).2.change (.stage e) = (((s.stage e).2.stage e).1, ((s.stage e).2.stage e).2) := rfl
  refine (change_eq_none_iff hagain).mpr fun f => ?_
  rw [values_stage_applyTo (hooks_stage_eq_nil unhooked e), values_stage_applyTo unhooked, FieldEdit.applyTo_applyTo]

/-- Staging an edit applies it to the values of each field that it names, and publishes exactly what that changes,
    if anything; it does nothing the second time. -/
theorem stage_publishes_change (unhooked : s.hooks = []) (e : FormEdit) :
    let (update, t) := s.stage e
    (∀ f, t.values f = match e[f]? with
      | none => s.values f
      | some x => x.applyTo (s.values f)) ∧
    (update = none ↔ ∀ f, t.values f = s.values f) ∧
    (match update with
      | none => t.version = s.version ∧ t.staged = s.staged
      | some u => u.version = s.version + 1 ∧ t.version = s.version + 1 ∧ s.Tells u.edit t) ∧
    (t.stage e).1 = none := by
  have hvalues := fun f => values_stage_applyTo unhooked e f
  have hagain := stage_stage_eq_none unhooked e
  rcases hstage : s.stage e with ⟨update, t⟩
  have hchange : s.change (.stage e) = (update, t) := hstage
  rw [hstage] at hvalues hagain
  refine ⟨fun f => ?_, change_eq_none_iff hchange, ?_, hagain⟩
  · rw [hvalues f, Std.ExtTreeMap.getD_eq_getD_getElem?]
    cases e[f]? <;> rfl
  · cases update with
    | none => exact ⟨(publication_of_change hchange).2.1, staged_of_stage_none hstage⟩
    | some u =>
      obtain ⟨hnext, hversion, -⟩ := (publication_of_change hchange).2
      exact ⟨hnext, hversion, (tells_of_change hchange).1⟩

/-! ### Committing and dropping what is staged -/

omit [EditHook η] in
theorem committedValues_revert (s : Store η) (f : String) : s.revert.2.values f = s.committedValues f := by
  rcases revert_cases s with ⟨t, h, -, -, hcommitted⟩ | ⟨u, t, h, -, -, hcommitted⟩ <;>
    rw [values_revert, h, committedValues, hcommitted, committedValues]

/-- Dropping what is staged publishes nothing exactly if the values are the committed ones already. -/
theorem revert_eq_none_iff (s : Store η) : s.revert.1 = none ↔ ∀ f, s.values f = s.committedValues f := by
  have hchange : s.change .revert = (s.revert.1, s.revert.2) := rfl
  rw [change_eq_none_iff hchange]
  exact forall_congr' fun f => by rw [committedValues_revert, eq_comm]

theorem revert_eq_none_of_staged (h : s.staged = ∅) : s.revert.1 = none :=
  (revert_eq_none_iff s).mpr fun f => values_of_not_staged (by rw [h]; exact Std.ExtTreeMap.getElem?_empty)

/-- A commit changes no value, and leaves nothing staged that a revert could drop; it tells the fields that were
    staged, in order. A revert takes the values back to the committed ones and publishes exactly what that changes, if
    anything. -/
theorem commit_revert_exact (s : Store η) :
    (let (names, t) := s.commit
     (∀ f, t.values f = s.values f) ∧ t.staged = ∅ ∧ (∀ f, t.committedValues f = t.values f) ∧
       (∀ f, f ∈ names ↔ f ∈ s.staged) ∧ names.Pairwise (· < ·) ∧ t.revert.1 = none) ∧
    (let (update, t) := s.revert
     (∀ f, t.values f = s.committedValues f) ∧ t.staged = ∅ ∧
       (update = none ↔ ∀ f, s.values f = s.committedValues f) ∧
       (∀ u ∈ update, s.Tells u.edit t) ∧ t.revert.1 = none) := by
  constructor
  · have hstaged : s.commit.2.staged = ∅ := rfl
    refine ⟨values_commit s, hstaged, fun f => ?_, fun f => ?_, NameMap.pairwise_keys _, ?_⟩
    · exact (committedValues_commit s f).trans (values_commit s f).symm
    · exact Std.ExtTreeMap.mem_keys
    · exact revert_eq_none_of_staged hstaged
  · refine ⟨committedValues_revert s, staged_revert s, revert_eq_none_iff s, fun u hu => ?_, ?_⟩
    · have hchange : s.change .revert = (some u, s.revert.2) := Prod.ext hu rfl
      exact (tells_of_change hchange).1
    · exact revert_eq_none_of_staged (staged_revert s)

end Store

/-! ### Answers cut off and dropped again -/

/-- Three colours and a note without rows. -/
def colourStore : Store Empty :=
  .ofCommitted (((∅ : FieldValues).insert "colour" ["red", "green", "blue"]).insert "note" [])

/-- The first colour is written as it is, the others go away, and what comes after them has no effect; the note gets
    its second row. -/
def coloursCut : FormEdit :=
  ((∅ : FormEdit).insert "colour" [.write "red", .drop, .drop, .write "black", .drop]).insert
    "note" [.keep, .write "late"]

theorem stage_publishes_change_coloursCut :
    let (update, t) := colourStore.stage coloursCut
    colourStore.hooks = [] ∧ t.values "colour" = ["red"] ∧ t.values "note" = ["", "late"] ∧
      update.map (·.edit.toList) = some [("colour", [.keep, .drop, .drop]), ("note", [.keep, .write "late"])] ∧
      (t.stage coloursCut).1 = none := by
  have unhooked : colourStore.hooks = [] := rfl
  obtain ⟨hvalues, -, -, hagain⟩ := Store.stage_publishes_change unhooked coloursCut
  exact ⟨unhooked, (hvalues "colour").trans (by decide +kernel), (hvalues "note").trans (by decide +kernel),
    by decide +kernel, hagain⟩

theorem commit_revert_exact_coloursCut :
    let s := (colourStore.stage coloursCut).2
    let (update, t) := s.revert
    s.commit.1 = ["colour", "note"] ∧ s.commit.2.committedValues "colour" = ["red"] ∧ s.commit.2.revert.1 = none ∧
      t.values "colour" = ["red", "green", "blue"] ∧ t.revert.1 = none ∧
      update.map (·.edit.toList) =
        some [("colour", [.keep, .write "green", .write "blue"]), ("note", [.drop, .drop])] := by
  obtain ⟨⟨-, -, hcommitted, -, -, hnothing⟩, hreverted, -, -, -, hagain⟩ :=
    Store.commit_revert_exact (colourStore.stage coloursCut).2
  exact ⟨by decide +kernel, (hcommitted "colour").trans (by decide +kernel), hnothing,
    (hreverted "colour").trans (by decide +kernel), hagain, by decide +kernel⟩

end FormSession
