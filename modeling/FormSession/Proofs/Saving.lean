import FormSession.Proofs.Clearing
import FormSession.Proofs.HiddenRows

/-! # What a save commits

Saving a step clears it, runs the waiting work and commits the values. The clear puts the rows that the ledger
lists back to their resting values and starts a new list, so that a row which stays hidden is no longer listed
after it; and the waiting work runs after the clear. What is committed for a row is therefore what the clear left
there, unless the waiting work changed it, and a hidden row is committed at rest exactly if that is its resting
value (`hidden_saved_iff`). The first save of a step that is displayed finds every hidden row listed
(`heldCleared_of_hidden`). -/

namespace FormSession

/-! ### What a row holds -/

/-- What a row holds after an edit of its field; the empty value stands for a row that is not there. -/
def FieldEdit.rowAfter (e : FieldEdit) (i : Nat) (held : String) : String :=
  if e.cuts i then ""
  else match e.slotAt i with
    | .write v => v
    | _ => held

/-- What a row holds after a moment: an update that is published tells it. -/
def Moment.rowAfter (f : String) (i : Nat) (held : String) : Moment → String
  | .effect (.published u) => FieldEdit.rowAfter (u.edit.getD f []) i held
  | _ => held

/-- What a row holds after a trace. -/
def rowAfter (f : String) (i : Nat) (held : String) (trace : List Moment) : String :=
  trace.foldl (Moment.rowAfter f i) held

/-- What a row of a store holds; the empty value stands for a row that is not there. -/
def Store.held {η : Type} (s : Store η) (f : String) (i : Nat) : String := (s.value? f i).getD ""

theorem FieldEdit.rowAfter_eq (e : FieldEdit) (i : Nat) (values : List String) :
    (e.applyTo values)[i]?.getD "" = e.rowAfter i (values[i]?.getD "") := by
  rw [rowAfter]
  cases hc : e.cuts i with
  | true => simp [getElem?_applyTo_of_cuts hc]
  | false =>
    rw [if_neg Bool.false_ne_true]
    cases hs : e.slotAt i with
    | write v => simp [getElem?_applyTo_of_write hc hs]
    | keep =>
      rcases getElem?_applyTo_of_keep hc hs values with hkeep | ⟨hnone, hpad⟩
      · rw [hkeep]
      · rw [hnone, hpad]
        rfl
    | drop =>
      have hcut := cuts_of_drop (getElem?_of_slotAt hs (by simp)) (Nat.le_refl i)
      rw [hc] at hcut
      cases hcut

section Turns
variable {η : Type} {form : Form} {b b' : List Task} {s s' : Session η} {ms : List Moment} {ds : List Deed}
  {f : String} {i : Nat}

theorem rowAfter_append (held : String) (trace ms : List Moment) :
    rowAfter f i held (trace ++ ms) = rowAfter f i (rowAfter f i held trace) ms :=
  List.foldl_append

theorem rowAfter_moments (held : String) (t : Told) (phase : Phase) : rowAfter f i held (t.moments phase) = held :=
  Told.foldl_moments (fun _ _ _ => rfl) t held

theorem rowAfter_resolvedAt (held : String) (s : Session η) (m : Classification) (force : Bool) :
    rowAfter f i held (s.resolvedAt form m force) = held :=
  Session.foldl_resolvedAt (fun _ _ _ => rfl) form s m force held

variable [EditHook η]

/-- The rows of a session change as its published updates tell. -/
theorem Turn.held (h : Turn form b s ms ds b' s') (f : String) (i : Nat) :
    s'.store.held f i = rowAfter f i (s.store.held f i) ms := by
  have same : ∀ {t : Store η}, (∀ f, t.values f = s.store.values f) → t.held f i = s.store.held f i := fun hv => by
    rw [Store.held, Store.held, Store.value?, Store.value?, hv]
  cases h with
  | unchanged c change => exact same (Store.values_of_change_none change)
  | @changed _ _ _ store u _ t c change =>
    have hleads := Store.leads_of_change change
    show store.held f i = rowAfter f i (FieldEdit.rowAfter (u.edit.getD f []) i (s.store.held f i)) (t.moments .idle)
    rw [rowAfter_moments, Store.held, Store.value?, hleads.values, FieldEdit.rowAfter_eq]
    rfl
  | seeded => exact (rowAfter_moments ..).symm
  | entered => exact (rowAfter_moments ..).symm
  | rebuilt => exact (rowAfter_moments ..).symm
  | passed => rw [rowAfter_append, rowAfter_resolvedAt, rowAfter_moments]
  | refused => rw [rowAfter_append, rowAfter_resolvedAt, rowAfter_moments]
  | began => rfl
  | cleared => rfl
  | displayed => rfl
  | took => rfl
  | dropped => rfl
  | committed => exact same s.store.values_commit

theorem Turns.held (h : Turns form b s ms ds b' s') (f : String) (i : Nat) :
    s'.store.held f i = rowAfter f i (s.store.held f i) ms := by
  induction h with
  | refl => rfl
  | tail _ ht ih => rw [ht.held, ih, rowAfter_append]

end Turns

/-! ### Clearing -/

/-- What a row of a displayed field holds after a clear, unless the field is retained: its resting value if the
    ledger lists the row. -/
def Session.heldCleared {η : Type} (form : Form) (s : Session η) (f : String) (i : Nat) : String :=
  if s.visibility.ledger.contains f i = true ∧ i < s.store.length f then
    form.rules.restingValue s.visibility.cache f i
  else s.store.held f i

section Saves
variable {η σ : Type} [EditHook η] [Sink σ] {form : Form} {r r' : Run η σ} {f : String} {i : Nat}

/-- Without hooks, a clear puts the listed rows back to their resting values. -/
theorem Action.held_clear (hooks : r.session.store.hooks = []) (hf : f ∈ r.session.activeFields)
    (hretain : (form.schema.registry.spec f).retain = false) (i : Nat) :
    ((clear form).perform r).2.session.store.held f i = r.session.heldCleared form f i := by
  have hclears : r.session.Clears form f i ↔
      r.session.visibility.ledger.contains f i = true ∧ i < r.session.store.length f := by
    simp [Session.Clears, hf, hretain]
  rw [perform_clear hooks, store_changeData, Session.heldCleared]
  split
  · rename_i hlisted
    rw [Store.held, Session.value?_clearing_of_clears hooks (hclears.mpr hlisted), Option.getD_some]
  · rename_i hnot
    rw [Store.held, Session.value?_clearing_of_not_clears hooks (mt hclears.mp hnot), Store.held]

/-- A save that ends well clears, runs the waiting work, and commits the values. -/
theorem Action.perform_save {fields : List String} (h : (save form).perform r = (.ok fields, r')) : ∃ u n r₁ r₂,
    (clear form).perform r = (.ok u, r₁) ∧ (flush form).perform r₁ = (.ok n, r₂) ∧
      r' = { r₂ with session := { r₂.session with store := r₂.session.store.commit.2 } } := by
  rw [save, perform_bind] at h
  rcases hclear : (clear form).perform r with ⟨e | u, r₁⟩
  · rw [hclear] at h
    cases h
  · rw [hclear] at h
    dsimp only at h
    rw [perform_bind] at h
    rcases hflush : (flush form).perform r₁ with ⟨e | n, r₂⟩
    · rw [hflush] at h
      cases h
    · rw [hflush] at h
      exact ⟨u, n, r₁, r₂, rfl, hflush, (Prod.mk.inj h).2.symm⟩

/-- What a save that ends well commits: what the clear left in each row, unless the waiting work changed it. -/
theorem saved_held {s : Session η} {sink : σ} {reply : Reply} {r : Run η σ} (hooks : s.store.hooks = [])
    (saved : Operation.save.perform form s sink = (.ok reply, r)) : ∃ later,
      r.trace = (Operation.clear.perform form s sink).2.trace ++ later ∧
      (∀ f, r.session.store.values f = r.session.store.committedValues f) ∧
      ∀ f ∈ s.activeFields, (form.schema.registry.spec f).retain = false → ∀ i,
        (r.session.store.committedValues f)[i]?.getD "" = rowAfter f i (s.heldCleared form f i) later := by
  have hunfold : Operation.save.perform form s sink =
      (Action.save form >>= fun fields => pure (.committed fields)).perform ⟨s, sink, []⟩ := rfl
  rw [hunfold, Action.perform_bind] at saved
  rcases hsave : (Action.save form).perform ⟨s, sink, []⟩ with ⟨e | fields, r'⟩
  · rw [hsave] at saved
    cases saved
  · rw [hsave] at saved
    cases saved
    obtain ⟨u, n, r₁, r₂, hclear, hflush, rfl⟩ := Action.perform_save hsave
    have hcleared : (Operation.clear.perform form s sink).2 = r₁ :=
      (Action.run_return ..).trans (congrArg Prod.snd hclear)
    -- The clear leaves the resting value, and what the flush publishes after it is all that changes the row.
    have hreaches : Reaches form false [] r₁ ((Action.flush form).perform r₁) [] := Action.reaches_flush
    obtain ⟨later, ds, htrace, hturns, -⟩ := hreaches
    rw [hflush] at htrace hturns
    have hsettled : ∀ f, r₂.session.store.commit.2.values f = r₂.session.store.commit.2.committedValues f := fun f => by
      rw [Store.values_commit, Store.committedValues_commit]
    refine ⟨later, by rw [hcleared]; exact htrace, hsettled, fun f hf hretain i => ?_⟩
    show (r₂.session.store.commit.2.committedValues f)[i]?.getD "" = _
    have hheld : ((Action.clear form).perform ⟨s, sink, []⟩).2.session.store.held f i = s.heldCleared form f i :=
      Action.held_clear hooks hf hretain i
    rw [hclear] at hheld
    rw [Store.committedValues_commit, ← hheld]
    exact hturns.held f i

omit [Sink σ] in
/-- As long as no clear has run since tracking was reset, a clear leaves every hidden row at rest. -/
theorem heldCleared_of_hidden {store : Store η} {s : Session η} (tracked : Tracked form (.new form store) true s)
    (hidden : (s.visibility.appliedRows f)[i]? = some false) (hi : i < s.store.length f) :
    s.heldCleared form f i = form.rules.restingValue s.visibility.cache f i := by
  have hlisted : s.visibility.ledger.contains f i = true := tracked.obeys rowRule_hiddenListed rfl f i hidden
  rw [Session.heldCleared, if_pos ⟨hlisted, hi⟩]

/-- A hidden row that a save commits is at rest exactly if the clear left it so and the waiting work did not change
    that, or the waiting work made it so; and the clear leaves it so as long as none has run before, since tracking
    was reset. -/
theorem hidden_saved_iff {s : Session η} {sink : σ} {reply : Reply} {r : Run η σ} (hooks : s.store.hooks = [])
    (saved : Operation.save.perform form s sink = (.ok reply, r)) :
    (∃ later, r.trace = (Operation.clear.perform form s sink).2.trace ++ later ∧
      ∀ f ∈ s.activeFields, (form.schema.registry.spec f).retain = false → ∀ i < r.session.store.length f,
        (r.session.visibility.appliedRows f)[i]? = some false →
          ((r.session.store.committedValues f)[i]? = some (form.rules.restingValue r.session.visibility.cache f i) ↔
            rowAfter f i (s.heldCleared form f i) later = form.rules.restingValue r.session.visibility.cache f i)) ∧
      ∀ store, Tracked form (.new form store) true s → ∀ f, ∀ i < s.store.length f,
        (s.visibility.appliedRows f)[i]? = some false →
          s.heldCleared form f i = form.rules.restingValue s.visibility.cache f i := by
  obtain ⟨later, htrace, hsettled, hcommitted⟩ := saved_held hooks saved
  refine ⟨⟨later, htrace, fun f hf hretain i hi _ => ?_⟩, fun store tracked f i hi hidden => ?_⟩
  · have hlength : i < (r.session.store.committedValues f).length := hsettled f ▸ hi
    rw [← hcommitted f hf hretain i, List.getElem?_eq_getElem hlength, Option.some.injEq, Option.getD_some]
  · exact heldCleared_of_hidden tracked hidden hi

end Saves

/-! ### A hidden row that is saved twice -/

/-- A form with one field, which is hidden at every row. -/
def hiddenForm : Form where
  schema := { Schema.empty with steps := [⟨"s", ["x"]⟩] }
  valid := answerForm.valid
  classify _ := (∅ : Classification).insert "x" (.uniform false)

/-- One value, as it was committed. -/
def hiddenStore : Store Empty := .ofCommitted ((∅ : FieldValues).insert "x" ["a"])

/-- The start of a session hides the one value there is, and the first save puts it back to rest. -/
def hiddenSaved : Except SessionError Reply × Run Empty SilentSink :=
  Operation.save.perform hiddenForm
    (Operation.start.perform hiddenForm (.new hiddenForm hiddenStore) SilentSink.mk).2.session ⟨⟩

/-- The host writes to the hidden row. -/
def hiddenWritten : Except SessionError Reply × Run Empty SilentSink :=
  (Operation.write ((∅ : FormEdit).insert "x" [.write "b"])).perform hiddenForm hiddenSaved.2.session ⟨⟩

/-- The second save, with what was written in between. -/
def hiddenSavedAgain : Except SessionError Reply × Run Empty SilentSink :=
  Operation.save.perform hiddenForm hiddenWritten.2.session ⟨⟩

theorem hidden_saved_iff_hiddenSavedAgain : ∃ later,
    hiddenSavedAgain.2.trace =
        (Operation.clear.perform hiddenForm hiddenWritten.2.session SilentSink.mk).2.trace ++ later ∧
      ((hiddenSavedAgain.2.session.store.committedValues "x")[0]? =
          some (hiddenForm.rules.restingValue hiddenSavedAgain.2.session.visibility.cache "x" 0) ↔
        rowAfter "x" 0 (hiddenWritten.2.session.heldCleared hiddenForm "x" 0) later =
          hiddenForm.rules.restingValue hiddenSavedAgain.2.session.visibility.cache "x" 0) := by
  have saved : Operation.save.perform hiddenForm hiddenWritten.2.session SilentSink.mk =
      (.ok (.committed ["x"]), hiddenSavedAgain.2) := by
    have hok : hiddenSavedAgain.1 = .ok (.committed ["x"]) := by decide +kernel
    rw [← hok, hiddenSavedAgain]
  obtain ⟨⟨later, htrace, hiff⟩, -⟩ := hidden_saved_iff (by decide +kernel) saved
  exact ⟨later, htrace, hiff "x" (by decide +kernel) (by decide +kernel) 0 (by decide +kernel) (by decide +kernel)⟩

/-- The first save commits the resting value. The row stays hidden but is not listed any more, so that the second
    save commits what the host wrote to it. -/
theorem stale_value_saved :
    hiddenSaved.1 = .ok (.committed ["x"]) ∧ hiddenSaved.2.session.store.committedValues "x" = [""] ∧
      hiddenSavedAgain.1 = .ok (.committed ["x"]) ∧ "x" ∈ hiddenSavedAgain.2.session.activeFields ∧
      (hiddenForm.schema.registry.spec "x").retain = false ∧
      hiddenSavedAgain.2.session.visibility.appliedRows "x" = [false] ∧
      hiddenSavedAgain.2.session.store.committedValues "x" = ["b"] ∧
      hiddenForm.rules.restingValue hiddenSavedAgain.2.session.visibility.cache "x" 0 = "" := by
  decide +kernel

end FormSession
