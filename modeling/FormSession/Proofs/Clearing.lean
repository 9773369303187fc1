import FormSession.Proofs.DeferredWork
import FormSession.Proofs.Publishing
import FormSession.Proofs.Resetting

/-! # Clearing a step

A clear puts the listed rows of the displayed fields back to their resting values, unless a field is retained or does
not hold the row. It asks for rows that there are, so that nothing is padded and no field gets longer; and what it
stages says only what changes. The values are as the clear leaves them, and its update is published, before anything
is told; so neither depends on how telling the rest ends (`clear_resets_exactly`). -/

namespace FormSession

/-! ### Published updates -/

/-- The update published at a moment. -/
def Moment.update? : Moment → Option Update
  | .effect (.published u) => some u
  | _ => none

theorem Told.updates_moments (t : Told) (phase : Phase) : (t.moments phase).filterMap Moment.update? = [] :=
  List.filterMap_eq_nil_iff.mpr (forall_moments fun _ _ => rfl)

/-- The updates that a run published, in order. -/
def Run.updates {η σ : Type} (r : Run η σ) : List Update := r.trace.filterMap Moment.update?

namespace Action
variable {η σ : Type} [Sink σ]

/-- Applying a classification publishes nothing, and fails only if it is refused. -/
theorem updates_apply (form : Form) (m : Classification) (force : Bool) (r : Run η σ) :
    ((apply form m force).perform r).2.updates = r.updates ∧
      (((apply form m force).perform r).1 = .ok () ∨
        ((apply form m force).perform r).1 = .error .classificationRecursion) := by
  have hpass : ∀ t : Told, (r.trace ++ (r.session.resolvedAt form m force ++ t.moments .applying)).filterMap
      Moment.update? = r.updates := fun t => by
    rw [List.filterMap_append, List.filterMap_append, Session.filterMap_resolvedAt fun _ _ => rfl, Told.updates_moments,
      List.append_nil, List.append_nil, Run.updates]
  rcases perform_apply m force r with ⟨t, sink, -, -, hrun⟩ | ⟨t, last, sink, rest, -, -, -, hrun⟩
  · rw [hrun]
    exact ⟨hpass t, Or.inl rfl⟩
  · rw [hrun]
    exact ⟨hpass (t ++ [last]), Or.inr rfl⟩

theorem updates_classify (form : Form) (r : Run η σ) : ((classify form).perform r).2.updates = r.updates ∧
    (((classify form).perform r).1 = .ok () ∨ ((classify form).perform r).1 = .error .classificationRecursion) := by
  rw [classify, perform_bind, perform_session]
  exact updates_apply ..

/-- A change of the values publishes its update and no other, whether or not the pass that follows is refused. -/
theorem updates_changeData (form : Form) (change : Store η → Option Update × Store η) (r : Run η σ) :
    ((changeData form change).perform r).2.updates = r.updates ++ (change r.session.store).1.toList ∧
      (((changeData form change).perform r).1 = .ok (change r.session.store).1 ∨
        ((changeData form change).perform r).1 = .error .classificationRecursion) := by
  rcases perform_changeData form change r with ⟨store, hchange, hrun⟩ | ⟨u, store, t, sink, hchange, -, hrun⟩
  · rw [hrun, hchange]
    exact ⟨(List.append_nil _).symm, Or.inl rfl⟩
  · have hpublished : (followed form u store t sink r).updates = r.updates ++ [u] := by
      rw [Run.updates, followed, List.filterMap_append, List.filterMap_append, Told.updates_moments, List.append_nil]
      rfl
    obtain ⟨hupdates, hended⟩ := updates_classify form (followed form u store t sink r)
    rw [hrun, hchange, run_return, reply_return, hupdates, hpublished]
    refine ⟨rfl, hended.imp (fun h => ?_) (fun h => ?_)⟩
    · rw [h]
      rfl
    · rw [h]
      rfl

end Action

/-! ### What a clear writes -/

theorem Visibility.asks_resettable {v : Visibility} {active : NameSet} {values : String → List String}
    {registry : Registry} {f : String} {i : Nat} : (v.resettable active values registry).Asks f i ↔
      f ∈ active ∧ (registry.spec f).retain = false ∧ v.ledger.contains f i = true ∧ i < (values f).length := by
  rw [ResetRequest.Asks, Std.ExtTreeMap.getD_eq_getD_getElem?, resettable, Std.ExtTreeMap.getElem?_filterMap',
    Ledger.contains, Ledger.rows, Std.ExtTreeMap.getD_eq_getD_getElem?]
  cases v.ledger.fields[f]? with
  | none => simp
  | some rows =>
    rw [Option.bind_some, Option.getD_some]
    by_cases hreset : f ∈ active ∧ (registry.spec f).retain = false
    · obtain ⟨hactive, hretain⟩ := hreset
      rw [if_pos (by simp [hactive, hretain])]
      have hheld : i ∈ rows.keys.filter (· < (values f).length) ↔
          rows.contains i = true ∧ i < (values f).length := by simp
      simp only [hactive, hretain, true_and, ← hheld]
      split
      · rename_i hnil
        rw [hnil]
        rfl
      · rfl
    · rw [if_neg (by simpa [not_and] using hreset)]
      exact iff_of_false (by simp) fun h => hreset ⟨h.1, h.2.1⟩

/-- The row is to be put back to its resting value when the step is cleared. -/
def Session.Clears {η : Type} (form : Form) (s : Session η) (f : String) (i : Nat) : Prop :=
  f ∈ s.activeFields ∧ (form.schema.registry.spec f).retain = false ∧ s.visibility.ledger.contains f i = true ∧
    i < s.store.length f

/-- The edit that clears the step. -/
def Session.clearing {η : Type} (form : Form) (s : Session η) : FormEdit :=
  form.rules.reset s.visibility.cache s.store.values
    (s.visibility.resettable s.activeFields s.store.values form.schema.registry)

namespace Session
variable {η : Type} {form : Form} {s : Session η} {f : String} {i : Nat}

instance : Decidable (s.Clears form f i) := inferInstanceAs (Decidable (_ ∧ _))

theorem asks_clearing : (s.visibility.resettable s.activeFields s.store.values form.schema.registry).Asks f i ↔
    s.Clears form f i :=
  Visibility.asks_resettable

theorem hasDrops_clearing (form : Form) (s : Session η) (f : String) :
    FieldEdit.hasDrops ((s.clearing form).getD f []) = false :=
  FieldRules.hasDrops_reset ..

theorem mem_writes_clearing {w : String} : (i, w) ∈ FieldEdit.writes ((s.clearing form).getD f []) ↔
    s.Clears form f i ∧ s.store.value? f i ≠ some (form.rules.restingValue s.visibility.cache f i) ∧
      w = form.rules.restingValue s.visibility.cache f i := by
  rw [clearing, FieldRules.mem_writes_reset, asks_clearing]
  rfl

/-- A clear writes rows that there are, so that no field gets longer. -/
theorem length_applyTo_clearing (form : Form) (s : Session η) (f : String) :
    (FieldEdit.applyTo ((s.clearing form).getD f []) (s.store.values f)).length = s.store.length f := by
  have hn := hasDrops_clearing form s f
  have hwritten : FieldEdit.writtenLength ((s.clearing form).getD f []) ≤ s.store.length f :=
    FieldEdit.writtenLength_le_of_writes fun i w hw =>
      (mem_writes_clearing.mp ((FieldEdit.mem_writes hn).mpr hw)).1.2.2.2
  rw [FieldEdit.length_applyTo_of_no_drops hn]
  exact Nat.max_eq_left hwritten

variable [EditHook η]

/-- What the values are once the step is cleared. -/
theorem value?_clearing_of_clears (unhooked : s.store.hooks = []) (h : s.Clears form f i) :
    (s.store.stage (s.clearing form)).2.value? f i = some (form.rules.restingValue s.visibility.cache f i) := by
  rw [Store.value?, Store.values_stage_applyTo unhooked]
  exact FieldRules.getElem?_reset_of_asks (asks_clearing.mpr h)

theorem length_clearing (unhooked : s.store.hooks = []) (form : Form) (f : String) :
    (s.store.stage (s.clearing form)).2.length f = s.store.length f := by
  rw [Store.length, Store.values_stage_applyTo unhooked]
  exact length_applyTo_clearing form s f

theorem value?_clearing_of_not_clears (unhooked : s.store.hooks = []) (h : ¬s.Clears form f i) :
    (s.store.stage (s.clearing form)).2.value? f i = s.store.value? f i := by
  cases hv : s.store.value? f i with
  | some v =>
    rw [Store.value?, Store.values_stage_applyTo unhooked]
    exact FieldRules.getElem?_reset_of_not_asks (mt asks_clearing.mp h) hv
  | none =>
    have hlength := length_clearing unhooked form f
    rw [Store.value?, List.getElem?_eq_none_iff] at hv ⊢
    rw [Store.length, Store.length] at hlength
    omega

/-- Nothing is published exactly if every row to be put back rests already. -/
theorem clearing_eq_none_iff (unhooked : s.store.hooks = []) : (s.store.stage (s.clearing form)).1 = none ↔
    ∀ f i, s.Clears form f i → s.store.value? f i = some (form.rules.restingValue s.visibility.cache f i) := by
  have hchange : s.store.change (.stage (s.clearing form)) =
      ((s.store.stage (s.clearing form)).1, (s.store.stage (s.clearing form)).2) := rfl
  rw [Store.change_eq_none_iff hchange]
  constructor
  · intro hsame f i hclears
    rw [Store.value?, ← hsame f]
    exact value?_clearing_of_clears unhooked hclears
  · intro hrests f
    refine List.ext_getElem? fun i => ?_
    by_cases hclears : s.Clears form f i
    · exact (value?_clearing_of_clears unhooked hclears).trans (hrests f i hclears).symm
    · exact value?_clearing_of_not_clears unhooked hclears

/-- What the update of a clear tells. -/
theorem mem_writes_of_clearing {u : Update} (unhooked : s.store.hooks = [])
    (h : (s.store.stage (s.clearing form)).1 = some u) (f : String) :
    FieldEdit.hasDrops (u.edit.getD f []) = false ∧ ∀ i w, (i, w) ∈ FieldEdit.writes (u.edit.getD f []) ↔
      s.Clears form f i ∧ s.store.value? f i ≠ some (form.rules.restingValue s.visibility.cache f i) ∧
        w = form.rules.restingValue s.visibility.cache f i := by
  have hn := hasDrops_clearing form s f
  rw [Store.edit_of_stage unhooked h, Store.getD_normalize]
  refine ⟨FieldEdit.hasDrops_normalize hn _, fun i w => ?_⟩
  rw [FieldEdit.mem_writes_normalize hn, mem_writes_clearing]
  refine ⟨And.left, fun hwrite => ⟨hwrite, ?_⟩⟩
  obtain ⟨-, hne, rfl⟩ := hwrite
  exact hne

end Session

/-! ### What a clear does -/

section Clear
variable {η σ : Type} [EditHook η] [Sink σ]

/-- Without hooks, a clear starts a new list of hidden rows and stages the edit that clears the step. -/
theorem Action.perform_clear {r : Run η σ} (unhooked : r.session.store.hooks = []) (form : Form) :
    (clear form).perform r = (changeData form (·.stage (r.session.clearing form))).perform
      { r with session := { r.session with visibility := r.session.visibility.clearHidden } } := by
  rw [clear, perform_bind, perform_session]
  dsimp only
  rw [perform_bind, perform_update]
  dsimp only
  split
  · rename_i hempty
    have hnothing : r.session.clearing form = ∅ := by
      rw [Session.clearing, Std.ExtTreeMap.isEmpty_iff.mp hempty]
      rfl
    rw [hnothing, changeData, perform_bind, perform_changeStore]
    dsimp only
    rw [Store.stage_empty unhooked]
    simp
  · rfl

/-- A clear puts each row that it finds listed in a displayed field, unless the field is retained, back to its resting
    value. Every other value stays, and no field gets longer or shorter. It publishes exactly what that changes, if
    anything. -/
theorem clear_resets_exactly {s : Session η} (unhooked : s.store.hooks = []) (form : Form) (sink : σ) :
    let resting := form.rules.restingValue s.visibility.cache
    let ended := Operation.clear.perform form s sink
    let t := ended.2.session.store
    (∀ f i, s.Clears form f i → t.value? f i = some (resting f i)) ∧
    (∀ f i, ¬s.Clears form f i → t.value? f i = s.store.value? f i) ∧
    (∀ f, t.length f = s.store.length f) ∧
    ∃ update : Option Update, ended.2.updates = update.toList ∧
      (ended.1 = .ok (.update update) ∨ ended.1 = .error .classificationRecursion) ∧
      (update = none ↔ ∀ f i, s.Clears form f i → s.store.value? f i = some (resting f i)) ∧
      ∀ u ∈ update, ∀ f, FieldEdit.hasDrops (u.edit.getD f []) = false ∧ ∀ i w,
        (i, w) ∈ FieldEdit.writes (u.edit.getD f []) ↔
          s.Clears form f i ∧ s.store.value? f i ≠ some (resting f i) ∧ w = resting f i := by
  intro resting ended t
  -- A clear is one change of the store on a session with an emptied ledger, whether or not anything is listed.
  let cleared : Run η σ := ⟨{ s with visibility := s.visibility.clearHidden }, sink, []⟩
  have hclear : (Action.clear form).perform ⟨s, sink, []⟩ =
      (Action.changeData form (·.stage (s.clearing form))).perform cleared := Action.perform_clear unhooked form
  have hrun : ended.2 = ((Action.changeData form (·.stage (s.clearing form))).perform cleared).2 := by
    rw [← hclear]
    exact Action.run_return ..
  have hreply : ended.1 = ((Action.changeData form (·.stage (s.clearing form))).perform cleared).1.map .update := by
    rw [← hclear]
    exact Action.reply_return ..
  have hstore : t = (s.store.stage (s.clearing form)).2 :=
    (congrArg (·.session.store) hrun).trans (Action.store_changeData ..)
  obtain ⟨hupdates, hended⟩ := Action.updates_changeData form (·.stage (s.clearing form)) cleared
  rw [hstore, hrun, hreply]
  refine ⟨fun f i => Session.value?_clearing_of_clears unhooked, fun f i => Session.value?_clearing_of_not_clears unhooked,
    Session.length_clearing unhooked form, (s.store.stage (s.clearing form)).1, hupdates, hended.imp ?_ ?_,
    Session.clearing_eq_none_iff unhooked, fun u hu => Session.mem_writes_of_clearing unhooked hu⟩
  · intro hok
    rw [hok]
    rfl
  · intro hrefused
    rw [hrefused]
    rfl

end Clear

/-! ### Badges handed back -/

/-- The badges of guests who left are hidden. The code of the door is hidden while the first badge is out, and is
    retained. -/
def deskForm : Form where
  schema :=
    { Schema.empty with
      registry := ((∅ : Registry).insert "badge" ⟨"none", .never, false⟩).insert "code" ⟨"", .never, true⟩
      steps := [⟨"desk", ["badge", "code"]⟩] }
  valid := by decide +kernel
  classify values := ((∅ : Classification).insert "badge" (.byRow [false, false, true])).insert "code"
    (.uniform ((values.of "badge").head? = some "none"))

/-- Three badges and a code, as they were committed. -/
def deskStore : Store Empty :=
  .ofCommitted (((∅ : FieldValues).insert "badge" ["A1", "none", "B2"]).insert "code" ["77"])

/-- The start hides the first two badges and the code. -/
def deskStarted : Except SessionError Reply × Run Empty SilentSink :=
  Operation.start.perform deskForm (.new deskForm deskStore) ⟨⟩

/-- A classification is asked for when the code is shown, once the first badge is handed back. -/
def deskCleared : Except SessionError Reply × Run Empty ScriptedSink :=
  Operation.clear.perform deskForm deskStarted.2.session ⟨[[.classify]]⟩

theorem clear_resets_exactly_deskCleared :
    deskStarted.2.session.store.hooks = [] ∧ deskCleared.1 = .error .classificationRecursion ∧
      deskCleared.2.session.store.values "badge" = ["none", "none", "B2"] ∧
      deskCleared.2.session.store.value? "code" 0 = some "77" ∧
      ∃ u, deskCleared.2.updates = [u] ∧ (0, "none") ∈ FieldEdit.writes (u.edit.getD "badge" []) ∧
        ∀ w, (1, w) ∉ FieldEdit.writes (u.edit.getD "badge" []) := by
  have unhooked : deskStarted.2.session.store.hooks = [] := by decide +kernel
  obtain ⟨-, hkept, -, update, hupdates, -, hnone, hwrites⟩ :=
    clear_resets_exactly unhooked deskForm (⟨[[.classify]]⟩ : ScriptedSink)
  cases update with
  | none => exact absurd (hnone.mp rfl "badge" 0 (by decide +kernel)) (by decide +kernel)
  | some u =>
    obtain ⟨-, hbadge⟩ := hwrites u rfl "badge"
    have hcode := hkept "code" 0 (by decide +kernel)
    refine ⟨unhooked, by decide +kernel, by decide +kernel, hcode.trans (by decide +kernel), u, hupdates,
      (hbadge 0 "none").mpr (by decide +kernel), fun w hw => ?_⟩
    exact ((hbadge 1 w).mp hw).2.1 (by decide +kernel)

end FormSession
