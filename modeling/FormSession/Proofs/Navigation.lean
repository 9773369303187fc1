import FormSession.Proofs.DisplayedStep

/-! # Displaying a step shows all of it

When another step is displayed, or the same one anew, nothing is known of the display any more: what was applied and
listed for the step before is gone, and entering the groups of the new one adds nothing. The pass that ends the
navigation therefore tells every row that it decides, and nothing else is applied or listed after it
(`navigate_displays_step`). -/

namespace FormSession

/-! ### Passes from nothing -/

/-- What the events of a pass tell of a field is what they tell of the one change of this field. -/
theorem flatMap_changes {queue : List FieldChange} {c : FieldChange} {tell : FieldChange → List Nat}
    (fields : (queue.map (·.field)).Nodup) (hc : c ∈ queue) :
    queue.flatMap (fun d => if d.field = c.field then tell d else []) = tell c := by
  induction queue with
  | nil => cases hc
  | cons d rest ih =>
    obtain ⟨hnot, hrest⟩ := List.nodup_cons.mp fields
    rw [List.flatMap_cons]
    rcases List.mem_cons.mp hc with rfl | hc
    · have hothers : ∀ e ∈ rest, (if e.field = c.field then tell e else []) = [] := by
        intro e he
        rw [if_neg]
        intro hsame
        exact hnot (List.mem_map.mpr ⟨e, he, hsame⟩)
      rw [if_pos rfl, List.flatMap_eq_nil_iff.mpr hothers, List.append_nil]
    · have hne : d.field ≠ c.field := by
        intro hsame
        exact hnot (List.mem_map.mpr ⟨c, hc, hsame.symm⟩)
      rw [if_neg hne, ih hrest hc, List.nil_append]

namespace Visibility

/-- Nothing is known of the display. -/
structure Blank (v : Visibility) : Prop where
  cache : ∀ f : String, v.cache[f]? = none
  applied : ∀ f : String, v.applied[f]? = none
  listed : ∀ f i, v.ledger.contains f i = false

theorem blank_resetTracking (v : Visibility) : v.resetTracking.Blank where
  cache _ := Std.ExtTreeMap.getElem?_empty
  applied _ := Std.ExtTreeMap.getElem?_empty
  listed f i := Ledger.contains_clear v.ledger f i

theorem blank_staysFollowing : StaysFollowing Blank where
  removeRow field k h := by
    refine ⟨h.cache, ?_, ?_⟩
    · intro f
      rw [getElem?_applied_removeRow, h.applied, Option.map_none, ite_self]
    · intro f i
      rw [contains_removeRow]
      exact h.listed f _
  forget fields h := by
    refine ⟨?_, ?_, h.listed⟩
    · intro f
      refine (getElem?_cache_invalidate _ fields f).trans ?_
      rw [h.cache, ite_self]
    · intro f
      rw [getElem?_applied_forget, h.applied, ite_self]
  invalidate fields h := by
    refine ⟨?_, h.applied, h.listed⟩
    intro f
    rw [getElem?_cache_invalidate, h.cache, ite_self]

namespace Blank
variable {v : Visibility} {cx : PassContext} {m : Classification} {f : String} {verdict : Verdict}

/-- A pass from nothing resolves every displayed field with a verdict, none of whose rows is known. -/
theorem mem_resolutions_iff (h : v.Blank) {r : Resolution} : r ∈ v.resolutions cx false m ↔
    ∃ f verdict, m[f]? = some verdict ∧ f ∈ cx.active ∧ Resolution.resolve cx false [] f verdict = r := by
  have hrows : ∀ f, v.appliedRows f = [] := by
    intro f
    rw [appliedRows_eq, h.applied, Option.getD_none]
  rw [mem_resolutions]
  simp [h.cache, hrows]

theorem applied_pass (h : v.Blank) (hm : m[f]? = some verdict) (hf : f ∈ cx.active) :
    (v.pass cx false m).2.applied[f]? = some (verdict.decided (cx.rendered f) (cx.values f).length) :=
  getElem?_applied_pass (h.mem_resolutions_iff.mpr ⟨f, verdict, hm, hf, rfl⟩)

theorem applied_pass_of_some (h : v.Blank) {rows : List Bool} (hrows : (v.pass cx false m).2.applied[f]? = some rows) :
    ∃ verdict, m[f]? = some verdict ∧ f ∈ cx.active := by
  by_contra hnone
  have hother : ∀ r ∈ v.resolutions cx false m, r.field ≠ f := by
    intro r hr hrf
    obtain ⟨f', verdict, hm, hactive, rfl⟩ := h.mem_resolutions_iff.mp hr
    obtain rfl : f' = f := hrf
    exact hnone ⟨verdict, hm, hactive⟩
  rw [getElem?_applied_pass_of_notMem hother, h.applied] at hrows
  cases hrows

/-- The rows listed after a pass from nothing are those it hides. -/
theorem contains_pass_iff (h : v.Blank) {i : Nat} : (v.pass cx false m).2.ledger.contains f i = true ↔
    ∃ verdict, m[f]? = some verdict ∧ f ∈ cx.active ∧
      (verdict.decided (cx.rendered f) (cx.values f).length)[i]? = some false := by
  rw [contains_pass]
  constructor
  · rintro (⟨r, hr, hrf, hhidden⟩ | ⟨hbefore, -⟩)
    · obtain ⟨f', verdict, hm, hactive, rfl⟩ := h.mem_resolutions_iff.mp hr
      obtain rfl : f' = f := hrf
      exact ⟨verdict, hm, hactive, (Resolution.mem_resolve_changes.mp hhidden).1⟩
    · rw [h.listed] at hbefore
      cases hbefore
  · rintro ⟨verdict, hm, hactive, hrow⟩
    refine Or.inl ⟨_, h.mem_resolutions_iff.mpr ⟨f, verdict, hm, hactive, rfl⟩, rfl, ?_⟩
    exact Resolution.mem_resolve_changes.mpr ⟨hrow, Or.inr (by simp)⟩

/-- A pass from nothing tells all rows of the fields that have some. -/
theorem mem_queue_iff (h : v.Blank) {c : FieldChange} : c ∈ (v.pass cx false m).1.queue ↔
    ∃ f verdict, m[f]? = some verdict ∧ f ∈ cx.active ∧
      verdict.decided (cx.rendered f) (cx.values f).length ≠ [] ∧
      c = .whole f (verdict.decided (cx.rendered f) (cx.values f).length) := by
  have hwhole : ∀ f verdict, (Resolution.resolve cx false [] f verdict).toChange =
      .whole f (verdict.decided (cx.rendered f) (cx.values f).length) := by
    intro f verdict
    show ((Resolution.resolve cx false [] f verdict).afresh cx).toChange = _
    exact Resolution.toChange_afresh _
  have hchanges : ∀ f verdict, (Resolution.resolve cx false [] f verdict).changes = [] ↔
      verdict.decided (cx.rendered f) (cx.values f).length = [] := by
    intro f verdict
    show Resolution.changesOf false [] (verdict.decided (cx.rendered f) (cx.values f).length) = [] ↔ _
    rw [Resolution.changesOf_nil]
    simp
  rw [mem_pass_queue]
  constructor
  · rintro ⟨r, hr, hne, rfl⟩
    obtain ⟨f, verdict, hm, hactive, rfl⟩ := h.mem_resolutions_iff.mp hr
    exact ⟨f, verdict, hm, hactive, fun hnil => hne ((hchanges f verdict).mpr hnil), hwhole f verdict⟩
  · rintro ⟨f, verdict, hm, hactive, hne, rfl⟩
    exact ⟨_, h.mem_resolutions_iff.mpr ⟨f, verdict, hm, hactive, rfl⟩,
      fun hnil => hne ((hchanges f verdict).mp hnil), hwhole f verdict⟩

/-- What a pass from nothing tells of a field: all of its rows, each as it is decided. -/
theorem told_pass (h : v.Blank) (hm : m[f]? = some verdict) (hf : f ∈ cx.active) (news : RowNews) :
    (v.pass cx false m).1.events.flatMap (Event.rowsOf news f) =
      (FieldChange.whole f (verdict.decided (cx.rendered f) (cx.values f).length)).rowsOf news := by
  rw [Pass.events, List.flatMap_assoc]
  simp only [FieldChange.rowsOf_events]
  by_cases hrows : verdict.decided (cx.rendered f) (cx.values f).length = []
  · -- The pass passes over a field without rows.
    have nothing : (FieldChange.whole f []).rowsOf news = [] := by cases news <;> rfl
    rw [hrows, nothing, List.flatMap_eq_nil_iff]
    intro c hc
    obtain ⟨f', verdict', hm', -, hne, rfl⟩ := h.mem_queue_iff.mp hc
    rw [if_neg]
    intro hsame
    obtain rfl : f' = f := hsame
    rw [hm] at hm'
    cases hm'
    exact hne hrows
  · have hc := h.mem_queue_iff.mpr ⟨f, verdict, hm, hf, hrows, rfl⟩
    exact flatMap_changes (v.nodup_pass_fields cx false m) hc

end Blank
end Visibility

/-! ### Navigating -/

/-- A session with what was done after another history is one with both done. -/
theorem History.trans {η : Type} [EditHook η] {form : Form} {s₀ s s' : Session η} {trace trace' : List Moment}
    (h : History form s₀ trace s) (h' : History form s trace' s') : History form s₀ (trace ++ trace') s' := by
  induction h' with
  | begin => rwa [List.append_nil]
  | call op sink _ ih =>
    rw [← List.append_assoc]
    exact .call op sink ih
  | attach _ hstore ih => exact .attach ih hstore

section Navigating
variable {η σ : Type} [EditHook η] [Sink σ] {form : Form} {s : Session η} {sink : σ} {step : String}

/-- A navigation that ends well ends with a pass from nothing, on the step displayed. -/
theorem Operation.navigate_cases {reply : Reply} {r : Run η σ}
    (h : (navigate step).perform form s sink = (.ok reply, r)) : ∃ (r₂ : Run η σ) (t : Told) (sink' : σ),
      r = Action.passed form (form.classify r₂.session.store.view) false t sink' r₂ ∧
      t.events = (r₂.session.passAt form (form.classify r₂.session.store.view) false).1.events ∧
      r₂.session.visibility.Blank ∧ r₂.session.activeStep = some step ∧
      r₂.session.activeFields = form.schema.stepFields step := by
  have hunfold : (navigate step).perform form s sink =
      (Action.navigate form step >>= fun _ => pure .done).perform ⟨s, sink, []⟩ := rfl
  rw [hunfold, Action.perform_bind, Action.perform_navigate, Action.perform_bind] at h
  rcases hleave : (Action.leave form step).perform ⟨s, sink, []⟩ with ⟨e | u, r₁⟩
  · rw [hleave] at h
    cases h
  · rw [hleave] at h
    obtain ⟨r₂, hentered, harrive⟩ := Action.perform_arrive form step s.trackers.keys r₁
    dsimp only at h
    rw [harrive, Action.classify, Action.perform_bind, Action.perform_session] at h
    dsimp only at h
    have hblank : r₂.session.visibility.Blank :=
      hentered.known Visibility.blank_staysFollowing (Visibility.blank_resetTracking r₁.session.visibility)
    -- A refused pass would have been the reply.
    rcases Action.perform_apply (form.classify r₂.session.store.view) false r₂ with
      ⟨t, sink', htold, -, hrun⟩ | ⟨t, last, sink', rest, -, -, -, hrun⟩
    · rw [hrun] at h
      cases h
      exact ⟨r₂, t, sink', rfl, htold, hblank, hentered.step, hentered.fields⟩
    · rw [hrun] at h
      cases h

omit [Sink σ] in
/-- A started session shows as many rows of the groups of its step as their length fields hold values. -/
theorem History.rows_displayed {store : Store η} {s₀ : Session η} {trace₀ trace : List Moment} {τ : Type} [Sink τ]
    {starter : τ} (before : History form (.new form store) trace₀ s₀)
    (started : History form (Operation.start.perform form s₀ starter).2.session trace s) {g : RowGroup}
    (hg : g ∈ form.schema.groups) (hon : s.activeStep = some g.step) : ∃ k field, s.trackers[g.id]? = some k ∧
      g.lengthField? = some field ∧ k.active = true ∧
      k.count = (RowBounds.mk g.minRows g.maxRows).clamp (s.store.length field) := by
  have rows₀ : s₀.HasRows form := before.hasRows (Session.hasRows_new form store)
  have rows₁ : (Operation.start.perform form s₀ starter).2.session.HasRows form :=
    (History.call Operation.start starter .begin).hasRows rows₀
  have rows : s.HasRows form := started.hasRows rows₁
  have hscoped : s.Scoped form := ((History.call Operation.start starter before).trans started).scoped
  obtain ⟨k, hk⟩ := rows.present g hg
  obtain ⟨g', hg', hfield, hbounds⟩ := rows.own hk
  have hgroup := (Schema.problems_eq_nil_iff.mp form.valid).group?_of_mem hg
  rw [hgroup] at hg'
  cases hg'
  have hactive : k.active = true := by
    have hshown : s.displays? g.id = some k.active := by
      unfold Session.displays?
      rw [hk, Option.map_some]
    rw [hscoped.groups hshown, Session.isOnStep, hgroup, hon]
    simp
  have hcounts := started.counted rows₁ (counted_start rows₀ starter) g.id k hk
  refine ⟨k, k.lengthField, hk, hfield, hactive, ?_⟩
  rw [hcounts.shown hactive, hbounds]

/-- A navigation of a started session that ends well ends with a pass over the step displayed. For each of its fields
    with a verdict, the pass tells every row decided by the values and by the rows then shown of the groups, shown where
    it matches and hidden where not; those rows are applied, and the hidden ones listed. Of no other field is anything
    told, applied or listed, and the groups of the step show as many rows as there are values. -/
theorem navigate_displays_step {store : Store η} {s₀ : Session η} {trace₀ trace : List Moment} {τ : Type} [Sink τ]
    {starter : τ} {reply : Reply} {r : Run η σ} (before : History form (.new form store) trace₀ s₀)
    (started : History form (Operation.start.perform form s₀ starter).2.session trace s)
    (h : (Operation.navigate step).perform form s sink = (.ok reply, r)) :
    ∃ (earlier : List Moment) (t : Told), r.trace = earlier ++ t.moments .applying ∧
      (∀ f verdict, f ∈ form.schema.stepFields step → (form.classify r.session.store.view)[f]? = some verdict →
        let rows := verdict.decided (r.session.rendered? form f) (r.session.store.length f)
        t.events.flatMap (Event.rowsOf .shown f) = (FieldChange.whole f rows).shown ∧
          t.events.flatMap (Event.rowsOf .hidden f) = (FieldChange.whole f rows).hidden ∧
          r.session.visibility.applied[f]? = some rows ∧
          ∀ i, r.session.visibility.ledger.contains f i = true ↔ rows[i]? = some false) ∧
      (∀ f, (f ∈ r.session.visibility.applied ∨ f ∈ r.session.visibility.ledger.fields ∨
          ∃ e ∈ t.events, f ∈ e.field?) →
        f ∈ form.schema.stepFields step ∧ f ∈ form.classify r.session.store.view) ∧
      ∀ g ∈ form.schema.groups, g.step = step → ∃ k field, r.session.trackers[g.id]? = some k ∧
        g.lengthField? = some field ∧ k.active = true ∧
        k.count = (RowBounds.mk g.minRows g.maxRows).clamp (r.session.store.length field) := by
  have after := History.call (Operation.navigate step) sink started
  rw [h] at after
  have whole := (History.call Operation.start starter before).trans after
  obtain ⟨r₂, t, sink', rfl, htold, hblank, hstep, hfields⟩ := Operation.navigate_cases h
  -- The pass starts from nothing, so that it passes over no field and no row of the new step.
  refine ⟨r₂.trace ++ r₂.session.resolvedAt form _ false, t, (List.append_assoc ..).symm, ?_, ?_, ?_⟩
  · intro f verdict hf hm
    rw [← hfields] at hf
    rw [htold]
    refine ⟨hblank.told_pass hm hf .shown, hblank.told_pass hm hf .hidden, hblank.applied_pass hm hf, ?_⟩
    intro i
    refine hblank.contains_pass_iff.trans ⟨?_, fun hrow => ⟨verdict, hm, hf, hrow⟩⟩
    rintro ⟨verdict', hm', -, hrow⟩
    have same : some verdict' = some verdict := hm'.symm.trans hm
    cases same
    exact hrow
  · intro f hf
    -- Whatever is applied, listed or told after the pass comes from the pass, and thus from a verdict.
    have entry : ∃ verdict, (form.classify r₂.session.store.view)[f]? = some verdict ∧ f ∈ r₂.session.activeFields := by
      rcases hf with happlied | hlisted | ⟨e, he, hfield⟩
      · rw [Std.ExtTreeMap.mem_iff_isSome_getElem?, Option.isSome_iff_exists] at happlied
        obtain ⟨rows, hrows⟩ := happlied
        exact hblank.applied_pass_of_some hrows
      · obtain ⟨i, hi⟩ := whole.listed hlisted
        obtain ⟨verdict, hm, hactive, -⟩ := hblank.contains_pass_iff.mp hi
        exact ⟨verdict, hm, hactive⟩
      · rw [htold] at he
        obtain ⟨c, hc, rfl⟩ := Pass.field_of_event he hfield
        obtain ⟨f, verdict, hm, hactive, -, rfl⟩ := hblank.mem_queue_iff.mp hc
        exact ⟨verdict, hm, hactive⟩
    obtain ⟨verdict, hm, hactive⟩ := entry
    rw [hfields] at hactive
    refine ⟨hactive, ?_⟩
    rw [Std.ExtTreeMap.mem_iff_isSome_getElem?]
    exact Option.isSome_iff_exists.mpr ⟨verdict, hm⟩
  · intro g hg hon
    subst hon
    exact before.rows_displayed after hg hstep

/-- The step is displayed anew while its second row has no vehicle. -/
def vehicleAgain : Except SessionError Reply × Run Empty SilentSink :=
  (Operation.navigate "vehicles").perform vehicleForm vehicleStarted.2.session ⟨⟩

/-- The first garage is shown once more and the second one hidden once more, and only the latter is listed. -/
theorem navigate_displays_step_vehicleAgain : ∃ (earlier : List Moment) (t : Told),
    vehicleAgain.2.trace = earlier ++ t.moments .applying ∧
      t.events.flatMap (Event.rowsOf .shown "garage_zip") = [0] ∧
      t.events.flatMap (Event.rowsOf .hidden "garage_zip") = [1] ∧
      ∀ i, vehicleAgain.2.session.visibility.ledger.contains "garage_zip" i = true ↔ [true, false][i]? = some false := by
  have started : History vehicleForm
      (Operation.start.perform vehicleForm (.new vehicleForm vehicleStore) SilentSink.mk).2.session []
      vehicleStarted.2.session := by
    unfold vehicleStarted
    exact .begin
  have again : vehicleAgain = (.ok .done, vehicleAgain.2) := by
    have hok : vehicleAgain.1 = .ok .done := by decide +kernel
    rw [← hok]
  obtain ⟨earlier, t, htrace, hfields, -, -⟩ := navigate_displays_step .begin started again
  have verdict : (vehicleForm.classify vehicleAgain.2.session.store.view)["garage_zip"]? =
      some (.byRow [true, false]) := by decide +kernel
  have rows : (Verdict.byRow [true, false]).decided (vehicleAgain.2.session.rendered? vehicleForm "garage_zip")
      (vehicleAgain.2.session.store.length "garage_zip") = [true, false] := by decide +kernel
  obtain ⟨hshown, hhidden, -, hlisted⟩ := hfields "garage_zip" _ (by decide +kernel) verdict
  rw [rows] at hshown hhidden hlisted
  exact ⟨earlier, t, htrace, hshown, hhidden, hlisted⟩

end Navigating

end FormSession
