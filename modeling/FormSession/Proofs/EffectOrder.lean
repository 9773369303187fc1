import FormSession.Proofs.Batches
import FormSession.Proofs.RowReplay

/-! # The order of effects

A change of the values is published first, then the rows of the groups follow in ascending order of the groups, and
then a pass is told in ascending order of its fields (`FollowedInOrder`). The events of a pass are told one right
after the other (`Uninterrupted`), so nothing is published between them, and the values stay as they are. The
corrections of the pass wait for a batch taken after it. -/

namespace FormSession
open FormSession.Action (followEdit)

/-! ### The log of one update -/

/-- What can be seen from outside of events told. -/
def Told.effects (t : Told) (phase : Phase) : List Effect := t.map fun x => .told x.1 phase x.2

/-- How a field is told in a pass: the rows to show, if there are any, then those to hide, and then that it settled. The
    rows are in ascending order, and none is to be shown and hidden. -/
inductive FieldTold (field : String) : List Event → Prop
  | shown {rows : List Nat} (some : rows ≠ []) (ordered : rows.Pairwise (· < ·)) :
    FieldTold field [.shown field rows, .settled field]
  | hidden {rows : List Nat} (some : rows ≠ []) (ordered : rows.Pairwise (· < ·)) :
    FieldTold field [.hidden field rows, .settled field]
  | both {shown hidden : List Nat} (someShown : shown ≠ []) (someHidden : hidden ≠ [])
    (orderedShown : shown.Pairwise (· < ·)) (orderedHidden : hidden.Pairwise (· < ·)) (disjoint : shown.Disjoint hidden) :
    FieldTold field [.shown field shown, .hidden field hidden, .settled field]

/-- What an update is followed by: steps of rows outside a pass, with the groups in ascending order of their ids, and
    then the events of a pass, with the fields in ascending order of their names. -/
def FollowedInOrder (u : Update) (log : List Effect) : Prop :=
  ∃ (moves : List (String × List RowOp)) (rows : Told) (fields : List (String × List Event)) (pass : Told),
    log = .published u :: (rows.effects .idle ++ pass.effects .applying) ∧
      rows.events = rowEvents moves ∧ (moves.map (·.1)).Pairwise (· < ·) ∧
      pass.events = fields.flatMap (·.2) ∧ (fields.map (·.1)).Pairwise (· < ·) ∧
      ∀ x ∈ fields, FieldTold x.1 x.2

section Order

variable {force : Bool} {v : Visibility} {cx : PassContext} {m : Classification} {c : FieldChange}

theorem Resolution.pairwise_changesOf (force : Bool) (previous vector : List Bool) :
    ((changesOf force previous vector).map (·.1)).Pairwise (· < ·) :=
  List.Pairwise.sublist (indexes_changesOf_sublist force previous vector) List.pairwise_lt_range'

/-- The rows of a field that change either way come in the order of all that change. -/
theorem Resolution.rows_sublist (r : Resolution) (p : Nat × Bool → Bool) :
    ((r.changes.filter p).map (·.1)).Sublist (r.changes.map (·.1)) :=
  List.filter_sublist.map _

theorem FieldChange.told (filled : c.shown ≠ [] ∨ c.hidden ≠ []) (shown : c.shown.Pairwise (· < ·))
    (hidden : c.hidden.Pairwise (· < ·)) (disjoint : c.shown.Disjoint c.hidden) : FieldTold c.field c.events := by
  by_cases hshown : c.shown = []
  · have hhidden : c.hidden ≠ [] := filled.resolve_left (absurd hshown)
    simpa [events, hshown, hhidden] using FieldTold.hidden hhidden hidden
  · by_cases hhidden : c.hidden = []
    · simpa [events, hshown, hhidden] using FieldTold.shown hshown shown
    · simpa [events, hshown, hhidden] using FieldTold.both hshown hhidden shown hidden disjoint

theorem Visibility.told_of_mem_queue (h : c ∈ (v.pass cx force m).1.queue) : FieldTold c.field c.events := by
  obtain ⟨r, hr, hsome, rfl⟩ := mem_pass_queue.mp h
  have hrows : (r.changes.map (·.1)).Pairwise (· < ·) := by
    obtain ⟨f, verdict, -, -, -, rfl⟩ := mem_resolutions.mp hr
    exact Resolution.pairwise_changesOf ..
  refine FieldChange.told ?_ (hrows.sublist (r.rows_sublist _)) (hrows.sublist (r.rows_sublist _)) ?_
  · obtain ⟨⟨i, visible⟩, hchange⟩ := List.exists_mem_of_ne_nil _ hsome
    cases visible with
    | true => exact Or.inl (List.ne_nil_of_mem (Resolution.mem_shown.mpr hchange))
    | false => exact Or.inr (List.ne_nil_of_mem (Resolution.mem_hidden.mpr hchange))
  · intro i hshown hhidden
    have hsame := vector_of_change hr (Resolution.mem_shown.mp hshown)
    rw [vector_of_change hr (Resolution.mem_hidden.mp hhidden)] at hsame
    cases hsame

theorem Visibility.pairwise_queue (v : Visibility) (cx : PassContext) (force : Bool) (m : Classification) :
    ((v.pass cx force m).1.queue.map (·.field)).Pairwise (· < ·) := by
  have hqueue : (v.pass cx force m).1.queue.map (·.field) =
      ((v.resolutions cx force m).filter (!·.changes.isEmpty)).map (·.field) := by
    simp [pass, Resolution.toChange, Function.comp_def]
  rw [hqueue]
  exact (NameMap.pairwise_keys m).sublist ((List.filter_sublist.map _).trans (v.fields_resolutions_sublist cx force m))

theorem Session.pairwise_moveList {η : Type} (s : Session η)
    (move : Session η → RowTracker → List RowOp × RowTracker) : ((s.moveList move).map (·.1)).Pairwise (· < ·) := by
  rw [Session.keys_moveList]
  exact NameMap.pairwise_keys _

end Order

theorem Told.effects_moments (t : Told) (phase : Phase) : (t.moments phase).filterMap Moment.effect? = t.effects phase := by
  unfold Told.moments Told.effects
  rw [List.filterMap_map]
  exact congrFun (List.filterMap_eq_map (f := fun x : Event × List Request => Effect.told x.1 phase x.2)) t

theorem Session.effects_resolvedAt {η : Type} (form : Form) (s : Session η) (m : Classification) (force : Bool) :
    (s.resolvedAt form m force).filterMap Moment.effect? = [] :=
  filterMap_resolvedAt (fun _ _ => rfl) form s m force

theorem Run.log_of_trace {η σ : Type} {r r' : Run η σ} {ms : List Moment} (h : r'.trace = r.trace ++ ms) :
    r'.log = r.log ++ ms.filterMap Moment.effect? := by
  unfold Run.log
  rw [h, List.filterMap_append]

section Log
variable {η σ : Type} [EditHook η] [Sink σ] {form : Form}

omit [EditHook η] in
/-- A classification that ends well was told to its end. -/
theorem Action.passed_classify {r r' : Run η σ} (h : (classify form).perform r = (.ok (), r')) :
    ∃ (pass : Told) (sink : σ) (m : Classification), pass.events = (r.session.passAt form m false).1.events ∧
      r' = passed form m false pass sink r := by
  rw [classify, perform_bind, perform_session] at h
  dsimp only at h
  rcases perform_apply (form.classify r.session.store.view) false r with
    ⟨pass, left, hpass, -, hdone⟩ | ⟨pass, last, left, rest, -, -, -, hfailed⟩
  · rw [hdone] at h
    cases h
    exact ⟨pass, left, _, hpass, rfl⟩
  · rw [hfailed] at h
    cases h

omit [EditHook η] in
/-- A change of the values that ends well with an update: the update is published, and what follows it is told. -/
theorem Action.passed_changeData {change : Store η → Option Update × Store η} {r r' : Run η σ} {u : Update}
    (h : (changeData form change).perform r = (.ok (some u), r')) :
    ∃ (store : Store η) (written : Session η) (rows pass : Told) (sink sink' : σ) (m : Classification),
      change r.session.store = (some u, store) ∧ written = { r.session with store } ∧
        rows.events = rowEvents (written.moveList (followEdit u.edit)) ∧
        pass.events = ((written.moved form (followEdit u.edit) rows).passAt form m false).1.events ∧
        r' = passed form m false pass sink' ⟨written.moved form (followEdit u.edit) rows, sink,
          r.trace ++ [.effect (.published u)] ++ rows.moments .idle⟩ := by
  rcases perform_changeData form change r with ⟨store, -, hrun⟩ | ⟨u', store, rows, sink, hchange, hrows, hrun⟩
  · rw [hrun] at h
    cases h
  · rw [hrun] at h
    obtain ⟨_, ⟨⟩, hclassified⟩ := perform_of_return h
    obtain ⟨pass, sink', m, hpass, rfl⟩ := passed_classify hclassified
    exact ⟨store, _, rows, pass, sink, sink', m, hchange, rfl, hrows, hpass, rfl⟩

omit [EditHook η] in
/-- A change of the values that ends well with an update is followed in order. -/
theorem Action.log_changeData {change : Store η → Option Update × Store η} {r r' : Run η σ} {u : Update}
    (h : (changeData form change).perform r = (.ok (some u), r')) :
    ∃ effects, r'.log = r.log ++ effects ∧ FollowedInOrder u effects := by
  obtain ⟨store, written, rows, pass, sink, sink', m, -, -, hrows, hpass, rfl⟩ := passed_changeData h
  let s := written.moved form (followEdit u.edit) rows
  have htrace : (passed form m false pass sink'
      ⟨s, sink, r.trace ++ [.effect (.published u)] ++ rows.moments .idle⟩).trace =
        r.trace ++ (.effect (.published u) :: (rows.moments .idle ++ (s.resolvedAt form m false ++ pass.moments .applying))) := by
    simp [passed]
  let fields := (s.passAt form m false).1.queue.map fun c => (c.field, c.events)
  refine ⟨_, Run.log_of_trace htrace, written.moveList (followEdit u.edit), rows, fields, pass, ?_, hrows,
    written.pairwise_moveList _, ?_, ?_, ?_⟩
  · refine congrArg (List.cons (Effect.published u)) ?_
    rw [List.filterMap_append, List.filterMap_append, Told.effects_moments, Told.effects_moments,
      Session.effects_resolvedAt, List.nil_append]
  · rw [hpass, List.flatMap_map]
    rfl
  · rw [List.map_map]
    exact Visibility.pairwise_queue ..
  · intro x hx
    obtain ⟨c, hc, rfl⟩ := List.mem_map.mp hx
    exact Visibility.told_of_mem_queue hc

/-- What a host asks of a session to change its store. -/
def StoreChange.operation : StoreChange → Operation
  | stage e => .write e
  | revert => .discard

theorem StoreChange.followedInOrder {c : StoreChange} {s : Session η} {sink : σ} {u : Update}
    (h : (c.operation.perform form s sink).1 = .ok (.update (some u))) :
    FollowedInOrder u (c.operation.perform form s sink).2.log := by
  have hunfold : c.operation.perform form s sink =
      (Action.changeData form (·.change c) >>= fun u => pure (.update u)).perform ⟨s, sink, []⟩ := by
    cases c <;> rfl
  rw [hunfold, Action.run_return]
  rw [hunfold, Action.reply_return] at h
  rcases hp : (Action.changeData form (·.change c) : Action η σ _).perform ⟨s, sink, []⟩ with ⟨e | reply, r⟩
  · rw [hp] at h
    cases h
  · rw [hp] at h
    cases h
    obtain ⟨effects, hlog, hordered⟩ := Action.log_changeData hp
    rw [hlog]
    exact hordered

end Log

/-! ### The events of a pass -/

/-- Between two events of a pass nothing but events of it happens. A pass resolves its fields before it is told, so
    that two events are of the same pass if no field is resolved between them. -/
def Uninterrupted (trace : List Moment) : Prop :=
  ∀ before first between last after, trace = before ++ first :: (between ++ last :: after) →
    first.applies = true → last.applies = true → (∀ m ∈ between, m.resolves = false) →
      ∀ m ∈ between, m.applies = true

/-- Before an event of a pass there are only other ones back to where the pass resolved a field. -/
def Opened (trace : List Moment) : Prop :=
  ∀ before m after, trace = before ++ m :: after → m.applies = true →
    ∃ early opening told, before = early ++ opening :: told ∧ opening.resolves = true ∧ ∀ k ∈ told, k.applies = true

section Traces
variable {trace ms : List Moment} {m : Moment}

theorem Moment.applies_of_resolves (h : m.resolves = true) : m.applies = false := by
  match m, h with
  | .resolved _ _, _ => rfl

theorem opened_of_outside (h : ∀ m ∈ ms, m.applies = false) : Opened ms := by
  intro before m after hsplit happlies
  rw [h m (hsplit ▸ by simp)] at happlies
  cases happlies

theorem Opened.append (h : Opened trace) (h' : Opened ms) : Opened (trace ++ ms) := by
  intro before m after hsplit happlies
  rcases List.append_eq_append_iff.mp hsplit with ⟨left, rfl, hms⟩ | ⟨left, rfl, hleft⟩
  · obtain ⟨early, opening, told, rfl, hopening, htold⟩ := h' left m after hms happlies
    exact ⟨trace ++ early, opening, told, (List.append_assoc ..).symm, hopening, htold⟩
  · cases left with
    | nil =>
      obtain ⟨early, opening, told, hnil, -, -⟩ := h' [] m after hleft.symm happlies
      simp at hnil
    | cons k rest =>
      cases hleft
      exact h before m rest rfl happlies

/-- The fields that a pass resolved come before its events, if there are any. -/
theorem opened_pass {found told : List Moment} (hfound : ∀ m ∈ found, m.resolves = true)
    (htold : ∀ m ∈ told, m.applies = true) (hsome : told ≠ [] → found ≠ []) : Opened (found ++ told) := by
  intro before m after hsplit happlies
  have hin : ∃ left, before = found ++ left ∧ told = left ++ m :: after := by
    rcases List.append_eq_append_iff.mp hsplit with hlater | ⟨left, rfl, hleft⟩
    · exact hlater
    · cases left with
      | nil => exact ⟨[], by simp, hleft.symm⟩
      | cons k rest =>
        cases hleft
        rw [Moment.applies_of_resolves (hfound m (by simp))] at happlies
        cases happlies
  obtain ⟨left, rfl, hleft⟩ := hin
  have hne : found ≠ [] := hsome (by simp [hleft])
  refine ⟨found.dropLast, found.getLast hne, left, ?_, hfound _ (List.getLast_mem hne), ?_⟩
  · rw [List.append_cons, List.dropLast_append_getLast hne]
  · intro k hk
    exact htold k (hleft ▸ List.mem_append_left _ hk)

theorem Opened.uninterrupted (h : Opened trace) : Uninterrupted trace := by
  intro before first between last after hsplit hfirst hlast hsame
  rw [← List.cons_append, ← List.append_assoc] at hsplit
  obtain ⟨early, opening, told, hbefore, hopening, htold⟩ := h _ last after hsplit hlast
  -- The field that opened the pass was resolved before its first event.
  have hwithin : ∃ left, told = left ++ first :: between := by
    rcases List.append_eq_append_iff.mp hbefore with ⟨left, -, hleft⟩ | ⟨left, -, hleft⟩
    · cases left with
      | nil =>
        cases hleft
        rw [Moment.applies_of_resolves hopening] at hfirst
        cases hfirst
      | cons k rest =>
        cases hleft
        rw [hsame opening (by simp)] at hopening
        cases hopening
    · cases left with
      | nil =>
        cases hleft
        rw [Moment.applies_of_resolves hopening] at hfirst
        cases hfirst
      | cons k rest =>
        cases hleft
        exact ⟨rest, rfl⟩
  obtain ⟨left, rfl⟩ := hwithin
  intro m hm
  exact htold m (by simp [hm])

end Traces

section Passes
variable {η : Type} {form : Form} {s : Session η} {m : Classification} {force : Bool}

/-- A pass that tells something resolved a field. -/
theorem Session.resolvedAt_ne_nil {e : Event} (he : e ∈ (s.passAt form m force).1.events) :
    s.resolvedAt form m force ≠ [] := by
  obtain ⟨c, hc, -⟩ := List.mem_flatMap.mp he
  obtain ⟨r, hr, -⟩ := Visibility.mem_pass_queue.mp hc
  exact List.ne_nil_of_mem (List.mem_map_of_mem hr)

theorem Session.opened_pass {t : Told} (told : ∀ e ∈ t.events, e ∈ (s.passAt form m force).1.events) :
    Opened (s.resolvedAt form m force ++ t.moments .applying) := by
  refine FormSession.opened_pass (forall_resolvedAt fun _ _ => rfl) (Told.forall_moments fun _ _ => rfl) ?_
  intro hsome
  obtain ⟨k, hk⟩ := List.exists_mem_of_ne_nil _ hsome
  obtain ⟨x, hx, -⟩ := List.mem_map.mp hk
  exact resolvedAt_ne_nil (told x.1 (List.mem_map_of_mem hx))

end Passes

/-! ### The values in the course of a trace -/

/-- The values of a field after the updates published in a trace. -/
def valuesAfter (field : String) (values : List String) (trace : List Moment) : List String :=
  trace.foldl (fun values m => match m with
    | .effect (.published u) => FieldEdit.applyTo (u.edit.getD field []) values
    | _ => values) values

section Values
variable {field : String} {values : List String} {trace ms : List Moment} {form : Form}

theorem valuesAfter_append (values : List String) (trace ms : List Moment) :
    valuesAfter field values (trace ++ ms) = valuesAfter field (valuesAfter field values trace) ms :=
  List.foldl_append

theorem valuesAfter_moments (values : List String) (t : Told) (phase : Phase) :
    valuesAfter field values (t.moments phase) = values :=
  Told.foldl_moments (fun _ _ _ => rfl) t values

theorem valuesAfter_resolvedAt {η : Type} (values : List String) (s : Session η) (m : Classification) (force : Bool) :
    valuesAfter field values (s.resolvedAt form m force) = values :=
  Session.foldl_resolvedAt (fun _ _ _ => rfl) form s m force values

end Values

section Turns
variable {η : Type} [EditHook η] {form : Form} {b b' : List Task} {s s' : Session η} {ms : List Moment} {ds : List Deed}

theorem Turn.opened (h : Turn form b s ms ds b' s') : Opened ms := by
  have idle : ∀ t : Told, Opened (t.moments .idle) := fun t =>
    opened_of_outside (Told.forall_moments fun _ _ => rfl)
  cases h with
  | unchanged => exact opened_of_outside (by simp)
  | @changed _ _ _ _ u _ t =>
    exact opened_of_outside (List.forall_mem_cons.mpr ⟨rfl, Told.forall_moments fun _ _ => rfl⟩)
  | seeded => exact idle _
  | entered => exact idle _
  | rebuilt => exact idle _
  | passed m force told => exact Session.opened_pass fun e he => told ▸ he
  | refused m force told => exact Session.opened_pass fun e he => Told.mem_events_of_refused told he
  | began => exact opened_of_outside (by simp)
  | cleared => exact opened_of_outside (by simp)
  | displayed => exact opened_of_outside (by simp)
  | took => exact opened_of_outside (by simp)
  | dropped => exact opened_of_outside (by simp [Moment.applies])
  | committed => exact opened_of_outside (by simp)

/-- The values of a session change as its published updates tell. -/
theorem Turn.valuesAfter (h : Turn form b s ms ds b' s') (f : String) :
    s'.store.values f = FormSession.valuesAfter f (s.store.values f) ms := by
  have pass : ∀ (m : Classification) (force : Bool) (t : Told), s.store.values f =
      FormSession.valuesAfter f (s.store.values f) (s.resolvedAt form m force ++ t.moments .applying) := by
    intro m force t
    rw [valuesAfter_append, valuesAfter_resolvedAt, valuesAfter_moments]
  cases h with
  | unchanged c change => exact Store.values_of_change_none change f
  | @changed _ _ _ store u _ t c change =>
    show store.values f =
      FormSession.valuesAfter f (FieldEdit.applyTo (u.edit.getD f []) (s.store.values f)) (t.moments .idle)
    rw [valuesAfter_moments]
    exact (Store.leads_of_change change).values f
  | seeded => exact (valuesAfter_moments ..).symm
  | entered => exact (valuesAfter_moments ..).symm
  | rebuilt => exact (valuesAfter_moments ..).symm
  | passed m force => exact pass m force _
  | refused m force => exact pass m force _
  | began => rfl
  | cleared => rfl
  | displayed => rfl
  | took => rfl
  | dropped => rfl
  | committed => exact s.store.values_commit f

theorem Stretch.uninterrupted (h : Stretch form b s ms b' s') : Uninterrupted ms :=
  Opened.uninterrupted (h.keep (P := fun _ trace => Opened trace) (fun ht _ hs => hs.append ht.opened)
    (fun _ hs => hs) (opened_of_outside (by simp)))

theorem Stretch.valuesAfter (h : Stretch form b s ms b' s') (f : String) :
    s'.store.values f = FormSession.valuesAfter f (s.store.values f) ms := by
  refine h.keep (P := fun t trace => t.store.values f = FormSession.valuesAfter f (s.store.values f) trace)
    (fun ht trace hs => ?_) (fun hstore hs => (hstore.values f).trans hs) rfl
  rw [ht.valuesAfter, hs, valuesAfter_append]

end Turns

/-! ### Histories -/

section Histories
variable {η σ : Type} [EditHook η] [Sink σ] {form : Form} {store : Store η} {trace : List Moment} {s : Session η}

end Histories

end FormSession
