import FormSession.Proofs.History
import Mathlib.Control.Monad.Basic

/-! # The classification applied last is the one of the values

Whatever changes the values ends with a pass, or fails. As long as the classifier looks at nothing but the values
of the fields, the classification that a session applied last is therefore the one of its values after every
operation that ends well, from the start on (`applied_current`). Row steps may forget verdicts on the way, and a
commit moves the values from one layer to the other; the pass that comes last makes up for the former, and the
latter changes no value. -/

namespace FormSession

/-! ### Values -/

namespace FieldValues

theorem getElem?_filled (d : FieldValues) (f : String) : d.filled[f]? = if d.of f = [] then none else some (d.of f) := by
  rw [filled, Std.ExtTreeMap.getElem?_filter', of, Std.ExtTreeMap.getD_eq_getD_getElem?]
  cases d[f]? with
  | none => rfl
  | some values => cases values <;> rfl

theorem of_filled (d : FieldValues) (f : String) : d.filled.of f = d.of f := by
  rw [of, Std.ExtTreeMap.getD_eq_getD_getElem?, getElem?_filled]
  split
  · rename_i hnone
    rw [hnone, Option.getD_none]
  · rw [Option.getD_some]

end FieldValues

theorem Store.filled_view {η : Type} {s t : Store η} (h : ∀ f, t.values f = s.values f) :
    t.view.filled = s.view.filled := by
  refine Std.ExtTreeMap.ext_getElem? fun f => ?_
  rw [FieldValues.getElem?_filled, FieldValues.getElem?_filled, view_of, view_of, h]

/-- The classifier looks at nothing but the values of the fields that have some. -/
def Form.ClassifiesValues (form : Form) : Prop :=
  ∀ d e : FieldValues, d.filled = e.filled → form.classify d = form.classify e

/-- The classification applied last is the one of the values at hand. -/
def Session.UpToDate {η : Type} (form : Form) (s : Session η) : Prop :=
  s.visibility.cache = form.classify s.store.view

theorem Session.UpToDate.of_values {η : Type} {form : Form} {s t : Session η} (onlyValues : form.ClassifiesValues)
    (h : s.UpToDate form) (hcache : t.visibility.cache = s.visibility.cache)
    (hvalues : ∀ f, t.store.values f = s.store.values f) : t.UpToDate form :=
  hcache.trans (h.trans (onlyValues _ _ (Store.filled_view hvalues)).symm)

/-! ### Actions that end well -/

namespace Action

section Ensures
variable {η σ α β : Type} {P Q T : Session η → Prop} {a : Action η σ α}

/-- An action leads from sessions with one property to sessions with another one whenever it ends well. -/
def Ensures (P Q : Session η → Prop) (a : Action η σ α) : Prop :=
  ∀ r x r', P r.session → a.perform r = (.ok x, r') → Q r'.session

/-- Whatever an action leads to whenever it ends well, it leads to from the sessions with a property. -/
theorem Ensures.of_any (h : a.Ensures (fun _ => True) Q) : a.Ensures P Q := fun r x r' _ ha => h r x r' trivial ha

theorem ensures_any (a : Action η σ α) : a.Ensures P fun _ => True := fun _ _ _ _ _ => trivial

theorem ensures_pure (x : α) : (pure x : Action η σ α).Ensures P P := by
  intro r _ r' hp hpure
  cases hpure
  exact hp

theorem ensures_throw (e : SessionError) : (throw e : Action η σ α).Ensures P Q := by
  intro r x r' _ hthrow
  cases hthrow

theorem ensures_bind {f : α → Action η σ β} (ha : a.Ensures P Q) (hf : ∀ x, (f x).Ensures Q T) :
    (a >>= f).Ensures P T := by
  intro r y r'' hp hbind
  rw [perform_bind] at hbind
  rcases hfirst : a.perform r with ⟨e | x, r'⟩
  · rw [hfirst] at hbind
    cases hbind
  · rw [hfirst] at hbind
    exact hf x r' y r'' (ha r x r' hp hfirst) hbind

theorem ensures_session {f : Session η → Action η σ β} (hf : ∀ s, (f s).Ensures P Q) : (session >>= f).Ensures P Q := by
  refine ensures_bind ?_ hf
  intro r _ r' hp hsession
  cases hsession
  exact hp

theorem ensures_group (form : Form) (id : String) : (group form id : Action η σ RowGroup).Ensures P P := by
  rw [group]
  split
  · exact ensures_pure _
  · exact ensures_throw _

theorem ensures_update {f : Session η → Session η} (h : ∀ s, P s → Q (f s)) :
    (update f : Action η σ Unit).Ensures P Q := by
  intro r _ r' hp hupdate
  cases hupdate
  exact h _ hp

end Ensures

section UpToDate
variable {η σ : Type} [EditHook η] [Sink σ] {form : Form} {P : Session η → Prop}

/-- An action that ends well leaves an up-to-date session up to date. -/
def KeepsUpToDate {α : Type} (form : Form) (a : Action η σ α) : Prop :=
  a.Ensures (Session.UpToDate form) (Session.UpToDate form)

omit [EditHook η] in
/-- A pass told to its end makes its classification the one applied last. -/
theorem cache_apply {m : Classification} {force : Bool} {r r' : Run η σ}
    (h : (apply form m force).perform r = (.ok (), r')) :
    r'.session.visibility.cache = m ∧ r'.session.store = r.session.store := by
  rcases perform_apply m force r with ⟨t, sink, -, -, hrun⟩ | ⟨t, last, sink, rest, -, -, -, hrun⟩
  · rw [hrun] at h
    cases h
    exact ⟨rfl, rfl⟩
  · rw [hrun] at h
    cases h

omit [EditHook η] in
/-- A classification that ends well brings any session up to date. -/
theorem upToDate_classify : (classify form : Action η σ Unit).Ensures P (Session.UpToDate form) := by
  intro r u r' _ hclassify
  rw [classify, perform_bind, perform_session] at hclassify
  obtain ⟨hcache, hstore⟩ := cache_apply hclassify
  rw [Session.UpToDate, hcache, hstore]

omit [EditHook η] in
theorem keeps_reapply : (reapply form : Action η σ Unit).KeepsUpToDate form := by
  intro r u r' hcurrent hreapply
  rw [reapply, perform_bind, perform_session] at hreapply
  obtain ⟨hcache, hstore⟩ := cache_apply hreapply
  rw [Session.UpToDate, hcache, hstore]
  exact hcurrent

omit [EditHook η] [Sink σ] in
theorem keeps_update {f : Session η → Session η} (hcache : ∀ s, (f s).visibility.cache = s.visibility.cache)
    (hstore : ∀ s, (f s).store = s.store) : (update f : Action η σ Unit).KeepsUpToDate form :=
  ensures_update fun s hcurrent => by rw [Session.UpToDate, hcache, hstore]; exact hcurrent

variable (onlyValues : form.ClassifiesValues)
include onlyValues

/-- A change of the values is followed by a classification, unless it changes no value. -/
theorem keeps_changeData (c : StoreChange) : (changeData form (·.change c) : Action η σ _).KeepsUpToDate form := by
  intro r x r' hcurrent hchanged
  rcases perform_changeData form (·.change c) r with ⟨store, hchange, hrun⟩ | ⟨u, store, t, sink, -, -, hrun⟩
  · rw [hrun] at hchanged
    cases hchanged
    exact hcurrent.of_values onlyValues rfl (Store.values_of_change_none hchange)
  · rw [hrun] at hchanged
    have hclassified : (classify form >>= fun _ => pure (some u) : Action η σ _).Ensures (fun _ => True)
        (Session.UpToDate form) :=
      ensures_bind upToDate_classify fun _ => ensures_pure _
    exact hclassified _ _ _ trivial hchanged

theorem keeps_write (e : FormEdit) : (write form e : Action η σ _).KeepsUpToDate form :=
  keeps_changeData onlyValues (.stage e)

theorem keeps_clear : (clear form : Action η σ _).KeepsUpToDate form := by
  refine ensures_session fun s => ensures_bind (keeps_update (fun _ => rfl) fun _ => rfl) fun _ => ?_
  split
  · exact ensures_pure _
  · exact keeps_write onlyValues _

theorem keeps_runTask (task : Task) : (runTask form task : Action η σ Unit).KeepsUpToDate form := by
  cases task with
  | write e => exact ensures_bind (keeps_write onlyValues e) fun _ => ensures_pure ()
  | classify => exact upToDate_classify

theorem keeps_runTasks (tasks : List Task) : (runTasks form tasks : Action η σ Unit).KeepsUpToDate form := by
  induction tasks with
  | nil => exact ensures_pure ()
  | cons task rest ih => exact ensures_bind (keeps_runTask onlyValues task) fun _ => ih

theorem keeps_flushWithin (left done : Nat) : (flushWithin form left done : Action η σ Nat).KeepsUpToDate form := by
  have taken : ∀ queue, (update fun s => { s with queue } : Action η σ Unit).KeepsUpToDate form :=
    fun queue => keeps_update (fun _ => rfl) fun _ => rfl
  induction left generalizing done with
  | zero =>
    rw [flushWithin]
    refine ensures_session fun s => ?_
    split
    · exact ensures_pure done
    · -- What still waits is dropped, and the flush does not end well.
      exact ensures_bind (taken _) fun _ => ensures_bind (ensures_any _) fun _ => ensures_throw _
  | succ left ih =>
    rw [flushWithin]
    refine ensures_session fun s => ?_
    split
    · exact ensures_pure done
    · exact ensures_bind (taken _) fun _ => ensures_bind (keeps_runTasks onlyValues _) fun _ => ih (done + 1)

theorem keeps_save : (save form : Action η σ _).KeepsUpToDate form := by
  refine ensures_bind (keeps_clear onlyValues) fun _ => ensures_bind (keeps_flushWithin onlyValues _ _) fun _ => ?_
  -- A commit changes no value.
  intro r fields r' hcurrent hcommitted
  cases hcommitted
  exact hcurrent.of_values onlyValues rfl r.session.store.values_commit

theorem keeps_editRows (id : String) (allowed : RowGroup → Session η → Bool)
    (edit : RowGroup → Session η → FormEdit) :
    (editRows form id allowed edit : Action η σ Bool).KeepsUpToDate form := by
  refine ensures_bind (ensures_group form id) fun g => ensures_session fun s => ?_
  split
  · exact ensures_bind (keeps_write onlyValues _) fun _ => ensures_pure true
  · exact ensures_pure false

omit onlyValues

omit [EditHook η] in
theorem upToDate_resetGroup (id : String) :
    (resetGroup form id : Action η σ Unit).Ensures P (Session.UpToDate form) := by
  refine ensures_bind (ensures_group form id) fun g => ensures_session fun s => ?_
  split
  · exact ensures_throw _
  · exact ensures_bind (ensures_any _) fun _ => ensures_bind (ensures_any _) fun _ => upToDate_classify

/-- A step that is displayed is classified last. -/
theorem upToDate_navigate (step : String) :
    (navigate form step : Action η σ Unit).Ensures P (Session.UpToDate form) := by
  have hdisplay : ∀ groups, (do
      update (Session.display form step)
      enterGroups form groups
      classify form : Action η σ Unit).Ensures (fun _ => True) (Session.UpToDate form) := fun groups =>
    ensures_bind (ensures_any _) fun _ => ensures_bind (ensures_any _) fun _ => upToDate_classify
  rw [navigate]
  by_cases hstep : form.schema.hasStep step = true
  · simp only [hstep, Bool.not_true, Bool.false_eq_true, ↓reduceIte]
    refine ensures_session fun s => ?_
    split
    · exact ensures_bind (ensures_any _) fun _ => hdisplay _
    · exact (hdisplay _).of_any
  · simp only [hstep, Bool.not_false, ↓reduceIte]
    exact ensures_throw _

theorem upToDate_start : (start form : Action η σ Unit).Ensures P (Session.UpToDate form) := by
  refine ensures_bind (ensures_any _) fun _ => ?_
  split
  · exact (upToDate_navigate _).of_any
  · exact upToDate_classify

end UpToDate

end Action

/-! ### Operations -/

section Operations
variable {η σ : Type} [EditHook η] [Sink σ] {form : Form} {s : Session η} {sink : σ} {reply : Reply} {r : Run η σ}

theorem Operation.upToDate_start (h : Operation.start.perform form s sink = (.ok reply, r)) :
    r.session.UpToDate form := by
  have hstart : (start.action form : Action η σ Reply).Ensures (fun _ => True) (Session.UpToDate form) :=
    Action.ensures_bind Action.upToDate_start fun _ => Action.ensures_pure _
  exact hstart ⟨s, sink, []⟩ reply r trivial h

/-- An operation that ends well leaves an up-to-date session up to date, unless the host dictates a classification. -/
theorem Operation.keepsUpToDate {op : Operation} (onlyValues : form.ClassifiesValues)
    (hop : ∀ m force, op ≠ .apply m force) (hcurrent : s.UpToDate form) (h : op.perform form s sink = (.ok reply, r)) : r.session.UpToDate form := by
  have replying : ∀ {α : Type} {a : Action η σ α} {f : α → Reply}, a.KeepsUpToDate form →
      (a >>= fun x => pure (f x)).KeepsUpToDate form := fun ha =>
    Action.ensures_bind ha fun _ => Action.ensures_pure _
  have hkeeps : (op.action form : Action η σ Reply).KeepsUpToDate form := by
    cases op with
    | start => exact replying Action.upToDate_start
    | classify => exact replying Action.upToDate_classify
    | reapply => exact replying Action.keeps_reapply
    | apply m force => exact absurd rfl (hop m force)
    | write e => exact replying (Action.keeps_write onlyValues e)
    | clear => exact replying (Action.keeps_clear onlyValues)
    | discard => exact replying (Action.keeps_changeData onlyValues .revert)
    | flush => exact replying (Action.keeps_flushWithin onlyValues _ _)
    | navigate step => exact replying (Action.upToDate_navigate step)
    | save => exact replying (Action.keeps_save onlyValues)
    | addRow id => exact replying (Action.keeps_editRows onlyValues id _ _)
    | removeRow id i => exact replying (Action.keeps_editRows onlyValues id _ _)
    | resetGroup id => exact replying (Action.upToDate_resetGroup id)
  exact hkeeps ⟨s, sink, []⟩ reply r hcurrent h

end Operations

/-! ### Histories -/

section Histories
variable {η : Type} [EditHook η] {form : Form}

/-- What a host leads a session to by operations that all end well, without dictating a classification. -/
inductive Succeeds (form : Form) (s₀ : Session η) : Session η → Prop
  | begin : Succeeds form s₀ s₀
  | call {s σ} [Sink σ] {op : Operation} {sink : σ} {reply r} : Succeeds form s₀ s →
    (∀ m force, op ≠ .apply m force) → op.perform form s sink = (.ok reply, r) → Succeeds form s₀ r.session
  | attach {s store} : Succeeds form s₀ s → s.store.Attaches store → Succeeds form s₀ { s with store }

theorem Succeeds.upToDate {s₀ s : Session η} (onlyValues : form.ClassifiesValues) (h : Succeeds form s₀ s)
    (hstart : s₀.UpToDate form) : s.UpToDate form := by
  induction h with
  | begin => exact hstart
  | call _ hop hperform ih => exact Operation.keepsUpToDate onlyValues hop ih hperform
  | attach _ hstore ih => exact ih.of_values onlyValues rfl hstore.values

/-- Once a start has ended well, the classification applied last is the one of the values at hand for as long as
    every operation ends well, if the classifier looks at nothing but the values and the host dictates no
    classification. -/
theorem applied_current {σ : Type} [Sink σ] {s₀ s : Session η} {sink : σ} {reply : Reply} {r : Run η σ}
    (onlyValues : form.ClassifiesValues) (started : Operation.start.perform form s₀ sink = (.ok reply, r))
    (h : Succeeds form r.session s) : s.visibility.cache = form.classify s.store.view :=
  h.upToDate onlyValues (Operation.upToDate_start started)

/-- The garages shown are those of the rows with a vehicle once the second vehicle is filled in. -/
theorem applied_current_vehicleFilled :
    vehicleFilled.2.session.visibility.cache = vehicleForm.classify vehicleFilled.2.session.store.view := by
  have onlyValues : vehicleForm.ClassifiesValues := fun d e h => by
    show (∅ : Classification).insert "garage_zip" (.byRow ((d.of "vin").map (· ≠ ""))) =
      (∅ : Classification).insert "garage_zip" (.byRow ((e.of "vin").map (· ≠ "")))
    rw [← d.of_filled, ← e.of_filled, h]
  have started : vehicleStarted = (.ok .done, vehicleStarted.2) := by
    have hok : vehicleStarted.1 = .ok .done := by decide +kernel
    rw [← hok]
  have written : vehicleFilled =
      (.ok (.update (some ⟨1, (∅ : FormEdit).insert "vin" [.keep, .write "JH4"]⟩)), vehicleFilled.2) := by
    have hok : vehicleFilled.1 = .ok (.update (some ⟨1, (∅ : FormEdit).insert "vin" [.keep, .write "JH4"]⟩)) := by
      decide +kernel
    rw [← hok]
  exact applied_current onlyValues started (.call .begin (by simp) written)

end Histories

end FormSession
