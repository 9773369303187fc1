import FormSession.Proofs.StoreChange
import FormSession.Proofs.Telling
import FormSession.Session.Operation

/-! # Turns of a session

Whatever a host asks of a session, the session goes through turns of a few kinds: the values change and
the rows follow, a classification is applied or refused, a step is displayed, a group is entered, a batch
is taken. `Turn` says once what each kind does to a session, what it adds to the trace, and what it does
with work that is put off (`Deed`); the tasks of the running batch that are still to be run stand beside
the session. Every operation goes through turns (`Operation.turns`), so what every turn keeps holds
throughout every session. -/

namespace FormSession
open FormSession.Action (followEdit seed groupLength)

namespace Session
variable {η : Type}

/-- The pass that applies a classification in a session, and what the display was told after it. -/
def passAt (form : Form) (s : Session η) (m : Classification) (force : Bool) : Pass × Visibility :=
  s.visibility.pass (s.passContext form) force m

/-- What a pass adds to the trace before it is told. -/
def resolvedAt (form : Form) (s : Session η) (m : Classification) (force : Bool) : List Moment :=
  (s.visibility.resolutions (s.passContext form) force m).map fun found => .resolved found.field found.held

end Session

/-- The event told at a moment. -/
def Moment.event? : Moment → Option Event
  | .effect (.told e _ _) => some e
  | _ => none

theorem Told.events_moments (t : Told) (phase : Phase) : (t.moments phase).filterMap Moment.event? = t.events := by
  rw [Told.moments, List.filterMap_map]
  exact congrFun (List.filterMap_eq_map (f := fun x : Event × List Request => x.1)) t

namespace Session
variable {η α : Type}

/-- What holds of any resolution holds of all that a pass adds to the trace before it is told. -/
theorem forall_resolvedAt {P : Moment → Prop} {form : Form} {s : Session η} {m : Classification} {force : Bool}
    (h : ∀ field held, P (.resolved field held)) : ∀ k ∈ s.resolvedAt form m force, P k :=
  List.forall_mem_map.mpr fun found _ => h found.field found.held

/-- What reads nothing off a resolution reads nothing off what a pass adds to the trace before it is told. -/
theorem filterMap_resolvedAt {read : Moment → Option α} (silent : ∀ field held, read (.resolved field held) = none)
    (form : Form) (s : Session η) (m : Classification) (force : Bool) :
    (s.resolvedAt form m force).filterMap read = [] :=
  List.filterMap_eq_nil_iff.mpr (forall_resolvedAt silent)

/-- What a resolution does not change is the same before a pass is told. -/
theorem foldl_resolvedAt {see : α → Moment → α} (blind : ∀ a field held, see a (.resolved field held) = a)
    (form : Form) (s : Session η) (m : Classification) (force : Bool) (a : α) :
    (s.resolvedAt form m force).foldl see a = a := by
  rw [resolvedAt, List.foldl_map]
  exact List.foldl_fixed' (fun _ => blind ..) _

theorem events_resolvedAt (form : Form) (s : Session η) (m : Classification) (force : Bool) :
    (s.resolvedAt form m force).filterMap Moment.event? = [] :=
  filterMap_resolvedAt (fun _ _ => rfl) form s m force

end Session

/-- The queue with the corrections of a pass. -/
def TaskQueue.corrected (q : TaskQueue Task) (p : Pass) : TaskQueue Task :=
  if p.corrections.isEmpty then q else q.add (.write p.corrections)

/-- The corrections of a pass wait after it. -/
theorem TaskQueue.mem_corrected {q : TaskQueue Task} {p : Pass} {task : Task} :
    task ∈ (q.corrected p).waiting.map (·.task) ↔
      task ∈ q.waiting.map (·.task) ∨ (p.corrections ≠ ∅ ∧ task = .write p.corrections) := by
  rw [TaskQueue.corrected]
  by_cases hc : p.corrections = ∅
  · simp [hc]
  · have hempty : p.corrections.isEmpty = false := Std.ExtTreeMap.isEmpty_eq_false_iff.mpr hc
    simp [hempty, hc, TaskQueue.add]

/-! ### What is done with work that is put off -/

/-- What becomes of edits that are to be written later, and of the list of hidden rows. -/
inductive Deed where
  /-- The receiver of an event hands an edit over. -/
  | asked (e : FormEdit)
  /-- A pass that was told to its end hands its corrections over. -/
  | corrected (e : FormEdit)
  /-- An edit handed over before is passed to the store. -/
  | written (e : FormEdit)
  /-- An edit handed over before is given up. -/
  | lost (e : FormEdit)
  /-- A new list of hidden rows is started. -/
  | cleared
  deriving DecidableEq

/-- The edit that a task writes. -/
def Task.edit? : Task → Option FormEdit
  | write e => some e
  | classify => none

/-- The edits of tasks, in order. -/
def Task.edits (tasks : List Task) : List FormEdit := tasks.filterMap edit?

/-- The edits that the receiver asked for with the events told. -/
def Told.edits (t : Told) : List FormEdit := t.flatMap fun x => x.2.filterMap Request.edit?

namespace Deed

/-- The receiver hands over what it asks for with the events told. -/
def ofTold (t : Told) : List Deed := t.edits.map asked

/-- A pass hands its corrections over, unless there are none. -/
def ofPass (p : Pass) : List Deed := if p.corrections.isEmpty then [] else [corrected p.corrections]

@[simp] theorem cleared_notMem_ofTold (t : Told) : cleared ∉ ofTold t := by simp [ofTold]

@[simp] theorem cleared_notMem_ofPass (p : Pass) : cleared ∉ ofPass p := by
  rw [ofPass]
  split <;> simp

@[simp] theorem cleared_notMem_lost (es : List FormEdit) : cleared ∉ es.map lost := by simp

end Deed

/-- Who asks for a change of the values: the host, or the first task of the running batch. -/
inductive Serves : StoreChange → List Task → List Task → List Deed → Prop
  | host (c : StoreChange) (b : List Task) : Serves c b b []
  | task (e : FormEdit) (b : List Task) : Serves (.stage e) (.write e :: b) b [.written e]

theorem Serves.cleared_notMem {c : StoreChange} {b b' : List Task} {ds : List Deed} (h : Serves c b b' ds) :
    .cleared ∉ ds := by
  cases h <;> simp

variable {η : Type} [EditHook η]

/-- A turn: the tasks left of the running batch and the session before it, what it adds to the trace, what it
    does with work that is put off, and the tasks and the session after it. -/
inductive Turn (form : Form) :
    List Task → Session η → List Moment → List Deed → List Task → Session η → Prop
  /-- A change is asked for that changes no value. -/
  | unchanged {b b' s store ds} (c : StoreChange) (change : s.store.change c = (none, store))
    (serves : Serves c b b' ds) : Turn form b s [] ds b' { s with store }
  /-- The values change, and the rows of all groups follow. -/
  | changed {b b' s store u ds} {t : Told} (c : StoreChange) (change : s.store.change c = (some u, store))
    (serves : Serves c b b' ds)
    (told : t.events = rowEvents (({ s with store } : Session η).moveList (followEdit u.edit))) :
    Turn form b s (.effect (.published u) :: t.moments .idle) (ds ++ Deed.ofTold t) b'
      (({ s with store } : Session η).moved form (followEdit u.edit) t)
  /-- The rows of all groups take over the values there are. -/
  | seeded {b s} {t : Told} (told : t.events = rowEvents (s.moveList seed)) :
    Turn form b s (t.moments .idle) (Deed.ofTold t) b (s.moved form seed t)
  /-- A group of the displayed step is displayed; nothing was told of the step yet. -/
  | entered {b s group k} {t : Told} (cache : s.visibility.cache = ∅)
    (onStep : Session.isOnStep form group s.activeStep = true) (tracker : s.trackers[group]? = some k)
    (told : t.events = (k.setActive true).1.map (.rows group)) :
    Turn form b s (t.moments .idle) (Deed.ofTold t) b
      (s.movedOne form group (k.setActive true).1 (k.setActive true).2 t)
  /-- The rows of a group are torn down and built anew. -/
  | rebuilt {b s group g k} {t : Told} (found : form.schema.group? group = some g)
    (tracker : s.trackers[group]? = some k) (told : t.events = (k.reset (groupLength g s)).1.map (.rows group)) :
    Turn form b s (t.moments .idle) (Deed.ofTold t) b
      (s.movedOne form group (k.reset (groupLength g s)).1 (k.reset (groupLength g s)).2 t)
  /-- A classification is applied: its pass is told, and the corrections are queued. -/
  | passed {b s} {t : Told} (m : Classification) (force : Bool) (told : t.events = (s.passAt form m force).1.events)
    (accepted : ∀ x ∈ t, .classify ∉ x.2) :
    Turn form b s (s.resolvedAt form m force ++ t.moments .applying)
      (Deed.ofTold t ++ Deed.ofPass (s.passAt form m force).1) b
      { s with
        visibility := (s.passAt form m force).2
        queue := (t.queued s.queue).corrected (s.passAt form m force).1 }
  /-- A classification is asked for while a pass is being told: its fields are forgotten, and what was asked
      for with the same event is given up, as is the batch that is running. -/
  | refused {b s} {t : Told} {last : Event × List Request} {rest : List Event} (m : Classification) (force : Bool)
    (told : t.events ++ last.1 :: rest = (s.passAt form m force).1.events) (accepted : ∀ x ∈ t, .classify ∉ x.2)
    (recursion : .classify ∈ last.2) :
    Turn form b s (s.resolvedAt form m force ++ Told.moments (t ++ [last]) .applying)
      (Deed.ofTold (t ++ [last]) ++ (Told.edits [last] ++ Task.edits b).map .lost) []
      { s with
        visibility := (s.passAt form m force).2.forget ((s.passAt form m force).1.queue.map (·.field))
        queue := t.queued s.queue }
  /-- A task that classifies is begun. -/
  | began {b s} : Turn form (.classify :: b) s [] [] b s
  /-- A new list of hidden rows is started. -/
  | cleared {b s} : Turn form b s [] [.cleared] b { s with visibility := s.visibility.clearHidden }
  /-- A step is displayed in place of the one before. -/
  | displayed {b s} (step : String) (known : form.schema.hasStep step = true) :
    Turn form b s [] [] b (Session.display form step s)
  /-- Everything that waits becomes the running batch. -/
  | took {s batch queue} (taken : s.queue.takeBatch? = some (batch, queue)) :
    Turn form [] s [] [] batch.tasks { s with queue }
  /-- Everything that waits is dropped. -/
  | dropped {s batch queue} (taken : s.queue.takeBatch? = some (batch, queue)) :
    Turn form [] s [.dropped] ((Task.edits batch.tasks).map .lost) [] { s with queue := queue.clear }
  /-- The staged values are committed. -/
  | committed {b s} : Turn form b s [] [] b { s with store := s.store.commit.2 }

theorem Turn.length_hooks {form : Form} {b b' : List Task} {s s' : Session η} {ms : List Moment} {ds : List Deed}
    (h : Turn form b s ms ds b' s') : s'.store.hooks.length = s.store.hooks.length := by
  cases h with
  | unchanged c change => exact Store.length_hooks_change change
  | changed c change => exact Store.length_hooks_change change
  | seeded => rfl
  | entered => rfl
  | rebuilt => rfl
  | passed => rfl
  | refused => rfl
  | began => rfl
  | cleared => rfl
  | displayed => rfl
  | took => rfl
  | dropped => rfl
  | committed => rfl

/-- Turns one after the other. -/
inductive Turns (form : Form) :
    List Task → Session η → List Moment → List Deed → List Task → Session η → Prop
  | refl (b : List Task) (s : Session η) : Turns form b s [] [] b s
  | tail {b s ms ds b' s' ms' ds' b'' s''} : Turns form b s ms ds b' s' → Turn form b' s' ms' ds' b'' s'' →
    Turns form b s (ms ++ ms') (ds ++ ds') b'' s''

namespace Turns
variable {form : Form} {b b' b'' : List Task} {s s' s'' : Session η} {ms ms' : List Moment} {ds ds' : List Deed}

theorem single (h : Turn form b s ms ds b' s') : Turns form b s ms ds b' s' := .tail (.refl b s) h

theorem trans (h₁ : Turns form b s ms ds b' s') (h₂ : Turns form b' s' ms' ds' b'' s'') :
    Turns form b s (ms ++ ms') (ds ++ ds') b'' s'' := by
  induction h₂ with
  | refl => rwa [List.append_nil, List.append_nil]
  | tail _ h ih =>
    rw [← List.append_assoc, ← List.append_assoc]
    exact .tail ih h

/-- What every turn keeps of a session, of the trace so far and of the deeds so far, turns keep. -/
theorem keepDeeds {P : List Task → Session η → List Moment → List Deed → Prop}
    (step : ∀ {b s ms ds b' s'}, Turn form b s ms ds b' s' → ∀ trace deeds, P b s trace deeds →
      P b' s' (trace ++ ms) (deeds ++ ds))
    (h : Turns form b s ms ds b' s') (trace : List Moment) (deeds : List Deed) (hp : P b s trace deeds) :
    P b' s' (trace ++ ms) (deeds ++ ds) := by
  induction h with
  | refl => rwa [List.append_nil, List.append_nil]
  | tail _ ht ih =>
    rw [← List.append_assoc, ← List.append_assoc]
    exact step ht _ _ ih

/-- What every turn keeps, turns keep. -/
theorem keep {P : List Task → Session η → Prop}
    (step : ∀ {b s ms ds b' s'}, Turn form b s ms ds b' s' → P b s → P b' s') (h : Turns form b s ms ds b' s')
    (hp : P b s) : P b' s' :=
  h.keepDeeds (P := fun b s _ _ => P b s) (fun ht _ _ hp => step ht hp) [] [] hp

end Turns

/-! ### Actions go through turns -/

/-- The tasks of the running batch that are left when an action ends: a failure gives the batch up. -/
def leftOver {α : Type} (b : List Task) : Except SessionError α → List Task
  | .ok _ => b
  | .error _ => []

/-- A run ends as turns from another one lead, and `b'` is left of the batch if it ends well. Only an action
    that clears starts a new list of hidden rows. -/
def Reaches {σ α : Type} (form : Form) (clears : Bool) (b : List Task) (r : Run η σ)
    (p : Except SessionError α × Run η σ) (b' : List Task) : Prop :=
  ∃ ms ds, p.2.trace = r.trace ++ ms ∧ Turns form b r.session ms ds (leftOver b' p.1) p.2.session ∧
    (.cleared ∈ ds → clears = true)

section Reaches
variable {σ α β : Type} {form : Form} {clears : Bool} {b b' b'' : List Task} {r r₀ : Run η σ}

/-- What an action does after some turns comes after them. -/
theorem Reaches.after {r' : Run η σ} {p : Except SessionError α × Run η σ} {ms : List Moment} {ds : List Deed}
    (h : Reaches form clears b' r' p b'') (ht : Turns form b r.session ms ds b' r'.session)
    (htrace : r'.trace = r.trace ++ ms) (hds : .cleared ∈ ds → clears = true) : Reaches form clears b r p b'' := by
  obtain ⟨ms', ds', htrace', hturns, hds'⟩ := h
  refine ⟨ms ++ ms', ds ++ ds', by rw [htrace', htrace, List.append_assoc], ht.trans hturns, fun hmem => ?_⟩
  rcases List.mem_append.mp hmem with hmem | hmem
  · exact hds hmem
  · exact hds' hmem

theorem Reaches.of_turn {p : Except SessionError α × Run η σ} {ms : List Moment} {ds : List Deed}
    (htrace : p.2.trace = r.trace ++ ms) (ht : Turn form b r.session ms ds (leftOver b' p.1) p.2.session)
    (hds : .cleared ∈ ds → clears = true) : Reaches form clears b r p b' :=
  ⟨ms, ds, htrace, .single ht, hds⟩

namespace Action

theorem reaches_same (x : Except SessionError α) (h : leftOver b' x = b) : Reaches form clears b r (x, r) b' :=
  ⟨[], [], by simp, by rw [h]; exact .refl .., by simp⟩

theorem reaches_pure (x : α) : Reaches form clears b r ((pure x : Action η σ α).perform r) b :=
  reaches_same (.ok x) rfl

theorem reaches_bind {a : Action η σ α} {f : α → Action η σ β} (h : Reaches form clears b r₀ (a.perform r) b')
    (hf : ∀ x r', Reaches form clears b' r' ((f x).perform r') b'') :
    Reaches form clears b r₀ ((a >>= f).perform r) b'' := by
  rw [perform_bind]
  rcases hp : a.perform r with ⟨x | x, r'⟩
  · rw [hp] at h
    exact h
  · rw [hp] at h
    obtain ⟨ms, ds, htrace, hturns, hds⟩ := h
    exact (hf x r').after hturns htrace hds

/-- A reply is told after an action. -/
theorem reaches_return {a : Action η σ α} {f : α → β} (h : Reaches form clears b r₀ (a.perform r) b') :
    Reaches form clears b r₀ ((a >>= fun x => pure (f x)).perform r) b' :=
  reaches_bind h fun x _ => reaches_pure (f x)

omit [EditHook η] in
/-- Telling a reply changes nothing in the run. -/
theorem run_return (a : Action η σ α) (f : α → β) (r : Run η σ) :
    ((a >>= fun x => pure (f x)).perform r).2 = (a.perform r).2 := by
  rw [perform_bind]
  rcases a.perform r with ⟨x | x, r'⟩ <;> rfl

omit [EditHook η] in
theorem reply_return (a : Action η σ α) (f : α → β) (r : Run η σ) :
    ((a >>= fun x => pure (f x)).perform r).1 = (a.perform r).1.map f := by
  rw [perform_bind]
  rcases a.perform r with ⟨x | x, r'⟩ <;> rfl

omit [EditHook η] in
theorem perform_of_return {a : Action η σ α} {f : α → β} {r r' : Run η σ} {y : β}
    (h : (a >>= fun x => pure (f x)).perform r = (.ok y, r')) : ∃ x, f x = y ∧ a.perform r = (.ok x, r') := by
  rw [perform_bind] at h
  rcases hp : a.perform r with ⟨e | x, r''⟩
  · rw [hp] at h
    cases h
  · rw [hp] at h
    cases h
    exact ⟨x, rfl, rfl⟩

omit [EditHook η] in
/-- What holds where an action ends, and the actions after it keep, holds where they end. -/
theorem keep_bind {P : Run η σ → Prop} {a : Action η σ α} {f : α → Action η σ β} (ha : P (a.perform r).2)
    (hf : ∀ x r', P r' → P ((f x).perform r').2) : P ((a >>= f).perform r).2 := by
  rw [perform_bind]
  rcases hp : a.perform r with ⟨e | x, r'⟩
  · rw [hp] at ha
    exact ha
  · rw [hp] at ha
    exact hf x r' ha

/-- A look at the session goes before an action. -/
theorem reaches_session {f : Session η → Action η σ β} (h : Reaches form clears b r ((f r.session).perform r) b') :
    Reaches form clears b r ((session >>= f).perform r) b' := by
  rw [perform_bind, perform_session]
  exact h

theorem reaches_update {f : Session η → Session η} {ds : List Deed} (h : Turn form b r.session [] ds b' (f r.session))
    (hds : .cleared ∈ ds → clears = true) : Reaches form clears b r ((update f : Action η σ Unit).perform r) b' :=
  .of_turn (by simp) h hds

end Action

end Reaches

end FormSession
