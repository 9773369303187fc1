import FormSession.Proofs.ActionRules
import FormSession.Proofs.DeferredWork
import FormSession.Proofs.Display

/-! # Asking for a classification while an event is handled

A receiver may ask for a classification with every event. While a pass is told this is a recursion: the operation
fails at once, and fails in this way for no other reason. With a step of rows it is accepted, and then one
classification waits, however often it is asked for (`recursion_reported`). What waits at a moment in the middle of
an operation is not part of the trace; it is followed through the trace by what can become of the queue at each
moment and between two (`QueueCourse`). -/

namespace FormSession

/-! ### The queue in the course of a trace -/

/-- What becomes of the queue at a moment, or between two. -/
inductive QueueStep : TaskQueue Task → List Moment → TaskQueue Task → Prop
  /-- What is asked for with an event comes to wait. -/
  | accepted {q e phase asked} (calm : phase = .applying → .classify ∉ asked) :
    QueueStep q [.effect (.told e phase asked)] (q.accept asked)
  /-- A classification is asked for during a pass, and what is asked for with that is lost. -/
  | refused {q e asked} (recursion : .classify ∈ asked) : QueueStep q [.effect (.told e .applying asked)] q
  | published {q} (u : Update) : QueueStep q [.effect (.published u)] q
  | resolved {q} (field : String) (held : Nat) : QueueStep q [.resolved field held] q
  /-- The corrections of a pass come to wait. -/
  | corrected {q} (e : FormEdit) : QueueStep q [] (q.add (.write e))
  /-- Everything that waits becomes the running batch. -/
  | took {q batch left} (taken : q.takeBatch? = some (batch, left)) : QueueStep q [] left
  /-- Everything that waits is dropped. -/
  | dropped {q batch left} (taken : q.takeBatch? = some (batch, left)) : QueueStep q [.dropped] left.clear

/-- What becomes of the queue in the course of a trace. -/
inductive QueueCourse : TaskQueue Task → List Moment → TaskQueue Task → Prop
  | refl (q : TaskQueue Task) : QueueCourse q [] q
  | tail {q ms q' ms' q''} : QueueCourse q ms q' → QueueStep q' ms' q'' → QueueCourse q (ms ++ ms') q''

theorem QueueStep.atMostOne {q q' : TaskQueue Task} {ms : List Moment} (h : QueueStep q ms q') :
    ms = [] ∨ ∃ m, ms = [m] := by
  cases h with
  | corrected | took => exact Or.inl rfl
  | accepted | refused | published | resolved | dropped => exact Or.inr ⟨_, rfl⟩

namespace QueueCourse
variable {q q' q'' : TaskQueue Task} {ms ms' : List Moment}

theorem single (h : QueueStep q ms q') : QueueCourse q ms q' := .tail (.refl q) h

theorem trans (h : QueueCourse q ms q') (h' : QueueCourse q' ms' q'') : QueueCourse q (ms ++ ms') q'' := by
  induction h' with
  | refl => rwa [List.append_nil]
  | tail _ hstep ih =>
    rw [← List.append_assoc]
    exact .tail ih hstep

/-- A course of the queue through a moment comes to that moment and goes on from it. -/
theorem split {before after : List Moment} {m : Moment} (h : QueueCourse q (before ++ m :: after) q') :
    ∃ q₁ q₂, QueueCourse q before q₁ ∧ QueueStep q₁ [m] q₂ ∧ QueueCourse q₂ after q' := by
  generalize htrace : before ++ m :: after = trace at h
  induction h generalizing after with
  | refl => simp at htrace
  | @tail ms q₃ ms' q₄ hcourse hstep ih =>
    -- The last step adds nothing to the trace, or it adds the moment itself or a later one.
    rcases hstep.atMostOne with rfl | ⟨m', rfl⟩
    · rw [List.append_nil] at htrace
      obtain ⟨q₁, q₂, hbefore, hat, hafter⟩ := ih htrace
      exact ⟨q₁, q₂, hbefore, hat, List.append_nil after ▸ .tail hafter hstep⟩
    · rcases List.eq_nil_or_concat after with rfl | ⟨earlier, last, rfl⟩
      · obtain ⟨rfl, hm⟩ := List.append_inj' htrace rfl
        cases hm
        exact ⟨q₃, q₄, hcourse, hstep, .refl q₄⟩
      · rw [List.concat_eq_append, ← List.cons_append, ← List.append_assoc] at htrace
        obtain ⟨hms, hm⟩ := List.append_inj' htrace rfl
        cases hm
        obtain ⟨q₁, q₂, hbefore, hat, hafter⟩ := ih hms
        exact ⟨q₁, q₂, hbefore, hat, List.concat_eq_append .. ▸ .tail hafter hstep⟩

theorem told {t : Told} {phase : Phase} (h : phase = .applying → ∀ x ∈ t, .classify ∉ x.2) (q : TaskQueue Task) :
    QueueCourse q (t.moments phase) (t.queued q) := by
  induction t generalizing q with
  | nil => exact .refl q
  | cons x rest ih =>
    have hfirst : QueueStep q [.effect (.told x.1 phase x.2)] (q.accept x.2) :=
      .accepted fun hphase => h hphase x List.mem_cons_self
    exact (single hfirst).trans (ih (fun hphase y hy => h hphase y (List.mem_cons_of_mem _ hy)) (q.accept x.2))

theorem resolvedAt {η : Type} (form : Form) (s : Session η) (m : Classification) (force : Bool) (q : TaskQueue Task) :
    QueueCourse q (s.resolvedAt form m force) q := by
  rw [Session.resolvedAt]
  induction s.visibility.resolutions (s.passContext form) force m with
  | nil => exact .refl q
  | cons found rest ih => exact (single (.resolved found.field found.held)).trans ih

theorem corrected (q : TaskQueue Task) (p : Pass) : QueueCourse q [] (q.corrected p) := by
  rw [TaskQueue.corrected]
  split
  · exact .refl q
  · exact single (.corrected p.corrections)

end QueueCourse

section Turns
variable {η : Type} [EditHook η] {form : Form} {b b' : List Task} {s s' : Session η} {ms : List Moment} {ds : List Deed}

theorem Turn.queueCourse (h : Turn form b s ms ds b' s') : QueueCourse s.queue ms s'.queue := by
  have idle : ∀ t : Told, QueueCourse s.queue (t.moments .idle) (t.queued s.queue) := fun t =>
    .told (fun hphase => by cases hphase) s.queue
  cases h with
  | unchanged => exact .refl _
  | changed => exact (QueueCourse.single (.published _)).trans (idle _)
  | seeded => exact idle _
  | entered => exact idle _
  | rebuilt => exact idle _
  | @passed _ _ t m force told accepted =>
    have hpassed : QueueCourse s.queue (s.resolvedAt form m force ++ t.moments .applying) (t.queued s.queue) :=
      (QueueCourse.resolvedAt form s m force s.queue).trans (.told (fun _ => accepted) s.queue)
    have hcorrected := hpassed.trans (.corrected (t.queued s.queue) (s.passAt form m force).1)
    rwa [List.append_nil] at hcorrected
  | @refused _ _ t last rest m force told accepted recursion =>
    rw [Told.moments_append, ← List.append_assoc]
    have hpassed : QueueCourse s.queue (s.resolvedAt form m force ++ t.moments .applying) (t.queued s.queue) :=
      (QueueCourse.resolvedAt form s m force s.queue).trans (.told (fun _ => accepted) s.queue)
    exact .tail hpassed (.refused recursion)
  | began => exact .refl _
  | cleared => exact .refl _
  | displayed => exact .refl _
  | took taken => exact .single (.took taken)
  | dropped taken => exact .single (.dropped taken)
  | committed => exact .refl _

theorem Turns.queueCourse (h : Turns form b s ms ds b' s') : QueueCourse s.queue ms s'.queue := by
  induction h with
  | refl => exact .refl _
  | tail _ ht ih => exact ih.trans ht.queueCourse

/-- The queue of a session follows the trace of each operation. -/
theorem Operation.queueCourse {σ : Type} [Sink σ] (form : Form) (op : Operation) (s : Session η) (sink : σ) :
    QueueCourse s.queue (op.perform form s sink).2.trace (op.perform form s sink).2.session.queue := by
  obtain ⟨ds, hturns, -⟩ := op.turns form s sink
  exact hturns.queueCourse

end Turns

/-! ### One classification waits -/

namespace TaskQueue

/-- The number of classifications that wait. -/
def classifications (q : TaskQueue Task) : Nat := (q.waiting.map (·.task)).count .classify

/-- At most one classification waits, and it is the task with the key. -/
structure ClassifiesOnce (q : TaskQueue Task) : Prop where
  keyed : ∀ x ∈ q.waiting, x.key = some Task.classifyKey ↔ x.task = .classify
  once : q.classifications ≤ 1

variable {q : TaskQueue Task}

theorem classifiesOnce_of_idle (h : q.waiting = []) : q.ClassifiesOnce where
  keyed := by simp [h]
  once := by simp [classifications, h]

theorem ClassifiesOnce.add (h : q.ClassifiesOnce) (e : FormEdit) : (q.add (.write e)).ClassifiesOnce where
  keyed x hx := by
    rcases List.mem_append.mp hx with hx | hx
    · exact h.keyed x hx
    · rw [List.mem_singleton.mp hx]
      simp
  once := by
    have hsame : (q.add (.write e)).classifications = q.classifications := by simp [classifications, TaskQueue.add]
    exact hsame ▸ h.once

theorem replaceKeyed_same {key : String} {task : Task} {entries : List (QueueEntry Task)}
    (h : ∀ x ∈ entries, x.key = some key → x.task = task) : replaceKeyed key task entries = entries := by
  induction entries with
  | nil => rfl
  | cons x rest ih =>
    obtain ⟨hx, hrest⟩ := List.forall_mem_cons.mp h
    rw [replaceKeyed, ih hrest]
    split
    · rename_i hkey
      rw [← hx hkey]
    · rfl

theorem ClassifiesOnce.addKeyed (h : q.ClassifiesOnce) :
    (q.addKeyed Task.classifyKey .classify).ClassifiesOnce ∧
      (q.addKeyed Task.classifyKey .classify).classifications = 1 := by
  have hkeys : q.holdsKey Task.classifyKey = true ↔ .classify ∈ q.waiting.map (·.task) := by
    simp only [holdsKey, List.any_eq_true, beq_iff_eq, List.mem_map]
    exact exists_congr fun x => and_congr_right fun hx => h.keyed x hx
  rw [TaskQueue.addKeyed]
  split
  · rename_i hwaits
    -- The one that waits is put in its own place.
    rw [replaceKeyed_same fun x hx => (h.keyed x hx).mp]
    have hsome : 0 < q.classifications := List.count_pos_iff.mpr (hkeys.mp hwaits)
    exact ⟨h, Nat.le_antisymm h.once hsome⟩
  · rename_i hfree
    have hnone : (q.waiting.map (·.task)).count .classify = 0 := List.count_eq_zero.mpr (hfree ∘ hkeys.mpr)
    have hone : classifications { q with waiting := q.waiting ++ [⟨some Task.classifyKey, .classify⟩] } = 1 := by
      simp [classifications, hnone]
    refine ⟨⟨fun x hx => ?_, Nat.le_of_eq hone⟩, hone⟩
    rcases List.mem_append.mp hx with hx | hx
    · exact h.keyed x hx
    · rw [List.mem_singleton.mp hx]
      simp

/-- However often a classification is asked for with an event, it waits once. -/
theorem ClassifiesOnce.accept (h : q.ClassifiesOnce) (asked : List Request) :
    (q.accept asked).ClassifiesOnce ∧ (.classify ∈ asked → (q.accept asked).classifications = 1) := by
  have hwrites : ∀ es : List FormEdit, (es.foldl (fun q e => q.add (.write e)) q).ClassifiesOnce := fun es =>
    List.foldlRecOn es _ (motive := ClassifiesOnce) h fun _ hq e _ => hq.add e
  have hadded := (hwrites (asked.filterMap Request.edit?)).addKeyed
  rw [TaskQueue.accept]
  split
  · exact ⟨hadded.1, fun _ => hadded.2⟩
  · rename_i hnone
    exact ⟨hwrites _, fun hasked => absurd hasked hnone⟩

end TaskQueue

theorem QueueCourse.classifiesOnce {q q' : TaskQueue Task} {ms : List Moment} (h : QueueCourse q ms q')
    (hq : q.ClassifiesOnce) : q'.ClassifiesOnce := by
  induction h with
  | refl => exact hq
  | tail _ hstep ih =>
    have idle : ∀ {q batch left}, TaskQueue.takeBatch? (α := Task) q = some (batch, left) → left.waiting = [] := by
      intro q batch left htaken
      rw [TaskQueue.takeBatch?] at htaken
      split at htaken
      · cases htaken
      · cases htaken
        rfl
    cases hstep with
    | accepted => exact (ih.accept _).1
    | refused => exact ih
    | published => exact ih
    | resolved => exact ih
    | corrected e => exact ih.add e
    | took taken => exact TaskQueue.classifiesOnce_of_idle (idle taken)
    | dropped => exact TaskQueue.classifiesOnce_of_idle rfl

theorem History.classifiesOnce {η : Type} [EditHook η] {form : Form} {store : Store η} {trace : List Moment}
    {s : Session η} (h : History form (.new form store) trace s) : s.queue.ClassifiesOnce :=
  h.keep (P := fun _ s _ => s.queue.ClassifiesOnce) (fun ht _ hs => ht.queueCourse.classifiesOnce hs)
    (fun _ hs => hs) (TaskQueue.classifiesOnce_of_idle rfl)

/-! ### Recursion -/

/-- A classification is asked for while a pass is told. -/
def Moment.recurses : Moment → Bool
  | .effect (.told _ .applying asked) => decide (.classify ∈ asked)
  | _ => false

theorem Moment.recurses_iff {m : Moment} :
    m.recurses = true ↔ ∃ e asked, m = .effect (.told e .applying asked) ∧ .classify ∈ asked := by
  constructor
  · intro h
    match m, h with
    | .effect (.told e .applying asked), h => exact ⟨e, asked, rfl, of_decide_eq_true h⟩
  · rintro ⟨e, asked, rfl, hasked⟩
    exact decide_eq_true hasked

section Rule
variable {η σ : Type} [EditHook η] [Sink σ] {form : Form}

/-- Nothing happens after a moment that recurses, and it is such a moment exactly if the run ends with that error. -/
def StopsAtRecursion (r : Run η σ) (e : Option SessionError) (r' : Run η σ) : Prop :=
  ∃ ms, r'.trace = r.trace ++ ms ∧
    ((e ≠ some .classificationRecursion ∧ ∀ m ∈ ms, m.recurses = false) ∨
      (e = some .classificationRecursion ∧
        ∃ before last, ms = before ++ [last] ∧ last.recurses = true ∧ ∀ m ∈ before, m.recurses = false))

omit [EditHook η] [Sink σ] in
theorem stopsAtRecursion_of_calm {r r' : Run η σ} {e : Option SessionError} {ms : List Moment}
    (htrace : r'.trace = r.trace ++ ms) (he : e ≠ some .classificationRecursion) (hms : ∀ m ∈ ms, m.recurses = false) :
    StopsAtRecursion r e r' :=
  ⟨ms, htrace, Or.inl ⟨he, hms⟩⟩

omit [EditHook η] in
/-- The moments of a pass before the receiver asks for a classification. -/
theorem recurses_passed {s : Session η} {m : Classification} {force : Bool} {t : Told} (h : ∀ x ∈ t, .classify ∉ x.2) :
    ∀ k ∈ s.resolvedAt form m force ++ t.moments .applying, k.recurses = false := by
  refine List.forall_mem_append.mpr ⟨Session.forall_resolvedAt fun _ _ => rfl, ?_⟩
  intro k hk
  obtain ⟨x, hx, rfl⟩ := List.mem_map.mp hk
  exact decide_eq_false (h x hx)

theorem rule_stopsAtRecursion (form : Form) :
    ActionRule form (StopsAtRecursion : Run η σ → Option SessionError → Run η σ → Prop) where
  still r := stopsAtRecursion_of_calm (List.append_nil _).symm (by simp) (by simp)
  trans := by
    rintro r r' r'' e ⟨ms, htrace, hfirst⟩ ⟨ms', htrace', hsecond⟩
    -- The first part did not fail, or there would be no second one.
    have calm : ∀ m ∈ ms, m.recurses = false := by
      rcases hfirst with ⟨-, hms⟩ | ⟨he, -⟩
      · exact hms
      · cases he
    refine ⟨ms ++ ms', by rw [htrace', htrace, List.append_assoc], ?_⟩
    rcases hsecond with ⟨he, hms'⟩ | ⟨he, before, last, rfl, hlast, hbefore⟩
    · exact Or.inl ⟨he, List.forall_mem_append.mpr ⟨calm, hms'⟩⟩
    · refine Or.inr ⟨he, ms ++ before, last, (List.append_assoc ..).symm, hlast, ?_⟩
      exact List.forall_mem_append.mpr ⟨calm, hbefore⟩
  noStep r step := stopsAtRecursion_of_calm (List.append_nil _).symm (by simp) (by simp)
  noGroup r group := stopsAtRecursion_of_calm (List.append_nil _).symm (by simp) (by simp)
  told r s t sink _ := stopsAtRecursion_of_calm rfl (by simp) (Told.forall_moments fun _ _ => rfl)
  changed c r := by
    refine stopsAtRecursion_of_calm rfl (by simp [failure?, Action.perform_changeStore]) fun m hm => ?_
    obtain ⟨u, -, rfl⟩ := Option.map_eq_some_iff.mp (Option.mem_toList.mp hm)
    rfl
  applied m force r := by
    rcases Action.perform_apply m force r with
      ⟨t, sink, -, hnone, hrun⟩ | ⟨t, last, sink, rest, -, hnone, hlast, hrun⟩
    · rw [hrun]
      exact stopsAtRecursion_of_calm rfl (by simp [failure?]) (recurses_passed hnone)
    · rw [hrun]
      refine ⟨_, rfl, Or.inr ⟨rfl, r.session.resolvedAt form m force ++ t.moments .applying,
        .effect (.told last.1 .applying last.2), ?_, decide_eq_true hlast, recurses_passed hnone⟩⟩
      rw [Told.moments_append, List.append_assoc]
      rfl
  dropped r queue batches := stopsAtRecursion_of_calm rfl (by simp) (by simp [Moment.recurses])

end Rule

/-! ### Events of a pass and events of rows -/

/-- The event tells what to show or to hide, or that a field has settled. -/
def Event.ofPass : Event → Bool
  | .rows .. => false
  | _ => true

section Phases
variable {η : Type} [EditHook η] {form : Form} {b b' : List Task} {s s' : Session η} {ms : List Moment} {ds : List Deed}
  {e : Event} {phase : Phase} {asked : List Request}

theorem ofPass_rowEvents {moves : List (String × List RowOp)} (h : e ∈ rowEvents moves) : e.ofPass = false := by
  obtain ⟨move, -, he⟩ := List.mem_flatMap.mp h
  obtain ⟨op, -, rfl⟩ := List.mem_map.mp he
  rfl

theorem ofPass_events {p : Pass} (h : e ∈ p.events) : e.ofPass = true := by
  obtain ⟨field, -, ⟨rows, rfl⟩ | ⟨rows, rfl⟩ | rfl⟩ := Display.field_of_pass_event h <;> rfl

/-- Events of a pass are told while it is applied, and events of rows are not. -/
def Phased (trace : List Moment) : Prop :=
  ∀ e phase asked, .effect (.told e phase asked) ∈ trace → phase = if e.ofPass then .applying else .idle

theorem Phased.append {trace ms : List Moment} (h : Phased trace) (hms : Phased ms) : Phased (trace ++ ms) :=
  fun e phase asked hm => (List.mem_append.mp hm).elim (h e phase asked) (hms e phase asked)

theorem phased_of_silent (h : ms.filterMap Moment.event? = []) : Phased ms := fun e phase asked hm => by
  have htold : e ∈ ms.filterMap Moment.event? := List.mem_filterMap.mpr ⟨_, hm, rfl⟩
  rw [h] at htold
  cases htold

theorem phased_moments {t : Told} (h : ∀ e ∈ t.events, phase = if e.ofPass then .applying else .idle) :
    Phased (t.moments phase) := by
  intro e phase asked hm
  obtain ⟨x, hx, heq⟩ := List.mem_map.mp hm
  cases heq
  exact h x.1 (List.mem_map_of_mem hx)

theorem phased_rows {t : Told} {moves : List (String × List RowOp)} (told : t.events = rowEvents moves) :
    Phased (t.moments .idle) := by
  refine phased_moments fun e he => ?_
  rw [ofPass_rowEvents (told ▸ he)]
  rfl

theorem phased_pass {t : Told} {p : Pass} (told : ∀ e ∈ t.events, e ∈ p.events) : Phased (t.moments .applying) := by
  refine phased_moments fun e he => ?_
  rw [ofPass_events (told e he)]
  rfl

theorem Turn.phased (h : Turn form b s ms ds b' s') : Phased ms := by
  have resolved : ∀ m force, Phased (s.resolvedAt form m force) := fun m force =>
    phased_of_silent (Session.events_resolvedAt form s m force)
  cases h with
  | unchanged => exact phased_of_silent rfl
  | @changed _ _ _ _ u _ t c change serves told =>
    have hpublished : Phased [.effect (.published u)] := phased_of_silent rfl
    exact hpublished.append (phased_rows told)
  | seeded told => exact phased_rows told
  | entered cache onStep tracker told => exact phased_rows (told.trans (rowEvents_singleton ..).symm)
  | rebuilt found tracker told => exact phased_rows (told.trans (rowEvents_singleton ..).symm)
  | passed m force told => exact (resolved m force).append (phased_pass fun e he => told ▸ he)
  | @refused _ _ t last rest m force told =>
    exact (resolved m force).append (phased_pass fun e he => Told.mem_events_of_refused told he)
  | began => exact phased_of_silent rfl
  | cleared => exact phased_of_silent rfl
  | displayed => exact phased_of_silent rfl
  | took => exact phased_of_silent rfl
  | dropped => exact phased_of_silent rfl
  | committed => exact phased_of_silent rfl

theorem Turns.phased (h : Turns form b s ms ds b' s') : Phased ms :=
  h.keepDeeds (P := fun _ _ trace _ => Phased trace) (fun ht _ _ hp => hp.append ht.phased) [] []
    (phased_of_silent rfl)

end Phases

/-! ### Operations -/

section Operations
variable {η σ : Type} [EditHook η] [Sink σ] {form : Form} {s : Session η}

theorem Operation.phased (form : Form) (op : Operation) (s : Session η) (sink : σ) :
    Phased (op.perform form s sink).2.trace := by
  obtain ⟨ds, hturns, -⟩ := op.turns form s sink
  exact hturns.phased

/-- What is told of an operation: a moment that recurses is its last one, and there is one exactly if it fails so. -/
theorem Operation.stopsAtRecursion (form : Form) (op : Operation) (s : Session η) (sink : σ) :
    (((op.perform form s sink).1 = .error .classificationRecursion ↔
        ∃ m ∈ (op.perform form s sink).2.trace, m.recurses = true)) ∧
      ∀ before m after, (op.perform form s sink).2.trace = before ++ m :: after → m.recurses = true → after = [] := by
  have hstops : StopsAtRecursion ⟨s, sink, []⟩ (failure? (op.perform form s sink).1) (op.perform form s sink).2 :=
    op.follows (rule_stopsAtRecursion form)
      (fun _ r => stopsAtRecursion_of_calm (List.append_nil _).symm (by simp) (by simp)) s sink
  have hfailure : failure? (op.perform form s sink).1 = some .classificationRecursion ↔
      (op.perform form s sink).1 = .error .classificationRecursion := by
    cases (op.perform form s sink).1 <;> simp [failure?]
  obtain ⟨ms, htrace, hends⟩ := hstops
  rw [List.nil_append] at htrace
  rw [htrace, ← hfailure]
  rcases hends with ⟨hother, hcalm⟩ | ⟨hrecursion, early, last, rfl, hlast, hearly⟩
  · refine ⟨⟨fun h => absurd h hother, fun ⟨m, hm, hrecurses⟩ => ?_⟩, fun before m after hsplit hrecurses => ?_⟩
    · rw [hcalm m hm] at hrecurses
      cases hrecurses
    · rw [hcalm m (hsplit ▸ by simp)] at hrecurses
      cases hrecurses
  · refine ⟨⟨fun _ => ⟨last, by simp, hlast⟩, fun _ => hrecursion⟩, fun before m after hsplit hrecurses => ?_⟩
    rcases List.eq_nil_or_concat after with rfl | ⟨left, final, rfl⟩
    · rfl
    · -- A moment before the last one does not recurse.
      rw [List.concat_eq_append, ← List.cons_append, ← List.append_assoc] at hsplit
      obtain ⟨rfl, -⟩ := List.append_inj' hsplit rfl
      rw [hearly m (by simp)] at hrecurses
      cases hrecurses

/-- An operation fails with a recursion exactly if a classification is asked for with an event that tells what to
    show or to hide or that a field has settled, and nothing happens after that event. With a step of rows it is
    accepted and does not fail, and whatever became of the queue before, one classification waits right after it. -/
theorem recursion_reported {store : Store η} {trace : List Moment} (h : History form (.new form store) trace s)
    (op : Operation) (sink : σ) :
    ((op.perform form s sink).1 = .error .classificationRecursion ↔
        ∃ e phase asked, .effect (.told e phase asked) ∈ (op.perform form s sink).2.trace ∧ e.ofPass = true ∧
          .classify ∈ asked) ∧
      (∀ before e phase asked after,
        (op.perform form s sink).2.trace = before ++ .effect (.told e phase asked) :: after → e.ofPass = true →
          .classify ∈ asked → after = []) ∧
      ∀ before group rowOp phase asked after,
        (op.perform form s sink).2.trace = before ++ .effect (.told (.rows group rowOp) phase asked) :: after →
          .classify ∈ asked →
            (∀ r : Run η σ, ∃ given left, (Action.tell (.rows group rowOp) phase).perform r =
              (.ok (), r.afterTold phase [(.rows group rowOp, given)] left)) ∧
            (∃ q, QueueCourse s.queue before q ∧
              QueueCourse (q.accept asked) after (op.perform form s sink).2.session.queue) ∧
            ∀ q, QueueCourse s.queue before q → (q.accept asked).classifications = 1 := by
  obtain ⟨hfails, hlast⟩ := op.stopsAtRecursion form s sink
  have hphased := op.phased form s sink
  -- A moment recurses exactly if the event it tells is one of a pass.
  have hrecurses : ∀ {e phase asked}, .effect (.told e phase asked) ∈ (op.perform form s sink).2.trace →
      e.ofPass = true → .classify ∈ asked → Moment.recurses (.effect (.told e phase asked)) = true := by
    intro e phase asked hm he hasked
    have hphase := hphased e phase asked hm
    rw [he, if_pos rfl] at hphase
    subst hphase
    exact decide_eq_true hasked
  refine ⟨hfails.trans ⟨?_, ?_⟩, ?_, ?_⟩
  · rintro ⟨m, hm, hrec⟩
    obtain ⟨e, asked, rfl, hasked⟩ := Moment.recurses_iff.mp hrec
    have hphase := hphased e .applying asked hm
    refine ⟨e, .applying, asked, hm, ?_, hasked⟩
    by_contra hrows
    rw [if_neg hrows] at hphase
    cases hphase
  · rintro ⟨e, phase, asked, hm, he, hasked⟩
    exact ⟨_, hm, hrecurses hm he hasked⟩
  · intro before e phase asked after hsplit he hasked
    exact hlast before _ after hsplit (hrecurses (hsplit ▸ by simp) he hasked)
  · intro before group rowOp phase asked after hsplit hasked
    -- Steps of rows are told while no pass is applied, so nothing is refused there.
    have hphase : phase = .idle := hphased (.rows group rowOp) phase asked (hsplit ▸ by simp)
    subst hphase
    refine ⟨Action.perform_tell_idle _, ?_, fun q hq => ((hq.classifiesOnce h.classifiesOnce).accept asked).2 hasked⟩
    have hcourse := op.queueCourse form s sink
    rw [hsplit] at hcourse
    obtain ⟨q, q', hbefore, hstep, hafter⟩ := hcourse.split
    cases hstep
    exact ⟨q, hbefore, hafter⟩

/-! ### A receiver that asks with a step of rows -/

/-- The start of a session with two rows; the receiver asks twice for a classification with the first of them. -/
def vehicleAsked : Except SessionError Reply × Run Empty ScriptedSink :=
  Operation.start.perform vehicleForm (.new vehicleForm vehicleStore) ⟨[[.classify, .classify]]⟩

/-- A classification asked for with the first row is accepted and waits once, and one asked for while a field is
    shown makes the flush fail. -/
theorem recursion_reported_vehicleAsked :
    (∃ q, QueueCourse .empty [] q ∧ QueueCourse (q.accept [.classify, .classify]) vehicleAsked.2.trace.tail
        vehicleAsked.2.session.queue ∧ (q.accept [.classify, .classify]).classifications = 1) ∧
      relayFlushed.1 = .error .classificationRecursion := by
  have relay : History relayForm (.new relayForm relayStore) ([] ++ relayStarted.2.trace) relayStarted.2.session := by
    unfold relayStarted
    exact .call _ _ .begin
  constructor
  · have hsplit : vehicleAsked.2.trace =
        [] ++ .effect (.told (.rows "vehicle_rows" (.add 0)) .idle [.classify, .classify]) ::
          vehicleAsked.2.trace.tail := by
      decide +kernel
    have begun : History vehicleForm (.new vehicleForm vehicleStore) [] (.new vehicleForm vehicleStore) := .begin
    obtain ⟨-, -, hrows⟩ := recursion_reported begun .start (ScriptedSink.mk [[.classify, .classify]])
    rw [← vehicleAsked] at hrows
    obtain ⟨-, ⟨q, hbefore, hafter⟩, hone⟩ := hrows _ _ _ _ _ _ hsplit (by decide)
    exact ⟨q, hbefore, hafter, hone q hbefore⟩
  · obtain ⟨hiff, -⟩ := recursion_reported relay .flush (ScriptedSink.mk [[.classify]])
    exact hiff.mpr ⟨.shown "y" [0], .applying, [.classify], by decide +kernel, rfl, by decide⟩

end Operations

end FormSession
