import FormSession.Proofs.DisplayedStep
import FormSession.Proofs.Recursion

/-! # When what waits is written

A pass changes no value: its corrections come to wait after all that was asked for while it was told
(`PutOff`). What waits keeps its place until a batch is taken, whatever else is done with the session
(`Stretch.keepsPlaces`). A batch is everything that waits when it is taken, and while it runs the values change by its
own edits only (`RunsBatches`). Batches are taken by a flush and a save alone, and whatever else an operation writes
is written before its first pass (`OwnChange`). -/

namespace FormSession
open FormSession.Action (followEdit seed)

/-! ### Moments -/

namespace Moment

/-- An update is published. -/
def publishes : Moment → Bool
  | effect (.published _) => true
  | _ => false

/-- An event is told while a pass is applied. -/
def applies : Moment → Bool
  | effect (.told _ .applying _) => true
  | _ => false

/-- A pass resolves a field. -/
def resolves : Moment → Bool
  | resolved .. => true
  | _ => false

/-- A moment outside of every pass. -/
def Outside (m : Moment) : Prop := m.applies = false ∧ m.resolves = false

end Moment

/-! ### What waits keeps its place -/

namespace TaskQueue
variable {q q' q'' : TaskQueue Task}

@[simp] theorem batchesTaken_addKeyed (q : TaskQueue Task) (key : String) (task : Task) :
    (q.addKeyed key task).batchesTaken = q.batchesTaken := by
  unfold addKeyed
  split <;> rfl

theorem batchesTaken_addAll (es : List FormEdit) (q : TaskQueue Task) :
    (es.foldl (fun q e => q.add (.write e)) q).batchesTaken = q.batchesTaken := by
  induction es generalizing q with
  | nil => rfl
  | cons e rest ih => exact ih _

@[simp] theorem batchesTaken_accept (q : TaskQueue Task) (asked : List Request) :
    (q.accept asked).batchesTaken = q.batchesTaken := by
  unfold accept
  split
  · rw [batchesTaken_addKeyed, batchesTaken_addAll]
  · exact batchesTaken_addAll _ q

@[simp] theorem batchesTaken_queued (t : Told) (q : TaskQueue Task) : (t.queued q).batchesTaken = q.batchesTaken := by
  induction t generalizing q with
  | nil => rfl
  | cons x rest ih => exact (ih _).trans (batchesTaken_accept q x.2)

@[simp] theorem batchesTaken_corrected (q : TaskQueue Task) (p : Pass) :
    (q.corrected p).batchesTaken = q.batchesTaken := by
  unfold corrected
  split <;> rfl

theorem batchesTaken_taken {batch : Batch Task} (h : q.takeBatch? = some (batch, q')) :
    q'.batchesTaken = q.batchesTaken + 1 := by
  unfold takeBatch? at h
  split at h
  · cases h
  · cases h
    rfl

/-- What waits in a queue waits at the same place in a later one, unless a batch was taken in between. -/
structure KeepsPlaces (q q' : TaskQueue Task) : Prop where
  batches : q.batchesTaken ≤ q'.batchesTaken
  waits : q'.batchesTaken = q.batchesTaken → q.waiting <+: q'.waiting

theorem KeepsPlaces.refl (q : TaskQueue Task) : q.KeepsPlaces q := ⟨Nat.le_refl _, fun _ => List.prefix_rfl⟩

theorem KeepsPlaces.trans (h : q.KeepsPlaces q') (h' : q'.KeepsPlaces q'') : q.KeepsPlaces q'' where
  batches := Nat.le_trans h.batches h'.batches
  waits same := by
    have hfirst : q'.batchesTaken = q.batchesTaken := by
      have hle := h'.batches
      have hge := h.batches
      omega
    exact (h.waits hfirst).trans (h'.waits (same.trans hfirst.symm))

theorem keepsPlaces_add (q : TaskQueue Task) (task : Task) : q.KeepsPlaces (q.add task) :=
  ⟨Nat.le_refl _, fun _ => List.prefix_append ..⟩

/-- One classification may wait already: another one changes nothing then. -/
theorem ClassifiesOnce.keepsPlaces (h : q.ClassifiesOnce) : q.KeepsPlaces (q.addKeyed Task.classifyKey .classify) := by
  rw [TaskQueue.addKeyed]
  split
  · rw [replaceKeyed_same fun x hx => (h.keyed x hx).mp]
    exact .refl q
  · exact ⟨Nat.le_refl _, fun _ => List.prefix_append ..⟩

theorem ClassifiesOnce.addAll (h : q.ClassifiesOnce) (es : List FormEdit) :
    (es.foldl (fun q e => q.add (.write e)) q).ClassifiesOnce ∧
      q.KeepsPlaces (es.foldl (fun q e => q.add (.write e)) q) := by
  induction es generalizing q with
  | nil => exact ⟨h, .refl q⟩
  | cons e rest ih =>
    obtain ⟨honce, hkeeps⟩ := ih (h.add e)
    exact ⟨honce, (keepsPlaces_add q _).trans hkeeps⟩

theorem ClassifiesOnce.keepsPlaces_accept (h : q.ClassifiesOnce) (asked : List Request) :
    q.KeepsPlaces (q.accept asked) := by
  obtain ⟨honce, hkeeps⟩ := h.addAll (asked.filterMap Request.edit?)
  rw [TaskQueue.accept]
  split
  · exact hkeeps.trans honce.keepsPlaces
  · exact hkeeps

end TaskQueue

theorem QueueStep.keepsPlaces {q q' : TaskQueue Task} {ms : List Moment} (h : QueueStep q ms q')
    (hq : q.ClassifiesOnce) : q.KeepsPlaces q' := by
  -- Once a batch is taken there is nothing left to show.
  have later : ∀ {left : TaskQueue Task}, left.batchesTaken = q.batchesTaken + 1 → q.KeepsPlaces left := by
    intro left hcount
    exact ⟨by omega, fun hsame => by omega⟩
  cases h with
  | accepted => exact hq.keepsPlaces_accept _
  | refused => exact .refl q
  | published => exact .refl q
  | resolved => exact .refl q
  | corrected e => exact TaskQueue.keepsPlaces_add q _
  | took taken => exact later (TaskQueue.batchesTaken_taken taken)
  | dropped taken =>
    have hcount := TaskQueue.batchesTaken_taken taken
    exact later hcount

theorem QueueCourse.keepsPlaces {q q' : TaskQueue Task} {ms : List Moment} (h : QueueCourse q ms q')
    (hq : q.ClassifiesOnce) : q.KeepsPlaces q' := by
  induction h with
  | refl => exact .refl q
  | tail hcourse hstep ih => exact ih.trans (hstep.keepsPlaces (hcourse.classifiesOnce hq))

/-! ### Stretches of a history -/

/-- A stretch of what a host did with a session, from the middle of an operation perhaps: the turns of operations, with
    hooks and subscriptions in between. -/
inductive Stretch {η : Type} [EditHook η] (form : Form) :
    List Task → Session η → List Moment → List Task → Session η → Prop
  | refl (b : List Task) (s : Session η) : Stretch form b s [] b s
  | turn {b s ms b' s' ms' ds b'' s''} : Stretch form b s ms b' s' → Turn form b' s' ms' ds b'' s'' →
    Stretch form b s (ms ++ ms') b'' s''
  | attach {b s ms s' store} : Stretch form b s ms [] s' → s'.store.Attaches store →
    Stretch form b s ms [] { s' with store }

section Stretches
variable {η : Type} [EditHook η] {form : Form} {b b' b'' : List Task} {s s' s'' : Session η} {ms ms' : List Moment}

theorem Stretch.turns {ds : List Deed} (h : Stretch form b s ms b' s') (ht : Turns form b' s' ms' ds b'' s'') :
    Stretch form b s (ms ++ ms') b'' s'' := by
  induction ht with
  | refl =>
    rw [List.append_nil]
    exact h
  | tail _ hturn ih =>
    rw [← List.append_assoc]
    exact .turn ih hturn

/-- Every history is a stretch. -/
theorem History.stretch {s₀ : Session η} {trace : List Moment} (h : History form s₀ trace s) :
    Stretch form [] s₀ trace [] s := by
  induction h with
  | begin => exact .refl [] s₀
  | @call _ s _ _ op sink _ ih =>
    obtain ⟨ds, hturns, -⟩ := op.turns form s sink
    exact ih.turns hturns
  | attach _ hstore ih => exact .attach ih hstore

/-- What every turn keeps, and a host cannot disturb between operations, a stretch keeps. -/
theorem Stretch.keep {P : Session η → List Moment → Prop}
    (turn : ∀ {b s ms ds b' s'}, Turn form b s ms ds b' s' → ∀ trace, P s trace → P s' (trace ++ ms))
    (attach : ∀ {s : Session η} {trace store}, s.store.Attaches store → P s trace → P { s with store } trace)
    (h : Stretch form b s ms b' s') (begin : P s []) : P s' ms := by
  induction h with
  | refl => exact begin
  | turn _ ht ih => exact turn ht _ ih
  | attach _ hstore ih => exact attach hstore ih

theorem Stretch.classifiesOnce (h : Stretch form b s ms b' s') (hq : s.queue.ClassifiesOnce) :
    s'.queue.ClassifiesOnce :=
  h.keep (P := fun s _ => s.queue.ClassifiesOnce) (fun ht _ hs => ht.queueCourse.classifiesOnce hs) (fun _ hs => hs) hq

theorem Turn.keysClassify {ds : List Deed} (h : Turn form b s ms ds b' s') (hq : s.queue.KeysClassify) :
    s'.queue.KeysClassify := by
  have waiting : Accounted ([] ++ (Task.edits b ++ s.queue.edits).map .asked) ([] ++ (Task.edits b ++ s.queue.edits)) :=
    Accounted.hand ⟨.refl _, .refl _⟩ _ (Or.inl rfl)
  exact (h.deferred ⟨hq, waiting⟩).keys

theorem Stretch.keysClassify (h : Stretch form b s ms b' s') (hq : s.queue.KeysClassify) : s'.queue.KeysClassify :=
  h.keep (P := fun s _ => s.queue.KeysClassify) (fun ht _ hs => ht.keysClassify hs) (fun _ hs => hs) hq

theorem Stretch.keepsPlaces (h : Stretch form b s ms b' s') (hq : s.queue.ClassifiesOnce) :
    s.queue.KeepsPlaces s'.queue := by
  induction h with
  | refl => exact .refl _
  | turn hbefore ht ih => exact ih.trans (ht.queueCourse.keepsPlaces (hbefore.classifiesOnce hq))
  | attach _ _ ih => exact ih

end Stretches

/-! ### A pass -/

/-- The edits that a pass hands over at its end. -/
def Pass.handedOver (p : Pass) : List FormEdit := if p.corrections.isEmpty then [] else [p.corrections]

theorem TaskQueue.edits_corrected (q : TaskQueue Task) (p : Pass) : (q.corrected p).edits = q.edits ++ p.handedOver := by
  rw [corrected, Pass.handedOver]
  split
  · exact (List.append_nil _).symm
  · exact q.edits_add _

section Passes
variable {η σ : Type} [Sink σ] {form : Form}

/-- While events are told no value changes. -/
theorem Action.store_tellAll (events : List Event) (r : Run η σ) :
    ((tellAll .applying events).perform r).2.session.store = r.session.store := by
  rcases perform_tellAll events r with ⟨t, sink, -, -, hrun⟩ | ⟨t, last, sink, rest, -, -, -, hrun⟩
  · rw [hrun]
    rfl
  · rw [hrun]
    rfl

/-- What becomes of a pass when it is told: no value changes and no batch is taken. If it is told to its end, its
    corrections come to wait after all that was asked for with its events. If it is refused, they do not. -/
structure PutOff (s : Session η) (pass : Pass) (p : Except SessionError Unit × Run η σ) : Prop where
  store : p.2.session.store = s.store
  batches : p.2.session.queue.batchesTaken = s.queue.batchesTaken
  corrected : p.1 = .ok () →
    p.2.session.queue.edits = s.queue.edits ++ p.2.trace.flatMap Moment.edits ++ pass.handedOver
  refused : ∀ e, p.1 = .error e → e = .classificationRecursion ∧
    ∃ asked, asked <+: p.2.trace.flatMap Moment.edits ∧ p.2.session.queue.edits = s.queue.edits ++ asked

theorem Action.putOff_apply {s : Session η} (hs : s.queue.KeysClassify) (m : Classification) (force : Bool) (sink : σ) :
    PutOff s (s.passAt form m force).1 ((apply form m force).perform ⟨s, sink, []⟩) := by
  have asked : ∀ t : Told, (s.resolvedAt form m force ++ t.moments .applying).flatMap Moment.edits = t.edits := fun t => by
    rw [List.flatMap_append, Session.edits_resolvedAt, Told.edits_moments, List.nil_append]
  rcases perform_apply m force (⟨s, sink, []⟩ : Run η σ) with ⟨t, left, -, -, hrun⟩ | ⟨t, last, left, rest, -, -, -, hrun⟩
  · rw [hrun]
    refine ⟨rfl, (TaskQueue.batchesTaken_corrected ..).trans (TaskQueue.batchesTaken_queued ..), fun _ => ?_, ?_⟩
    · show ((t.queued s.queue).corrected _).edits = _ ++ (s.resolvedAt form m force ++ t.moments .applying).flatMap _ ++ _
      rw [TaskQueue.edits_corrected, (TaskQueue.queued hs t).2, asked]
    · intro e herror
      cases herror
  · rw [hrun]
    refine ⟨rfl, TaskQueue.batchesTaken_queued .., ?_, ?_⟩
    · intro hok
      cases hok
    · rintro _ ⟨⟩
      refine ⟨rfl, t.edits, ?_, (TaskQueue.queued hs t).2⟩
      show t.edits <+: (s.resolvedAt form m force ++ Told.moments (t ++ [last]) .applying).flatMap _
      rw [asked, Told.edits_append]
      exact List.prefix_append ..

end Passes

/-- Telling a pass is a stretch of a history. -/
theorem Action.stretch_apply {η σ : Type} [EditHook η] [Sink σ] {form : Form} (b : List Task) (s : Session η)
    (m : Classification) (force : Bool) (sink : σ) :
    Stretch form b s ((apply form m force).perform ⟨s, sink, []⟩).2.trace
      (leftOver b ((apply form m force).perform ⟨s, sink, []⟩).1)
      ((apply form m force).perform ⟨s, sink, []⟩).2.session := by
  have hreached : Reaches form false b ⟨s, sink, []⟩ ((apply form m force).perform ⟨s, sink, []⟩) b := reaches_apply m force
  obtain ⟨ms, ds, htrace, hturns, -⟩ := hreached
  rw [htrace]
  exact (Stretch.refl b s).turns hturns

/-! ### The change that an operation makes itself -/

/-- No batch is taken between two runs, and nothing is published. -/
structure Silent {η σ : Type} (r r' : Run η σ) : Prop where
  batches : r'.session.queue.batchesTaken = r.session.queue.batchesTaken
  trace : ∃ ms, r'.trace = r.trace ++ ms ∧ ∀ m ∈ ms, m.publishes = false

/-- No batch is taken between two runs, and all that is published is published before the first pass. -/
structure OwnChange {η σ : Type} (r r' : Run η σ) : Prop where
  batches : r'.session.queue.batchesTaken = r.session.queue.batchesTaken
  trace : ∃ before after, r'.trace = r.trace ++ (before ++ after) ∧ (∀ m ∈ before, m.Outside) ∧
    ∀ m ∈ after, m.publishes = false

section Changes
variable {η σ α β : Type} {r r' r'' : Run η σ}

theorem Silent.refl (r : Run η σ) : Silent r r := ⟨rfl, [], (List.append_nil _).symm, by simp⟩

theorem Silent.trans (h : Silent r r') (h' : Silent r' r'') : Silent r r'' := by
  obtain ⟨ms, htrace, hms⟩ := h.trace
  obtain ⟨ms', htrace', hms'⟩ := h'.trace
  refine ⟨h'.batches.trans h.batches, ms ++ ms', ?_, List.forall_mem_append.mpr ⟨hms, hms'⟩⟩
  rw [htrace', htrace, List.append_assoc]

theorem OwnChange.of_silent (h : Silent r r') : OwnChange r r' := by
  obtain ⟨ms, htrace, hms⟩ := h.trace
  exact ⟨h.batches, [], ms, htrace, by simp, hms⟩

theorem OwnChange.refl (r : Run η σ) : OwnChange r r := .of_silent (.refl r)

theorem OwnChange.silent (h : OwnChange r r') (h' : Silent r' r'') : OwnChange r r'' := by
  obtain ⟨before, after, htrace, hbefore, hafter⟩ := h.trace
  obtain ⟨ms, htrace', hms⟩ := h'.trace
  refine ⟨h'.batches.trans h.batches, before, after ++ ms, ?_, hbefore, List.forall_mem_append.mpr ⟨hafter, hms⟩⟩
  rw [htrace', htrace, List.append_assoc, List.append_assoc]

/-- What happens outside of every pass may go before. -/
theorem OwnChange.outside {ms : List Moment} (h : OwnChange r' r'')
    (batches : r'.session.queue.batchesTaken = r.session.queue.batchesTaken) (trace : r'.trace = r.trace ++ ms)
    (hms : ∀ m ∈ ms, m.Outside) : OwnChange r r'' := by
  obtain ⟨before, after, htrace, hbefore, hafter⟩ := h.trace
  refine ⟨h.batches.trans batches, ms ++ before, after, ?_, List.forall_mem_append.mpr ⟨hms, hbefore⟩, hafter⟩
  rw [htrace, trace, List.append_assoc, List.append_assoc]

/-- An action takes no batch and publishes nothing, whatever its outcome. -/
def Action.IsSilent (a : Action η σ α) : Prop := ∀ r, Silent r (a.perform r).2

namespace Action
variable {form : Form} {a : Action η σ α} {f : α → Action η σ β}

theorem isSilent_pure (x : α) : (pure x : Action η σ α).IsSilent := Silent.refl

theorem isSilent_bind (ha : a.IsSilent) (hf : ∀ x, (f x).IsSilent) : (a >>= f).IsSilent := fun r =>
  keep_bind (P := Silent r) (ha r) fun x r' h => h.trans (hf x r')

theorem isSilent_session {f : Session η → Action η σ β} (hf : ∀ s, (f s).IsSilent) : (session >>= f).IsSilent :=
  isSilent_bind Silent.refl hf

theorem isSilent_update {f : Session η → Session η} (queue : ∀ s, (f s).queue = s.queue) :
    (update f : Action η σ Unit).IsSilent := by
  intro r
  refine ⟨?_, [], (List.append_nil _).symm, by simp⟩
  rw [perform_update, queue]

/-- An action that publishes before its passes may be followed by one that publishes nothing. -/
theorem ownChange_bind (ha : OwnChange r (a.perform r).2) (hf : ∀ x, (f x).IsSilent) :
    OwnChange r ((a >>= f).perform r).2 :=
  keep_bind (P := OwnChange r) ha fun x r' h => h.silent (hf x r')

theorem ownChange_group {id : String} {f : RowGroup → Action η σ α} (hf : ∀ g, OwnChange r ((f g).perform r).2) :
    OwnChange r ((group form id >>= f).perform r).2 := by
  rw [perform_bind, group]
  cases form.schema.group? id with
  | none => exact .refl r
  | some g => exact hf g

variable [Sink σ]

theorem isSilent_tellRows (group : String) (ops : List RowOp) :
    (tellRows form group ops : Action η σ Unit).IsSilent := by
  intro r
  obtain ⟨t, sink, -, hrun⟩ := perform_tellRows form group ops r
  rw [hrun]
  exact ⟨TaskQueue.batchesTaken_queued t r.session.queue, _, rfl, Told.forall_moments fun _ _ => rfl⟩

theorem isSilent_apply (m : Classification) (force : Bool) : (apply form m force : Action η σ Unit).IsSilent := by
  intro r
  rcases perform_apply m force r with ⟨t, sink, -, -, hrun⟩ | ⟨t, last, sink, rest, -, -, -, hrun⟩
  · rw [hrun]
    refine ⟨by simp [passed], _, rfl, List.forall_mem_append.mpr ⟨?_, ?_⟩⟩
    · exact Session.forall_resolvedAt fun _ _ => rfl
    · exact Told.forall_moments fun _ _ => rfl
  · rw [hrun]
    refine ⟨by simp [refused], _, rfl, List.forall_mem_append.mpr ⟨?_, ?_⟩⟩
    · exact Session.forall_resolvedAt fun _ _ => rfl
    · exact Told.forall_moments fun _ _ => rfl

theorem isSilent_classify : (classify form : Action η σ Unit).IsSilent :=
  isSilent_session fun _ => isSilent_apply _ _

theorem isSilent_reapply : (reapply form : Action η σ Unit).IsSilent :=
  isSilent_session fun _ => isSilent_apply _ _

theorem isSilent_enterGroups (groups : List String) : (enterGroups form groups : Action η σ Unit).IsSilent := by
  induction groups with
  | nil => exact isSilent_pure ()
  | cons group rest ih =>
    refine isSilent_bind (isSilent_session fun s => ?_) fun _ => ih
    split
    · exact isSilent_pure ()
    · exact isSilent_bind (isSilent_update fun _ => rfl) fun _ => isSilent_tellRows _ _

theorem isSilent_arrive (step : String) (groups : List String) :
    (arrive form step groups : Action η σ Unit).IsSilent := by
  refine isSilent_bind (isSilent_update fun _ => rfl) fun _ => ?_
  exact isSilent_bind (isSilent_enterGroups _) fun _ => isSilent_classify

variable [EditHook η]

theorem ownChange_changeData (c : StoreChange) (r : Run η σ) :
    OwnChange r ((changeData form (·.change c) : Action η σ _).perform r).2 := by
  rcases perform_changeData form (·.change c) r with ⟨store, -, hrun⟩ | ⟨u, store, t, sink, -, -, hrun⟩
  · rw [hrun]
    exact ⟨rfl, [], [], by simp, by simp, by simp⟩
  · rw [hrun, run_return]
    -- The update is published first, the rows follow, and the pass comes last.
    have hbefore : ∀ m ∈ .effect (.published u) :: t.moments .idle, m.Outside :=
      List.forall_mem_cons.mpr ⟨⟨rfl, rfl⟩, Told.forall_moments fun _ _ => ⟨rfl, rfl⟩⟩
    refine (OwnChange.of_silent (isSilent_classify _)).outside ?_ ?_ hbefore
    · exact TaskQueue.batchesTaken_queued t r.session.queue
    · exact List.append_assoc ..

theorem ownChange_write (e : FormEdit) (r : Run η σ) : OwnChange r ((write form e : Action η σ _).perform r).2 :=
  ownChange_changeData (.stage e) r

theorem ownChange_clear (r : Run η σ) : OwnChange r ((clear form : Action η σ _).perform r).2 := by
  rw [clear, perform_bind, perform_session]
  dsimp only
  rw [perform_bind, perform_update]
  dsimp only
  split
  · exact .of_silent ⟨rfl, [], (List.append_nil _).symm, by simp⟩
  · have hwritten : ∀ (e : FormEdit) (r : Run η σ), OwnChange r ((write form e).perform r).2 := ownChange_write
    exact ⟨(hwritten _ _).batches, (hwritten _ _).trace⟩

theorem ownChange_leave (step : String) (r : Run η σ) :
    OwnChange r ((leave form step : Action η σ Unit).perform r).2 := by
  by_cases hstep : form.schema.hasStep step = true
  · simp only [leave, hstep, Bool.not_true, Bool.false_eq_true, ↓reduceIte]
    rw [perform_bind, perform_session]
    dsimp only
    split
    · exact ownChange_bind (ownChange_clear r) fun _ => isSilent_pure ()
    · exact .refl r
  · simp only [leave, hstep, Bool.not_false, ↓reduceIte]
    exact .refl r

theorem ownChange_navigate (step : String) (r : Run η σ) :
    OwnChange r ((navigate form step : Action η σ Unit).perform r).2 := by
  rw [perform_navigate]
  exact ownChange_bind (ownChange_leave step r) fun _ => isSilent_arrive _ _

theorem ownChange_start (r : Run η σ) : OwnChange r ((start form : Action η σ Unit).perform r).2 := by
  obtain ⟨t, sink, -, hrun⟩ := perform_moveTrackers form seed r
  have hseeded : ∀ {r' : Run η σ},
      OwnChange ⟨r.session.moved form seed t, sink, r.trace ++ t.moments .idle⟩ r' → OwnChange r r' := fun h =>
    h.outside (TaskQueue.batchesTaken_queued t r.session.queue) rfl (Told.forall_moments fun _ _ => ⟨rfl, rfl⟩)
  rw [start, perform_bind, hrun]
  dsimp only
  split
  · exact hseeded (ownChange_navigate _ _)
  · exact hseeded (.of_silent (isSilent_classify _))

theorem ownChange_editRows (id : String) (allowed : RowGroup → Session η → Bool)
    (edit : RowGroup → Session η → FormEdit) (r : Run η σ) :
    OwnChange r ((editRows form id allowed edit : Action η σ _).perform r).2 := by
  refine ownChange_group fun g => ?_
  rw [perform_bind, perform_session]
  dsimp only
  split
  · exact ownChange_bind (ownChange_write _ r) fun _ => isSilent_pure true
  · exact .refl r

omit [EditHook η] in
theorem ownChange_resetGroup (id : String) (r : Run η σ) :
    OwnChange r ((resetGroup form id : Action η σ Unit).perform r).2 := by
  refine ownChange_group fun g => .of_silent (isSilent_session (fun s => ?_) r)
  split
  · exact Silent.refl
  · exact isSilent_bind (isSilent_update fun _ => rfl) fun _ =>
      isSilent_bind (isSilent_tellRows _ _) fun _ => isSilent_classify

end Action
end Changes

/-! ### Batches -/

/-- Batches are run one after the other. Each is everything that waits when it is taken, and until the next one is
    taken the values change by its own edits only, in their order. -/
inductive RunsBatches {η : Type} [EditHook η] : Session η → Session η → Prop
  | refl (s : Session η) : RunsBatches s s
  | batch {s s' s''} (done : List FormEdit) (own : done <+: s.queue.edits)
    (stored : s'.store = done.foldl (fun store e => (store.stage e).2) s.store)
    (number : s'.queue.batchesTaken = s.queue.batchesTaken + 1) (rest : RunsBatches s' s'') : RunsBatches s s''
  /-- Everything that waits is dropped after too many batches in a row. -/
  | dropped {s s'} (store : s'.store = s.store) (idle : s'.queue.waiting = []) : RunsBatches s s'

section Batches
variable {η σ : Type} [EditHook η] [Sink σ] {form : Form}

/-- Tasks that are run change the values by their edits, up to the one that fails, and take no batch. -/
theorem Action.store_runTask (form : Form) (task : Task) (r : Run η σ) :
    ((runTask form task).perform r).2.session.store =
        (Task.edits [task]).foldl (fun store e => (store.stage e).2) r.session.store ∧
      ((runTask form task).perform r).2.session.queue.batchesTaken = r.session.queue.batchesTaken := by
  cases task with
  | write e =>
    rw [runTask, run_return]
    exact ⟨store_changeData (·.stage e) r, (ownChange_write e r).batches⟩
  | classify =>
    refine ⟨?_, (isSilent_classify r).batches⟩
    rw [runTask, classify, perform_bind, perform_session]
    exact store_apply ..

theorem Action.store_runTasks (tasks : List Task) (r : Run η σ) :
    ∃ done, done <+: Task.edits tasks ∧
      ((runTasks form tasks).perform r).2.session.store =
        done.foldl (fun store e => (store.stage e).2) r.session.store ∧
      ((runTasks form tasks).perform r).2.session.queue.batchesTaken = r.session.queue.batchesTaken := by
  induction tasks generalizing r with
  | nil => exact ⟨[], List.prefix_rfl, rfl, rfl⟩
  | cons task rest ih =>
    have hedits : Task.edits (task :: rest) = Task.edits [task] ++ Task.edits rest :=
      List.filterMap_append (l := [task])
    obtain ⟨hstore, hbatches⟩ := store_runTask form task r
    rw [runTasks, perform_bind, hedits]
    -- A task that fails after its write ends the batch, and the write stays.
    rcases hp : (runTask form task).perform r with ⟨x | u, r'⟩
    · rw [hp] at hstore hbatches
      exact ⟨Task.edits [task], List.prefix_append .., hstore, hbatches⟩
    · rw [hp] at hstore hbatches
      obtain ⟨done, hdone, hstored, hcount⟩ := ih r'
      refine ⟨Task.edits [task] ++ done, (List.prefix_append_right_inj _).mpr hdone, ?_, hcount.trans hbatches⟩
      rw [hstored, List.foldl_append, ← hstore]

theorem Action.runsBatches_flushWithin (left done : Nat) (r : Run η σ) :
    RunsBatches r.session ((flushWithin form left done).perform r).2.session := by
  induction left generalizing done r with
  | zero =>
    cases htaken : r.session.queue.takeBatch? with
    | none =>
      rw [perform_flushWithin_none htaken]
      exact .refl _
    | some taken =>
      rw [perform_flushWithin_spent done htaken]
      exact .dropped rfl rfl
  | succ left ih =>
    rcases htaken : r.session.queue.takeBatch? with _ | ⟨batch, queue⟩
    · rw [perform_flushWithin_none htaken]
      exact .refl _
    · let begun : Run η σ := { r with session := { r.session with queue } }
      obtain ⟨written, hown, hstored, hcount⟩ := store_runTasks batch.tasks begun
      rw [(TaskQueue.taken htaken).1] at hown
      have hbatch := hcount.trans (TaskQueue.batchesTaken_taken htaken)
      rw [perform_flushWithin_taken left done htaken, perform_bind]
      rcases hp : (runTasks form batch.tasks).perform begun with ⟨x | u, r'⟩
      · rw [hp] at hstored hbatch
        exact .batch written hown hstored hbatch (.refl _)
      · rw [hp] at hstored hbatch
        exact .batch written hown hstored hbatch (ih _ r')

theorem Action.runsBatches_flush (r : Run η σ) : RunsBatches r.session ((flush form).perform r).2.session :=
  runsBatches_flushWithin _ _ r

/-- A save clears the displayed step, runs batches, and commits the values unless one of the two failed. -/
theorem Action.save_runsBatches (r : Run η σ) : ∃ (cleared : Run η σ) (settled : Session η), OwnChange r cleared ∧
    RunsBatches cleared.session settled ∧
      (((save form).perform r).2.session = settled ∨
        ((save form).perform r).2.session = { settled with store := settled.store.commit.2 }) := by
  have hclear : OwnChange r ((clear form).perform r).2 := ownChange_clear r
  rw [save, perform_bind]
  rcases hp : (clear form).perform r with ⟨e | u, r₁⟩
  · rw [hp] at hclear
    exact ⟨r₁, r₁.session, hclear, .refl _, Or.inl rfl⟩
  · rw [hp] at hclear
    have hflush : RunsBatches r₁.session ((flush form).perform r₁).2.session := runsBatches_flush r₁
    dsimp only
    rw [perform_bind]
    rcases hq : (flush form).perform r₁ with ⟨e | n, r₂⟩
    · rw [hq] at hflush
      exact ⟨r₁, r₂.session, hclear, hflush, Or.inl rfl⟩
    · rw [hq] at hflush
      exact ⟨r₁, r₂.session, hclear, hflush, Or.inr rfl⟩

/-- An operation that is no flush and no save takes no batch, and writes nothing after its first pass. -/
theorem Operation.ownChange {op : Operation} (notFlush : op ≠ .flush) (notSave : op ≠ .save) (s : Session η) (sink : σ) :
    OwnChange ⟨s, sink, []⟩ (op.perform form s sink).2 := by
  have reply : ∀ {α : Type} {a : Action η σ α} {f : α → Reply}, OwnChange ⟨s, sink, []⟩ (a.perform ⟨s, sink, []⟩).2 →
      OwnChange ⟨s, sink, []⟩ ((a >>= fun x => pure (f x)).perform ⟨s, sink, []⟩).2 :=
    fun ha => Action.ownChange_bind ha fun _ => Action.isSilent_pure _
  cases op with
  | start => exact reply (Action.ownChange_start _)
  | classify => exact reply (.of_silent (Action.isSilent_classify _))
  | reapply => exact reply (.of_silent (Action.isSilent_reapply _))
  | apply m force => exact reply (.of_silent (Action.isSilent_apply m force _))
  | write e => exact reply (Action.ownChange_write e _)
  | clear => exact reply (Action.ownChange_clear _)
  | discard => exact reply (Action.ownChange_changeData .revert _)
  | flush => exact absurd rfl notFlush
  | navigate step => exact reply (Action.ownChange_navigate step _)
  | save => exact absurd rfl notSave
  | addRow id => exact reply (Action.ownChange_editRows id _ _ _)
  | removeRow id i => exact reply (Action.ownChange_editRows id _ _ _)
  | resetGroup id => exact reply (Action.ownChange_resetGroup id _)

end Batches

end FormSession
