import FormSession.Session.Telling
import Mathlib.Data.List.Basic

/-! # What telling events does

Each event goes to the receiver once and in order, and what the receiver asks for is queued. Telling the
steps of rows never fails (`perform_tellMoves`). Telling a pass fails at the first event at which the
receiver asks for a classification, and the events after it are not told (`perform_tellAll`). -/

namespace FormSession

/-- Events told in order, each with what the receiver asked for. -/
abbrev Told := List (Event × List Request)

namespace Told

/-- The events told. -/
def events (t : Told) : List Event := t.map (·.1)

/-- The trace of events told. -/
def moments (t : Told) (phase : Phase) : List Moment := t.map fun x => .effect (.told x.1 phase x.2)

/-- The queue after what the receiver asked for. -/
def queued (t : Told) (q : TaskQueue Task) : TaskQueue Task := t.foldl (fun q x => q.accept x.2) q

theorem events_append (t u : Told) : events (t ++ u) = t.events ++ u.events := List.map_append

/-- The events of a pass up to the one that is refused are events of the pass. -/
theorem mem_events_of_refused {t : Told} {last : Event × List Request} {rest events : List Event} {e : Event}
    (told : t.events ++ last.1 :: rest = events) (he : e ∈ Told.events (t ++ [last])) : e ∈ events := by
  rw [events_append] at he
  rw [← told]
  rcases List.mem_append.mp he with he | he
  · exact List.mem_append_left _ he
  · exact List.mem_append_right _ (List.mem_cons.mpr (Or.inl (List.mem_singleton.mp he)))

theorem moments_append (t u : Told) (phase : Phase) : moments (t ++ u) phase = t.moments phase ++ u.moments phase :=
  List.map_append

/-- What holds when any event is told holds of all that events told add to a trace. -/
theorem forall_moments {P : Moment → Prop} {t : Told} {phase : Phase}
    (h : ∀ e requests, P (.effect (.told e phase requests))) : ∀ m ∈ t.moments phase, P m :=
  List.forall_mem_map.mpr fun x _ => h x.1 x.2

/-- What does not change when an event is told is the same after events told. -/
theorem foldl_moments {α : Type} {see : α → Moment → α} {phase : Phase}
    (blind : ∀ a e requests, see a (.effect (.told e phase requests)) = a) (t : Told) (a : α) :
    (t.moments phase).foldl see a = a := by
  rw [moments, List.foldl_map]
  exact List.foldl_fixed' (fun x => blind a x.1 x.2) t

theorem queued_append (t u : Told) (q : TaskQueue Task) : queued (t ++ u) q = u.queued (t.queued q) :=
  List.foldl_append

end Told

namespace Run
variable {η σ : Type}

/-- The run after events were told. -/
def afterTold (r : Run η σ) (phase : Phase) (t : Told) (sink : σ) : Run η σ where
  session := { r.session with queue := t.queued r.session.queue }
  sink := sink
  trace := r.trace ++ t.moments phase

/-- The run after events of a pass were told, the last of which was refused: what was asked for with it is
    lost. -/
def afterRefused (r : Run η σ) (t : Told) (last : Event × List Request) (sink : σ) : Run η σ where
  session := { r.session with queue := t.queued r.session.queue }
  sink := sink
  trace := r.trace ++ Told.moments (t ++ [last]) .applying

/-- The run once something else is known of what the display was told. -/
def seeing (r : Run η σ) (v : Visibility) : Run η σ := { r with session := { r.session with visibility := v } }

theorem afterTold_nil (r : Run η σ) (phase : Phase) : r.afterTold phase [] r.sink = r := by
  simp [afterTold, Told.moments, Told.queued]

theorem afterTold_afterTold (r : Run η σ) (phase : Phase) (t u : Told) (k l : σ) :
    (r.afterTold phase t k).afterTold phase u l = r.afterTold phase (t ++ u) l := by
  simp [afterTold, Told.moments_append, Told.queued_append]

theorem afterRefused_afterTold (r : Run η σ) (t u : Told) (last : Event × List Request) (k l : σ) :
    (r.afterTold .applying t k).afterRefused u last l = r.afterRefused (t ++ u) last l := by
  simp [afterTold, afterRefused, Told.moments_append, Told.queued_append]

theorem seeing_afterTold (r : Run η σ) (v : Visibility) (phase : Phase) (t : Told) (k : σ) :
    (r.afterTold phase t k).seeing v = (r.seeing v).afterTold phase t k := rfl

theorem seeing_seeing (r : Run η σ) (v w : Visibility) : (r.seeing v).seeing w = r.seeing w := rfl

end Run

namespace Action
variable {η σ : Type} [Sink σ]

/-! ### One event -/

/-- Telling an event is refused if the receiver asks for a classification during a pass. -/
theorem perform_tell (e : Event) (phase : Phase) (r : Run η σ) : ∃ asked sink,
    (tell e phase).perform r =
      if phase = .applying ∧ .classify ∈ asked then
        (.error .classificationRecursion,
          { r with sink, trace := r.trace ++ [.effect (.told e phase asked)] })
      else (.ok (), r.afterTold phase [(e, asked)] sink) := by
  refine ⟨(Sink.receive r.sink e phase).1, (Sink.receive r.sink e phase).2, ?_⟩
  have hdeliver : (deliver e phase : Action η σ _).perform r =
      (.ok (Sink.receive r.sink e phase).1, { r with
        sink := (Sink.receive r.sink e phase).2
        trace := r.trace ++ [.effect (.told e phase (Sink.receive r.sink e phase).1)] }) := rfl
  rw [tell, perform_bind, hdeliver]
  by_cases h : phase = .applying ∧ Request.classify ∈ (Sink.receive r.sink e phase).1
  · dsimp only
    rw [if_pos h, if_pos h]
    rfl
  · dsimp only
    rw [if_neg h, if_neg h]
    rfl

theorem perform_tell_idle (e : Event) (r : Run η σ) : ∃ asked sink,
    (tell e .idle).perform r = (.ok (), r.afterTold .idle [(e, asked)] sink) := by
  obtain ⟨asked, sink, h⟩ := perform_tell e .idle r
  exact ⟨asked, sink, by simpa using h⟩

/-! ### A pass -/

/-- Telling the events of a pass: the receiver never asks for a classification, or it does with one of
    them, and the rest is not told. -/
theorem perform_tellAll (events : List Event) (r : Run η σ) :
    (∃ t sink, Told.events t = events ∧ (∀ x ∈ t, .classify ∉ x.2) ∧
      (tellAll .applying events).perform r = (.ok (), r.afterTold .applying t sink)) ∨
    ∃ t last sink rest, Told.events t ++ last.1 :: rest = events ∧ (∀ x ∈ t, .classify ∉ x.2) ∧ .classify ∈ last.2 ∧
      (tellAll .applying events).perform r = (.error .classificationRecursion, r.afterRefused t last sink) := by
  induction events generalizing r with
  | nil => exact Or.inl ⟨[], r.sink, rfl, by simp, by simp [tellAll, Run.afterTold_nil]⟩
  | cons e rest ih =>
    obtain ⟨asked, sink, htell⟩ := perform_tell e .applying r
    by_cases hc : Request.classify ∈ asked
    · refine Or.inr ⟨[], (e, asked), sink, rest, rfl, by simp, hc, ?_⟩
      rw [tellAll, perform_bind, htell]
      simp [hc, Run.afterRefused, Told.moments, Told.queued]
    · have hstep : (tellAll .applying (e :: rest)).perform r =
          (tellAll .applying rest).perform (r.afterTold .applying [(e, asked)] sink) := by
        rw [tellAll, perform_bind, htell]
        simp [hc]
      rcases ih (r.afterTold .applying [(e, asked)] sink) with
        ⟨t, k, hevents, hnone, hrun⟩ | ⟨t, last, k, left, hevents, hnone, hlast, hrun⟩
      · refine Or.inl ⟨(e, asked) :: t, k, congrArg (e :: ·) hevents, List.forall_mem_cons.mpr ⟨hc, hnone⟩, ?_⟩
        rw [hstep, hrun, Run.afterTold_afterTold]
        rfl
      · refine Or.inr ⟨(e, asked) :: t, last, k, left, congrArg (e :: ·) hevents,
          List.forall_mem_cons.mpr ⟨hc, hnone⟩, hlast, ?_⟩
        rw [hstep, hrun, Run.afterRefused_afterTold]
        rfl

end Action

/-! ### Rows -/

/-- The fields of a group by its id. -/
def Form.groupFields (form : Form) (group : String) : List String := ((form.schema.group? group).map (·.fields)).getD []

/-- What is known of the display once the rows of a group took some steps. -/
def Visibility.followRows (v : Visibility) (fields : List String) (ops : List RowOp) : Visibility :=
  if ops.isEmpty then v else (ops.foldl (fun v op => v.follow fields op) v).invalidate fields

/-- What is known of the display once the rows of several groups took some steps. -/
def Visibility.followMoves (form : Form) (v : Visibility) (moves : List (String × List RowOp)) : Visibility :=
  moves.foldl (fun v m => v.followRows (form.groupFields m.1) m.2) v

/-- The events that tell the steps of several groups. -/
def rowEvents (moves : List (String × List RowOp)) : List Event := moves.flatMap fun m => m.2.map (.rows m.1)

theorem rowEvents_singleton (group : String) (ops : List RowOp) : rowEvents [(group, ops)] = ops.map (.rows group) :=
  List.append_nil _

namespace Action
variable {η σ : Type} [Sink σ]

theorem perform_tellSteps (group : String) (fields : List String) (ops : List RowOp) (r : Run η σ) : ∃ t sink,
    Told.events t = ops.map (.rows group) ∧ (tellSteps group fields ops).perform r =
      (.ok (), (r.seeing (ops.foldl (fun v op => v.follow fields op) r.session.visibility)).afterTold .idle t sink) := by
  induction ops generalizing r with
  | nil => exact ⟨[], r.sink, rfl, by simp [tellSteps, Run.seeing, Run.afterTold, Told.moments, Told.queued]⟩
  | cons op rest ih =>
    obtain ⟨asked, sink, htell⟩ :=
      perform_tell_idle (.rows group op) (r.seeing (r.session.visibility.follow fields op))
    obtain ⟨t, k, hevents, hrun⟩ :=
      ih ((r.seeing (r.session.visibility.follow fields op)).afterTold .idle [(.rows group op, asked)] sink)
    refine ⟨(.rows group op, asked) :: t, k, congrArg (Event.rows group op :: ·) hevents, ?_⟩
    have hupdate : (update fun s => { s with visibility := s.visibility.follow fields op } : Action η σ _).perform r =
        (.ok (), r.seeing (r.session.visibility.follow fields op)) := rfl
    rw [tellSteps, perform_bind, hupdate]
    show ((tell (.rows group op) .idle >>= fun _ => tellSteps group fields rest).perform _) = _
    rw [perform_bind, htell]
    show (tellSteps group fields rest).perform _ = _
    rw [hrun, Run.seeing_afterTold, Run.seeing_seeing, Run.afterTold_afterTold]
    rfl

theorem perform_tellRows (form : Form) (group : String) (ops : List RowOp) (r : Run η σ) : ∃ t sink,
    Told.events t = ops.map (.rows group) ∧ (tellRows form group ops).perform r =
      (.ok (), (r.seeing (r.session.visibility.followRows (form.groupFields group) ops)).afterTold .idle t sink) := by
  by_cases hops : ops.isEmpty
  · have hnil : ops = [] := List.isEmpty_iff.mp hops
    subst hnil
    refine ⟨[], r.sink, rfl, ?_⟩
    simp [tellRows, Visibility.followRows, Run.seeing, Run.afterTold, Told.moments, Told.queued]
  · obtain ⟨t, sink, hevents, hrun⟩ := perform_tellSteps group (form.groupFields group) ops r
    refine ⟨t, sink, hevents, ?_⟩
    have hunfold : (tellRows form group ops : Action η σ Unit) =
        tellSteps group (form.groupFields group) ops >>= fun _ =>
          update fun s => { s with visibility := s.visibility.invalidate (form.groupFields group) } := by
      simp only [tellRows, hops, Bool.false_eq_true, ↓reduceIte]
      rfl
    rw [hunfold, perform_bind, hrun]
    simp [Visibility.followRows, hops, Run.seeing, Run.afterTold]

theorem perform_tellMoves (form : Form) (moves : List (String × List RowOp)) (r : Run η σ) : ∃ t sink,
    Told.events t = rowEvents moves ∧ (tellMoves form moves).perform r =
      (.ok (), (r.seeing (r.session.visibility.followMoves form moves)).afterTold .idle t sink) := by
  induction moves generalizing r with
  | nil =>
    refine ⟨[], r.sink, rfl, ?_⟩
    simp [tellMoves, Visibility.followMoves, Run.seeing, Run.afterTold, Told.moments, Told.queued]
  | cons m rest ih =>
    obtain ⟨t, sink, hevents, hrun⟩ := perform_tellRows form m.1 m.2 r
    obtain ⟨u, k, hrest, hrun'⟩ :=
      ih ((r.seeing (r.session.visibility.followRows (form.groupFields m.1) m.2)).afterTold .idle t sink)
    refine ⟨t ++ u, k, ?_, ?_⟩
    · rw [Told.events_append, hevents, hrest]
      rfl
    · rw [tellMoves, perform_bind, hrun]
      show (tellMoves form rest).perform _ = _
      rw [hrun', Run.seeing_afterTold, Run.seeing_seeing, Run.afterTold_afterTold]
      rfl

end Action

namespace Session
variable {η : Type}

/-- The steps and the new tracker of each group when every tracker makes a move. -/
def moves (s : Session η) (move : Session η → RowTracker → List RowOp × RowTracker) :
    NameMap (List RowOp × RowTracker) :=
  s.trackers.map fun _ t => move s t

/-- The steps of each group, in ascending order of their ids. -/
def moveList (s : Session η) (move : Session η → RowTracker → List RowOp × RowTracker) :
    List (String × List RowOp) :=
  (s.moves move).toList.map fun m => (m.1, m.2.1)

theorem mem_moveList {move : Session η → RowTracker → List RowOp × RowTracker} {s : Session η} {id : String}
    {k : RowTracker} (hk : s.trackers[id]? = some k) : (id, (move s k).1) ∈ s.moveList move := by
  have hmoves : (s.moves move)[id]? = some (move s k) := by
    rw [moves, Std.ExtTreeMap.getElem?_map, hk]
    rfl
  exact List.mem_map.mpr ⟨(id, move s k), Std.ExtTreeMap.mem_toList_iff_getElem?_eq_some.mpr hmoves, rfl⟩

/-- The session after every tracker made a move and the steps were told. -/
def moved (form : Form) (move : Session η → RowTracker → List RowOp × RowTracker) (t : Told) (s : Session η) :
    Session η :=
  { s with
    trackers := (s.moves move).map fun _ m => m.2
    visibility := s.visibility.followMoves form (s.moveList move)
    queue := t.queued s.queue }

/-- The session after the tracker of one group moved and its steps were told. -/
def movedOne (form : Form) (group : String) (ops : List RowOp) (tracker : RowTracker) (t : Told) (s : Session η) :
    Session η :=
  { s with
    trackers := s.trackers.insert group tracker
    visibility := s.visibility.followRows (form.groupFields group) ops
    queue := t.queued s.queue }

end Session

namespace Action
variable {η σ : Type} [Sink σ]

theorem perform_moveTrackers (form : Form) (move : Session η → RowTracker → List RowOp × RowTracker) (r : Run η σ) :
    ∃ t sink, Told.events t = rowEvents (r.session.moveList move) ∧
      (moveTrackers form move).perform r =
        (.ok (), ⟨r.session.moved form move t, sink, r.trace ++ Told.moments t .idle⟩) := by
  have hmove : (moveTrackers form move).perform r =
      (tellMoves form (r.session.moveList move)).perform
        { r with session := { r.session with trackers := (r.session.moves move).map fun _ m => m.2 } } := rfl
  obtain ⟨t, sink, hevents, hrun⟩ := perform_tellMoves form (r.session.moveList move)
    { r with session := { r.session with trackers := (r.session.moves move).map fun _ m => m.2 } }
  exact ⟨t, sink, hevents, by rw [hmove, hrun]; rfl⟩

end Action

end FormSession
