import FormSession.Proofs.History
import FormSession.Proofs.Passing
import FormSession.Proofs.Quiet
import FormSession.Proofs.WellFormed

/-! # The sentinel at rows that are shown

A row that holds the sentinel for not applicable gets its default when it is shown, and that default is
written with the next batch. The mark of a row says where this stands (`Sentinel`): it is read off the
trace alone, from the updates published and the rows shown. After a flush that ends well nothing waits, so
that a sentinel that was answered by showing its row is gone, and the rows shown are free of sentinels exactly
if none was written to a row that was not shown since (`shown_settled_iff`). -/

namespace FormSession

/-- What is known of the sentinel at a row. -/
inductive Sentinel where
  /-- The row does not hold it. -/
  | absent
  /-- The row holds it. -/
  | standing
  /-- The row holds it, and was shown since: its default is to be written. -/
  | answered
  deriving DecidableEq, Repr

/-- The event shows the row. -/
def Event.shows (field : String) (row : Nat) : Event → Bool
  | .shown f told => f == field && told.contains row
  | _ => false

namespace Sentinel

/-- The row is shown. -/
def revealed : Sentinel → Sentinel
  | standing => answered
  | m => m

/-- What waits is dropped. -/
def forgotten : Sentinel → Sentinel
  | answered => standing
  | m => m

/-- The field of the row is edited. -/
def edit (na : String) (e : FieldEdit) (row : Nat) (m : Sentinel) : Sentinel :=
  if e.cuts row then absent
  else match e.slotAt row with
    | .write v => if v = na then standing else absent
    | _ => m

/-- What is known of the sentinel after a moment. -/
def see (na field : String) (row : Nat) (m : Sentinel) : Moment → Sentinel
  | .effect (.published u) => m.edit na (u.edit.getD field []) row
  | .effect (.told e _ _) => if e.shows field row then m.revealed else m
  | .dropped => m.forgotten
  | .resolved .. => m

/-- What is known of the sentinel after a trace, if the row did not hold it before. -/
def after (na field : String) (row : Nat) (trace : List Moment) : Sentinel :=
  trace.foldl (see na field row) absent

variable {na field : String} {row : Nat} {m : Sentinel}

theorem revealed_eq_absent : m.revealed = absent ↔ m = absent := by cases m <;> simp [revealed]

theorem revealed_revealed (m : Sentinel) : m.revealed.revealed = m.revealed := by cases m <;> rfl

theorem forgotten_eq_absent : m.forgotten = absent ↔ m = absent := by cases m <;> simp [forgotten]

theorem forgotten_ne_answered : m.forgotten ≠ answered := by cases m <;> simp [forgotten]

theorem after_append (trace ms : List Moment) :
    after na field row (trace ++ ms) = ms.foldl (see na field row) (after na field row trace) :=
  List.foldl_append

/-- Of events told it matters only whether one shows the row. -/
theorem see_moments (t : Told) (phase : Phase) (m : Sentinel) :
    (t.moments phase).foldl (see na field row) m = if t.events.any (Event.shows field row) then m.revealed else m := by
  induction t generalizing m with
  | nil => rfl
  | cons x rest ih =>
    show (Told.moments rest phase).foldl _ (if x.1.shows field row then m.revealed else m) =
      if (x.1.shows field row || (Told.events rest).any (Event.shows field row)) then m.revealed else m
    rw [ih]
    cases x.1.shows field row with
    | false => simp
    | true => simp [revealed_revealed]

/-- The mark follows the value through an edit that writes before its first cut. -/
theorem edit_ne_absent_iff {e : FieldEdit} {values : List String} (hna : na ≠ "")
    (hm : values[row]? = some na ↔ m ≠ absent) :
    (e.applyTo values)[row]? = some na ↔ m.edit na e row ≠ absent := by
  rw [edit]
  cases hc : e.cuts row with
  | true => simp [FieldEdit.getElem?_applyTo_of_cuts hc]
  | false =>
    rw [if_neg Bool.false_ne_true]
    cases hs : e.slotAt row with
    | write v =>
      rw [FieldEdit.getElem?_applyTo_of_write hc hs]
      by_cases hv : v = na <;> simp [hv]
    | keep =>
      rcases FieldEdit.getElem?_applyTo_of_keep hc hs values with hkeep | ⟨hnone, hpad⟩
      · rw [hkeep]
        exact hm
      · rw [hpad, ← hm, hnone]
        simp [Ne.symm hna]
    | drop =>
      have hcut := FieldEdit.cuts_of_drop (FieldEdit.getElem?_of_slotAt hs (by simp)) (Nat.le_refl row)
      rw [hc] at hcut
      cases hcut

/-- A row that is answered after an edit was answered before, and is not written by it. -/
theorem of_edit_answered {e : FieldEdit} (h : m.edit na e row = answered) :
    m = answered ∧ ∀ v, e.slotAt row ≠ .write v := by
  rw [edit] at h
  split at h
  · cases h
  · split at h
    · split at h <;> cases h
    · rename_i hnot
      exact ⟨h, fun v hv => hnot v hv⟩

theorem rowEvents_shows (moves : List (String × List RowOp)) :
    (rowEvents moves).any (Event.shows field row) = false := by
  simp [rowEvents, Event.shows]

end Sentinel

/-! ### Answers -/

/-- The task writes a value other than the sentinel to a row. -/
def Task.Answers (na field : String) (row : Nat) : Task → Prop
  | .write edit => ∃ e v, edit[field]? = some e ∧ e.hasDrops = false ∧ e.slotAt row = .write v ∧ v ≠ na
  | .classify => False

/-- What is published when an edit that answers a sentinel is staged writes to the row of the sentinel. -/
theorem Store.stage_answer {η : Type} [EditHook η] {s t : Store η} {c : FormEdit} {o : Option Update}
    {na field : String} {row : Nat} (hooks : s.hooks = []) (hstage : s.stage c = (o, t)) (hc : (Task.write c).Answers na field row)
    (hv : s.value? field row = some na) : ∃ u v, o = some u ∧ (u.edit.getD field []).slotAt row = .write v := by
  obtain ⟨e, v, he, hdrops, hslot, hne⟩ := hc
  have hwrite : (e.normalize (s.values field)).slotAt row = .write v := by
    refine FieldEdit.slotAt_normalize_of_write hdrops hslot ?_
    show s.value? field row ≠ some v
    rw [hv]
    exact fun h => hne (Option.some.inj h).symm
  have hnormalized : (s.normalize c)[field]? = some (e.normalize (s.values field)) := by
    rw [Store.getElem?_normalize, he, Option.bind_some, if_neg]
    intro hnil
    rw [hnil] at hwrite
    cases hwrite
  have hcases := Store.stage_cases s c
  rw [hooks] at hcases
  rcases hcases with ⟨hempty, -⟩ | ⟨u, t', hu, hedit, -⟩
  · have hempty : s.normalize c = ∅ := hempty
    rw [hempty] at hnormalized
    simp at hnormalized
  · rw [hstage] at hu
    cases hu
    refine ⟨u, v, rfl, ?_⟩
    have hedit : u.edit = s.normalize c := hedit
    rw [hedit, Std.ExtTreeMap.getD_eq_getD_getElem?, hnormalized]
    exact hwrite

/-! ### Turns -/

section Turns
variable {η : Type} {form : Form} {b b' : List Task} {s s' : Session η} {trace ms : List Moment}
  {ds : List Deed}

/-- The tasks that are still to be run: those of the running batch, and those that wait. -/
def Session.toRun (b : List Task) (s : Session η) : List Task := b ++ s.queue.waiting.map (·.task)

/-- The marks of all rows agree with the values, and what answers a sentinel is still to be run. -/
structure Marked (form : Form) (b : List Task) (s : Session η) (trace : List Moment) : Prop where
  holds : ∀ f i, s.store.value? f i = some form.rules.naValue ↔ Sentinel.after form.rules.naValue f i trace ≠ .absent
  answers : ∀ f i, Sentinel.after form.rules.naValue f i trace = .answered →
    ∃ task ∈ s.toRun b, task.Answers form.rules.naValue f i

/-- Marks agree with the values as long as neither changes and no answer is lost. -/
theorem Marked.keep (h : Marked form b s trace) (hv : ∀ f, s'.store.values f = s.store.values f)
    (hms : ∀ f i m, ms.foldl (Sentinel.see form.rules.naValue f i) m = m)
    (hrun : ∀ task f i, task.Answers form.rules.naValue f i → s.store.value? f i = some form.rules.naValue →
      task ∈ s.toRun b → task ∈ s'.toRun b') : Marked form b' s' (trace ++ ms) := by
  refine ⟨fun f i => ?_, fun f i ha => ?_⟩
  · rw [Sentinel.after_append, hms, ← h.holds f i, Store.value?, Store.value?, hv]
  · rw [Sentinel.after_append, hms] at ha
    obtain ⟨task, htask, hanswers⟩ := h.answers f i ha
    have hvalue : s.store.value? f i = some form.rules.naValue := (h.holds f i).mpr (by simp [ha])
    exact ⟨task, hrun task f i hanswers hvalue htask, hanswers⟩

/-- Rows told leave the marks as they are, if the receiver asks for nothing. -/
theorem Marked.rowsTold {t : Told} {moves : List (String × List RowOp)} (h : Marked form b s trace)
    (told : t.events = rowEvents moves) (quiet : Quiet (t.moments .idle)) (store : s'.store = s.store)
    (queue : s'.queue = t.queued s.queue) : Marked form b s' (trace ++ t.moments .idle) := by
  -- Only showing a row of a field moves a mark, and what waits changes by what the receiver asks for alone.
  refine h.keep (fun f => by rw [store]) (fun f i m => ?_) fun _ _ _ _ _ htask => ?_
  · rw [Sentinel.see_moments, told, Sentinel.rowEvents_shows]
    rfl
  · rw [Session.toRun, queue, quiet.queued]
    exact htask

/-- An update moves the marks with the values. -/
theorem Marked.publish {u : Update} (h : Marked form b s trace) (hl : s.store.Leads u.edit s'.store)
    (hrun : ∀ task f i, task.Answers form.rules.naValue f i → s.store.value? f i = some form.rules.naValue →
      task ∈ s.toRun b → task ∈ s'.toRun b' ∨ ∃ v, (u.edit.getD f []).slotAt i = .write v) :
    Marked form b' s' (trace ++ [.effect (.published u)]) := by
  have hna : form.rules.naValue ≠ "" := (Schema.problems_eq_nil_iff.mp form.valid).naValue
  have hedit : ∀ f i, Sentinel.after form.rules.naValue f i (trace ++ [.effect (.published u)]) =
      (Sentinel.after form.rules.naValue f i trace).edit form.rules.naValue (u.edit.getD f []) i := fun f i =>
    Sentinel.after_append ..
  refine ⟨fun f i => ?_, fun f i ha => ?_⟩
  · rw [hedit, Store.value?, hl.values]
    exact Sentinel.edit_ne_absent_iff hna (h.holds f i)
  · rw [hedit] at ha
    obtain ⟨hbefore, hnot⟩ := Sentinel.of_edit_answered ha
    obtain ⟨task, htask, hanswers⟩ := h.answers f i hbefore
    have hvalue : s.store.value? f i = some form.rules.naValue := (h.holds f i).mpr (by simp [hbefore])
    rcases hrun task f i hanswers hvalue htask with hleft | ⟨v, hv⟩
    · exact ⟨task, hleft, hanswers⟩
    · exact absurd hv (hnot v)

/-- When a change is made, no answer is lost: it is not the change that was asked for, or it is published. -/
theorem Serves.answers [EditHook η] {c : StoreChange} {o : Option Update} {store : Store η} (serves : Serves c b b' ds)
    (hooks : s.store.hooks = []) (change : s.store.change c = (o, store)) {na f : String} {i : Nat} {task : Task}
    (hanswers : task.Answers na f i) (hvalue : s.store.value? f i = some na) (htask : task ∈ s.toRun b) :
    task ∈ s.toRun b' ∨ ∃ u v, o = some u ∧ (u.edit.getD f []).slotAt i = .write v := by
  cases serves with
  | host => exact Or.inl htask
  | task e =>
    rcases List.mem_cons.mp htask with rfl | hleft
    · exact Or.inr (Store.stage_answer hooks change hanswers hvalue)
    · exact Or.inl hleft

/-- Some event of a pass shows a row exactly if a pass found that the row is to be shown. -/
theorem Visibility.pass_shows {v : Visibility} {cx : PassContext} {force : Bool} {m : Classification} {f : String}
    {i : Nat} (h : (v.pass cx force m).1.events.any (Event.shows f i) = true) :
    ∃ verdict, Resolution.resolve cx force (v.appliedRows f) f verdict ∈ v.resolutions cx force m ∧
      (i, true) ∈ (Resolution.resolve cx force (v.appliedRows f) f verdict).changes := by
  obtain ⟨e, he, hshows⟩ := List.any_eq_true.mp h
  obtain ⟨c, hc, he⟩ := List.mem_flatMap.mp he
  obtain ⟨r, hr, -, rfl⟩ := Visibility.mem_pass_queue.mp hc
  simp only [FieldChange.events, List.mem_append, List.mem_ite_nil_left, List.mem_singleton] at he
  rcases he with (⟨-, rfl⟩ | ⟨-, rfl⟩) | rfl
  · simp only [Event.shows, Bool.and_eq_true, beq_iff_eq, List.contains_iff_mem] at hshows
    obtain ⟨hf, hi⟩ := hshows
    obtain ⟨f', verdict, hm, hactive, hfound, rfl⟩ := Visibility.mem_resolutions.mp hr
    cases (show f' = f from hf)
    exact ⟨verdict, hr, Resolution.mem_shown.mp hi⟩
  · cases hshows
  · cases hshows

/-- A pass that shows a row that holds the sentinel corrects the row. -/
theorem Visibility.pass_answers {v : Visibility} {cx : PassContext} {force : Bool} {m : Classification} {f : String}
    {i : Nat} (hshows : (v.pass cx force m).1.events.any (Event.shows f i) = true)
    (hvalue : (cx.values f)[i]? = some cx.rules.naValue) (hdefault : (cx.rules.spec f).default ≠ cx.rules.naValue) :
    (Task.write (v.pass cx force m).1.corrections).Answers cx.rules.naValue f i := by
  obtain ⟨verdict, hr, hchange⟩ := Visibility.pass_shows hshows
  have hcorrection := Resolution.mem_resolve_corrections hchange hvalue hdefault
  exact ⟨_, _, Visibility.getElem?_pass_corrections hr (List.ne_nil_of_mem hcorrection),
    FieldEdit.hasDrops_writeEach _, FieldEdit.slotAt_writeEach _ Resolution.nodup_resolve_corrections hcorrection,
    hdefault⟩

/-- A pass that was told to its end, and asked for nothing by it, leaves the marks right: a row with the sentinel
    that it showed is corrected by what waits. -/
theorem Marked.pass {m : Classification} {force : Bool} {t : Told} (h : Marked form b s trace)
    (defaults : ∀ f, (form.rules.spec f).default ≠ form.rules.naValue)
    (told : t.events = (s.passAt form m force).1.events) (quiet : Quiet (t.moments .applying)) :
    Marked form b
      { s with
        visibility := (s.passAt form m force).2
        queue := (t.queued s.queue).corrected (s.passAt form m force).1 }
      (trace ++ (s.resolvedAt form m force ++ t.moments .applying)) := by
  have hafter : ∀ f i,
      Sentinel.after form.rules.naValue f i (trace ++ (s.resolvedAt form m force ++ t.moments .applying)) =
      if t.events.any (Event.shows f i) then (Sentinel.after form.rules.naValue f i trace).revealed
      else Sentinel.after form.rules.naValue f i trace := fun f i => by
    rw [Sentinel.after_append, List.foldl_append, Session.foldl_resolvedAt fun _ _ _ => rfl, Sentinel.see_moments]
  refine ⟨fun f i => ?_, fun f i ha => ?_⟩
  · rw [hafter]
    refine (h.holds f i).trans ?_
    split
    · rw [Ne, Ne, Sentinel.revealed_eq_absent]
    · exact Iff.rfl
  · rw [hafter] at ha
    rw [quiet.queued]
    -- A row answered before the pass is answered by the same task; one that is answered now was shown by the pass.
    by_cases hbefore : Sentinel.after form.rules.naValue f i trace = .answered
    · obtain ⟨task, htask, hanswers⟩ := h.answers f i hbefore
      refine ⟨task, ?_, hanswers⟩
      rcases List.mem_append.mp htask with hb | hq
      · exact List.mem_append_left _ hb
      · exact List.mem_append_right _ (TaskQueue.mem_corrected.mpr (Or.inl hq))
    · split at ha
      · rename_i hshows
        have hvalue : s.store.value? f i = some form.rules.naValue := by
          rw [h.holds f i]
          intro habsent
          rw [habsent] at ha
          cases ha
        rw [told] at hshows
        have hanswers := Visibility.pass_answers hshows hvalue (defaults f)
        refine ⟨_, List.mem_append_right _ (TaskQueue.mem_corrected.mpr (Or.inr ⟨?_, rfl⟩)), hanswers⟩
        obtain ⟨e, v, he, -⟩ := hanswers
        intro hempty
        have hnone : (s.passAt form m force).1.corrections[f]? = none := by rw [hempty]; rfl
        exact absurd (hnone.symm.trans he) (by simp)
      · exact absurd ha hbefore

variable [EditHook η]

/-- The marks stay right in every turn, as long as nothing is asked for and there are no hooks. -/
theorem Turn.marked (h : Turn form b s ms ds b' s') (hm : Marked form b s trace) (hooks : s.store.hooks = [])
    (defaults : ∀ f, (form.rules.spec f).default ≠ form.rules.naValue) (quiet : Quiet ms) :
    Marked form b' s' (trace ++ ms) := by
  have nothing : ∀ (f : String) (i : Nat) (m : Sentinel), [].foldl (Sentinel.see form.rules.naValue f i) m = m :=
    fun _ _ _ => rfl
  cases h with
  | @unchanged _ _ _ store _ c change serves =>
    refine hm.keep (Store.values_of_change_none change) nothing fun task f i hanswers hvalue htask => ?_
    rcases serves.answers hooks change hanswers hvalue htask with hleft | ⟨u, v, hu, -⟩
    · exact hleft
    · cases hu
  | @changed _ _ _ store u _ t c change serves told =>
    have quietRows : Quiet (t.moments .idle) := fun m hm => quiet m (List.mem_cons_of_mem _ hm)
    have hpublished : Marked form b' { s with store } (trace ++ [.effect (.published u)]) := by
      refine hm.publish (Store.leads_of_change change) fun task f i hanswers hvalue htask => ?_
      -- A task that leaves the batch here is the one whose edit was published, so it wrote what answers the row.
      rcases serves.answers hooks change hanswers hvalue htask with hleft | ⟨u', v, hu, hv⟩
      · exact Or.inl hleft
      · cases hu
        exact Or.inr ⟨v, hv⟩
    rw [List.append_cons]
    exact hpublished.rowsTold told quietRows rfl rfl
  | seeded told => exact hm.rowsTold told quiet rfl rfl
  | entered cache onStep tracker told => exact hm.rowsTold (told.trans (rowEvents_singleton ..).symm) quiet rfl rfl
  | rebuilt found tracker told => exact hm.rowsTold (told.trans (rowEvents_singleton ..).symm) quiet rfl rfl
  | passed m force told => exact hm.pass defaults told quiet.right
  | @refused _ _ t last rest m force told accepted recursion =>
    -- A pass is refused only when a classification is asked for, and nothing is asked for.
    have hnone := (quiet.right).requests last (by simp)
    rw [hnone] at recursion
    cases recursion
  | began =>
    refine hm.keep (fun _ => rfl) nothing fun _ _ _ hanswers _ htask => ?_
    rcases List.mem_cons.mp htask with rfl | hleft
    · cases hanswers
    · exact hleft
  | cleared => exact hm.keep (fun _ => rfl) nothing fun _ _ _ _ _ htask => htask
  | displayed => exact hm.keep (fun _ => rfl) nothing fun _ _ _ _ _ htask => htask
  | took taken =>
    refine hm.keep (fun _ => rfl) nothing fun _ _ _ _ _ htask => ?_
    rw [TaskQueue.takeBatch?] at taken
    split at taken
    · cases taken
    · cases taken
      simpa [Session.toRun] using htask
  | dropped taken =>
    -- The tasks that were to answer go, and every row that was answered stands again.
    refine ⟨fun f i => ?_, fun f i ha => ?_⟩
    · rw [Sentinel.after_append]
      refine (hm.holds f i).trans ?_
      show _ ↔ (Sentinel.after form.rules.naValue f i trace).forgotten ≠ .absent
      rw [Ne, Ne, Sentinel.forgotten_eq_absent]
    · rw [Sentinel.after_append] at ha
      exact absurd ha Sentinel.forgotten_ne_answered
  | committed => exact hm.keep (s.store.values_commit) nothing fun _ _ _ _ _ htask => htask

theorem History.marked {store : Store η} (h : History form (.new form store) trace s)
    (initial : ∀ f i, store.value? f i ≠ some form.rules.naValue)
    (defaults : ∀ f, (form.rules.spec f).default ≠ form.rules.naValue) (hooks : s.store.hooks = [])
    (quiet : Quiet trace) : Marked form [] s trace := by
  refine h.keep (P := fun b s trace => s.store.hooks = [] → Quiet trace → Marked form b s trace) ?_ ?_ ?_ hooks quiet
  · intro b s ms ds b' s' ht trace hm hooks quiet
    have hbefore : s.store.hooks = [] := by
      rw [← List.length_eq_zero_iff, ← ht.length_hooks, hooks, List.length_nil]
    exact ht.marked (hm hbefore quiet.left) hbefore defaults quiet.right
  · intro s trace store hstore hm hooks quiet
    have hmarked := hm (List.prefix_nil.mp (hooks ▸ hstore.hooks)) quiet
    exact ⟨fun f i => by rw [← hmarked.holds f i, Store.value?, Store.value?, hstore.values], hmarked.answers⟩
  · intro _ _
    exact ⟨fun f i => iff_of_false (initial f i) (fun hn => hn rfl), fun f i ha => by cases ha⟩

/-! ### Flushes -/

omit [EditHook η] in
theorem TaskQueue.idle_of_takeBatch? {α : Type} {q : TaskQueue α} (h : q.takeBatch? = none) : q.waiting = [] := by
  rw [takeBatch?] at h
  split at h
  · rename_i hidle
    simpa [isIdle] using hidle
  · cases h

/-- A flush that ends well leaves nothing waiting. -/
theorem Action.idle_of_flushWithin {σ : Type} [Sink σ] {left done n : Nat} {r : Run η σ}
    (h : ((flushWithin form left done).perform r).1 = .ok n) :
    ((flushWithin form left done).perform r).2.session.queue.waiting = [] := by
  induction left generalizing done r with
  | zero =>
    cases htaken : r.session.queue.takeBatch? with
    | none =>
      rw [perform_flushWithin_none htaken]
      exact TaskQueue.idle_of_takeBatch? htaken
    | some taken =>
      rw [perform_flushWithin_spent done htaken] at h
      cases h
  | succ left ih =>
    rcases htaken : r.session.queue.takeBatch? with _ | ⟨batch, queue⟩
    · rw [perform_flushWithin_none htaken]
      exact TaskQueue.idle_of_takeBatch? htaken
    · rw [perform_flushWithin_taken left done htaken, perform_bind] at h ⊢
      rcases hp : (runTasks form batch.tasks).perform
        { r with session := { r.session with queue } } with ⟨x | x, r'⟩
      · rw [hp] at h
        cases h
      · rw [hp] at h
        exact ih h

theorem Operation.idle_of_flush {σ : Type} [Sink σ] {sink : σ} {r : Run η σ} {reply : Reply}
    (h : Operation.flush.perform form s sink = (.ok reply, r)) : r.session.queue.waiting = [] := by
  have hunfold : Operation.flush.perform form s sink =
      (Action.flush form >>= fun n => pure (.batches n)).perform ⟨s, sink, []⟩ := rfl
  rw [hunfold, Action.perform_bind] at h
  rcases hp : (Action.flush form).perform ⟨s, sink, []⟩ with ⟨x | n, r'⟩
  · rw [hp] at h
    cases h
  · rw [hp] at h
    cases h
    rw [Action.flush] at hp
    have hidle := Action.idle_of_flushWithin (congrArg Prod.fst hp)
    rwa [hp] at hidle

/-- After a flush that ends well, if nothing was asked for and there are no hooks, the rows shown are free of
    sentinels exactly if each sentinel written to a row was answered by showing the row after that. -/
theorem shown_settled_iff {store : Store η} {σ : Type} [Sink σ] {sink : σ} {r : Run η σ} {reply : Reply}
    (h : History form (.new form store) trace s) (initial : ∀ f i, store.value? f i ≠ some form.rules.naValue)
    (defaults : ∀ (f : String) (spec : FieldSpec), form.schema.registry[f]? = some spec →
      spec.default ≠ form.rules.naValue)
    (hooks : s.store.hooks = []) (flushed : Operation.flush.perform form s sink = (.ok reply, r))
    (quiet : Quiet (trace ++ r.trace)) :
    (∀ f ∈ r.session.activeFields, ∀ i, (r.session.visibility.appliedRows f)[i]? = some true →
        r.session.store.value? f i ≠ some form.rules.naValue) ↔
      ∀ f ∈ r.session.activeFields, ∀ i, (r.session.visibility.appliedRows f)[i]? = some true →
        Sentinel.after form.rules.naValue f i (trace ++ r.trace) ≠ .standing := by
  have hna : form.rules.naValue ≠ "" := (Schema.problems_eq_nil_iff.mp form.valid).naValue
  -- A field that is not declared has the empty default, and the sentinel is never empty.
  have hdefaults : ∀ f, (form.rules.spec f).default ≠ form.rules.naValue := fun f => by
    rw [FieldRules.spec, Registry.spec, Std.ExtTreeMap.getD_eq_getD_getElem?]
    cases hf : form.rules.registry[f]? with
    | none => exact Ne.symm hna
    | some spec => exact defaults f spec hf
  obtain ⟨ds, hturns, -⟩ := Operation.turns form .flush s sink
  have hhistory := History.call .flush sink h
  rw [flushed] at hturns hhistory
  have hhooks : r.session.store.hooks = [] := by
    have hlength := hturns.keep (P := fun _ s' => s'.store.hooks.length = s.store.hooks.length)
      (fun ht hs => ht.length_hooks.trans hs) rfl
    exact List.length_eq_zero_iff.mp (hlength.trans (by rw [hooks, List.length_nil]))
  have hmarked := hhistory.marked initial hdefaults hhooks quiet
  have hmark : ∀ f i, r.session.store.value? f i = some form.rules.naValue ↔
      Sentinel.after form.rules.naValue f i (trace ++ r.trace) = .standing := fun f i => by
    rw [hmarked.holds f i]
    cases hm : Sentinel.after form.rules.naValue f i (trace ++ r.trace) with
    | absent => simp
    | standing => simp
    | answered =>
      -- The answer would still wait, and after the flush nothing does.
      obtain ⟨task, htask, -⟩ := hmarked.answers f i hm
      simp [Session.toRun, Operation.idle_of_flush flushed] at htask
  simp only [Ne, hmark]

end Turns

/-! ### A second vehicle -/

/-- The flush after the second vehicle was filled in. -/
def vehicleFlushed : Except SessionError Reply × Run Empty SilentSink :=
  Operation.flush.perform vehicleForm vehicleFilled.2.session ⟨⟩

theorem initial_vehicleStore (f : String) (i : Nat) : vehicleStore.value? f i ≠ some "N/A" := by
  rw [Store.value?, vehicleStore, Store.ofCommitted, Store.values, Std.ExtTreeMap.getD_empty, FieldValues.of,
    Std.ExtTreeMap.getD_insert]
  split
  · exact fun h => absurd (List.mem_of_getElem? h) (by decide)
  · simp

theorem shown_settled_iff_vehicleFlushed :
    (∀ f ∈ vehicleFlushed.2.session.activeFields, ∀ i,
        (vehicleFlushed.2.session.visibility.appliedRows f)[i]? = some true →
          vehicleFlushed.2.session.store.value? f i ≠ some "N/A") ↔
      ∀ f ∈ vehicleFlushed.2.session.activeFields, ∀ i,
        (vehicleFlushed.2.session.visibility.appliedRows f)[i]? = some true →
          Sentinel.after "N/A" f i
            (([] ++ vehicleStarted.2.trace ++ vehicleFilled.2.trace) ++ vehicleFlushed.2.trace) ≠ .standing := by
  have defaults : ∀ (f : String) (spec : FieldSpec), vehicleForm.schema.registry[f]? = some spec →
      spec.default ≠ "N/A" := by
    intro f spec hspec
    have hcase : (if "garage_zip" = f then some (⟨"", .onHide, false⟩ : FieldSpec) else none) = some spec := by
      rw [← hspec]
      simp [vehicleForm, Std.ExtTreeMap.getElem?_insert]
    split at hcase
    · cases hcase
      decide
    · cases hcase
  have flushed : Operation.flush.perform vehicleForm vehicleFilled.2.session SilentSink.mk =
      (.ok (.batches 1), vehicleFlushed.2) := by
    have hok : vehicleFlushed.1 = .ok (.batches 1) := by decide +kernel
    rw [← hok, vehicleFlushed]
  exact shown_settled_iff history_vehicleFilled initial_vehicleStore defaults (by decide +kernel) flushed
    (by decide +kernel)

/-- The code of the second garage was hidden at the start, and what was called for then is written when the row
    is shown already: the row shown holds the sentinel, though no value given and no default is the sentinel. -/
theorem filled_row_not_applicable :
    vehicleFlushed.1 = .ok (.batches 1) ∧
      Quiet (vehicleStarted.2.trace ++ vehicleFilled.2.trace ++ vehicleFlushed.2.trace) ∧
      "garage_zip" ∈ vehicleFlushed.2.session.activeFields ∧
      vehicleFlushed.2.session.visibility.appliedRows "garage_zip" = [true, true] ∧
      vehicleFlushed.2.session.store.values "garage_zip" = ["", vehicleForm.rules.naValue] := by
  decide +kernel

end FormSession
