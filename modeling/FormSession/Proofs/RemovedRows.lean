import FormSession.Proofs.Corrections
import FormSession.Proofs.DeferredWork
import FormSession.Proofs.RowEdits
import Mathlib.Order.Nat

/-! # Removed rows and the corrections that wait

Removing a row of a group takes one value out of its length field (`length_written_eraseRow`). Corrections that
were called for before the removal name rows as they were then, and are written as they are: the length field
grows back as far as one of them writes (`removed_row_length`). What passes call for after the removal does not
lengthen it. -/

namespace FormSession

/-! ### The number of values to come -/

theorem foldl_max_le_iff {l : List Nat} {a n : Nat} : l.foldl max a ≤ n ↔ a ≤ n ∧ ∀ x ∈ l, x ≤ n := by
  induction l generalizing a with
  | nil => simp
  | cons x rest ih => rw [List.foldl_cons, ih, Nat.max_le, and_assoc, List.forall_mem_cons]

theorem foldl_max_eq_iff {l : List Nat} {a : Nat} : l.foldl max a = a ↔ ∀ x ∈ l, x ≤ a := by
  have hleast : a ≤ l.foldl max a := (foldl_max_le_iff.mp (Nat.le_refl _)).1
  constructor
  · exact fun hsame => (foldl_max_le_iff.mp (Nat.le_of_eq hsame)).2
  · exact fun hle => Nat.le_antisymm (foldl_max_le_iff.mpr ⟨Nat.le_refl a, hle⟩) hleast

namespace Session
variable {η : Type} {form : Form} {s : Session η} {e : FormEdit} {f : String} {n : Nat}

/-- As many values as a field comes to hold, if nothing but writes that take no row away is still to be run. -/
def lengthToCome (b : List Task) (s : Session η) (f : String) : Nat :=
  ((b ++ s.queue.waiting.map (·.task)).map (Task.writtenLength f)).foldl max (s.store.length f)

theorem lengthToCome_le_iff {b : List Task} : s.lengthToCome b f ≤ n ↔ s.store.length f ≤ n ∧
    (∀ task ∈ b, task.writtenLength f ≤ n) ∧ ∀ task ∈ s.queue.waiting.map (·.task), task.writtenLength f ≤ n := by
  rw [lengthToCome, foldl_max_le_iff, List.forall_mem_map, List.forall_mem_append]

/-- A field that holds values comes to hold a number of them, and what is to be run takes none away. -/
structure Growing (f : String) (n : Nat) (b : List Task) (s : Session η) : Prop where
  hooks : s.store.hooks = []
  held : 0 < s.store.length f
  running : ∀ task ∈ b, task.WritesOnly
  waiting : ∀ task ∈ s.queue.waiting.map (·.task), task.WritesOnly
  toCome : s.lengthToCome b f = n

theorem mem_edits_of_waiting (h : .write e ∈ s.queue.waiting.map (·.task)) : e ∈ s.queue.edits :=
  List.mem_filterMap.mpr ⟨.write e, h, rfl⟩

theorem waiting_of_mem_edits (h : e ∈ s.queue.edits) : .write e ∈ s.queue.waiting.map (·.task) := by
  obtain ⟨task, htask, hedit⟩ := List.mem_filterMap.mp h
  cases task with
  | write e' =>
    cases hedit
    exact htask
  | classify => cases hedit

variable [EditHook η] {b : List Task}

/-- Whatever is written, what a field comes to hold after it is told by what waited before it. -/
theorem growing_written (hooks : s.store.hooks = []) (held : 0 < (s.written form e).store.length f)
    (waits : ∀ task ∈ s.queue.waiting.map (·.task), task.WritesOnly) : (s.written form e).Growing f
      ((s.queue.edits.map fun e => FieldEdit.writtenLength (e.getD f [])).foldl max ((s.written form e).store.length f))
      [] := by
  obtain ⟨hold, hnew⟩ := waiting_written held
  refine ⟨hooks_written hooks e, held, by simp, fun task htask => ?_, eq_of_forall_ge_iff fun k => ?_⟩
  · rcases hnew task htask with hbefore | ⟨hwrites, -⟩
    · exact waits task hbefore
    · exact hwrites
  · rw [lengthToCome_le_iff, foldl_max_le_iff]
    constructor
    · rintro ⟨hlength, -, hwaiting⟩
      refine ⟨hlength, fun x hx => ?_⟩
      obtain ⟨e', he', rfl⟩ := List.mem_map.mp hx
      exact hwaiting (.write e') (hold _ (waiting_of_mem_edits he'))
    · rintro ⟨hlength, hedits⟩
      refine ⟨hlength, by simp, fun task htask => ?_⟩
      rcases hnew task htask with hbefore | ⟨-, hle⟩
      · obtain ⟨e', rfl, -⟩ := waits task hbefore
        exact hedits _ (List.mem_map.mpr ⟨e', mem_edits_of_waiting hbefore, rfl⟩)
      · exact Nat.le_trans hle hlength

theorem Growing.written (h : s.Growing f n (.write e :: b)) : (s.written form e).Growing f n b := by
  obtain ⟨he, running⟩ := List.forall_mem_cons.mp h.running
  obtain ⟨_, hsame, hwrites⟩ := he
  cases hsame
  have hlength : (s.written form e).store.length f = max (s.store.length f) (Task.writtenLength f (.write e)) := by
    rw [store_written]
    exact Store.length_stage h.hooks hwrites f
  have held : 0 < (s.written form e).store.length f := Nat.lt_of_lt_of_le h.held (hlength ▸ Nat.le_max_left ..)
  obtain ⟨hold, hnew⟩ := waiting_written held
  refine ⟨hooks_written h.hooks e, held, running, fun task htask => ?_, ?_⟩
  · rcases hnew task htask with hbefore | ⟨hwrites', -⟩
    · exact h.waiting task hbefore
    · exact hwrites'
  -- The write moves from what is to be run to what is held; what the pass after it calls for is no longer than that.
  · rw [← h.toCome]
    refine eq_of_forall_ge_iff fun k => ?_
    rw [lengthToCome_le_iff, lengthToCome_le_iff, hlength, Nat.max_le, List.forall_mem_cons]
    constructor
    · rintro ⟨⟨hs, hw⟩, hb, hwaiting⟩
      exact ⟨hs, ⟨hw, hb⟩, fun task htask => hwaiting task (hold task htask)⟩
    · rintro ⟨hs, ⟨hw, hb⟩, hwaiting⟩
      refine ⟨⟨hs, hw⟩, hb, fun task htask => ?_⟩
      rcases hnew task htask with hbefore | ⟨-, hle⟩
      · exact hwaiting task hbefore
      · exact Nat.le_trans hle (hlength ▸ Nat.max_le.mpr ⟨hs, hw⟩)

theorem Growing.foldl (h : s.Growing f n b) : (b.foldl (ran form) s).Growing f n [] := by
  induction b generalizing s with
  | nil => exact h
  | cons task rest ih =>
    obtain ⟨e, rfl, -⟩ := h.running task List.mem_cons_self
    exact ih h.written

theorem Growing.afterBatch (h : s.Growing f n []) : (s.afterBatch form).Growing f n [] := by
  refine Growing.foldl ⟨h.hooks, h.held, h.waiting, fun task htask => (by cases htask), ?_⟩
  rw [← h.toCome, lengthToCome, lengthToCome, List.nil_append]
  show (List.map _ (s.queue.waiting.map (·.task) ++ [])).foldl max (s.store.length f) = _
  rw [List.append_nil]

theorem Growing.afterBatches (h : s.Growing f n []) (i : Nat) : (s.afterBatches form i).Growing f n [] := by
  induction i generalizing s with
  | zero => exact h
  | succ i ih => exact ih h.afterBatch

omit [EditHook η] in
theorem Growing.length_of_idle (h : s.Growing f n []) (idle : s.queue.waiting = []) : s.store.length f = n := by
  rw [← h.toCome, lengthToCome, idle]
  rfl

end Session

/-! ### Removals -/

section Removals
variable {η σ : Type} [EditHook η] [Sink σ] {form : Form} {s : Session η} {sink : σ} {index : Nat} {field : String}

theorem Operation.session_removeRow {r : Run η σ} {g : RowGroup} (hg : form.schema.group? g.id = some g)
    (h : (Operation.removeRow g.id index).perform form s sink = (.ok (.accepted true), r)) (quiet : Quiet r.trace) :
    index < Action.groupLength g s ∧ r.session = s.written form (FormEdit.eraseRow s.store.values g.fields index) := by
  cases rowEdited_removeRow hg h with
  | accepted allowed written =>
    have hwrite : EndsIn (⟨s, sink, []⟩ : Run η σ) (s.written form (FormEdit.eraseRow s.store.values g.fields index))
        ((Action.write form (FormEdit.eraseRow s.store.values g.fields index)).perform ⟨s, sink, []⟩) :=
      Action.ends_write (by rwa [written])
    obtain ⟨x, sink', ms, hend⟩ := hwrite
    rw [written] at hend
    cases hend
    exact ⟨allowed.1, rfl⟩

theorem Operation.session_flush {reply : Reply} {r : Run η σ}
    (h : Operation.flush.perform form s sink = (.ok reply, r)) (quiet : Quiet r.trace) :
    ∃ n, r.session = s.afterBatches form n ∧ r.session.queue.waiting = [] := by
  have hquiet : Quiet (Operation.flush.perform form s sink).2.trace := by rwa [h]
  rcases Operation.perform_flush hquiet with ⟨n, -, hidle, -, -, hend⟩ | ⟨-, herror⟩
  · rw [h] at hend
    have hend : r.session = s.afterBatches form n := hend
    exact ⟨n, hend, by rw [hend, hidle]⟩
  · rw [h] at herror
    cases herror

omit [Sink σ] in
theorem Session.length_written_eraseRow {g : RowGroup} (hooks : s.store.hooks = []) (hfield : field ∈ g.fields)
    (h : index < s.store.length field) :
    (s.written form (FormEdit.eraseRow s.store.values g.fields index)).store.length field = s.store.length field - 1 := by
  rw [Session.store_written, Store.length, Store.values_stage_applyTo hooks, Std.ExtTreeMap.getD_eq_getD_getElem?,
    FormEdit.getElem?_eraseRow, if_pos ⟨hfield, h⟩, Option.getD_some, FieldEdit.applyTo_eraseRow h,
    List.length_eraseIdx_of_lt h]
  rfl

omit [Sink σ] in
/-- A turn hands over no corrections but those of a pass. -/
theorem Turn.writesOnly {b b' : List Task} {s' : Session η} {ms : List Moment} {ds : List Deed} {e : FormEdit}
    (h : Turn form b s ms ds b' s') (he : .corrected e ∈ ds) : e.WritesOnly := by
  have told : ∀ t : Told, .corrected e ∉ Deed.ofTold t := fun t => by simp [Deed.ofTold]
  have lost : ∀ es : List FormEdit, .corrected e ∉ es.map Deed.lost := fun es => by simp
  have served : ∀ {c : StoreChange} {b b' : List Task} {ds : List Deed}, Serves c b b' ds → .corrected e ∉ ds :=
    fun serves => by cases serves <;> simp
  -- Of all turns only a pass hands a correction over.
  cases h with
  | unchanged c change serves => exact absurd he (served serves)
  | changed c change serves =>
    rcases List.mem_append.mp he with hserved | htold
    · exact absurd hserved (served serves)
    · exact absurd htold (told _)
  | seeded => exact absurd he (told _)
  | entered => exact absurd he (told _)
  | rebuilt => exact absurd he (told _)
  | passed m force =>
    rcases List.mem_append.mp he with htold | hpass
    · exact absurd htold (told _)
    · rw [Deed.ofPass] at hpass
      split at hpass
      · cases hpass
      · cases List.mem_singleton.mp hpass
        exact Visibility.writesOnly_corrections
  | refused =>
    rcases List.mem_append.mp he with htold | hlost
    · exact absurd htold (told _)
    · exact absurd hlost (lost _)
  | began => cases he
  | cleared => simp at he
  | displayed => cases he
  | took => cases he
  | dropped => exact absurd he (lost _)
  | committed => cases he

omit [Sink σ] in
theorem Course.writesOnly {s₀ : Session η} {trace : List Moment} {deeds : List Deed} {e : FormEdit}
    (h : Course form s₀ trace deeds s) (he : .corrected e ∈ deeds) : e.WritesOnly := by
  refine h.keep (P := fun _ _ _ deeds => ∀ e, .corrected e ∈ deeds → FormEdit.WritesOnly e) ?_ (fun _ hd => hd)
    (by simp) e he
  intro b s ms ds b' s' ht trace deeds hd e he
  rcases List.mem_append.mp he with hbefore | hnew
  · exact hd e hbefore
  · exact ht.writesOnly hnew

omit [Sink σ] in
/-- Edits that wait were called for by passes, if the receivers never asked for any. -/
theorem Course.corrected {store : Store η} {trace : List Moment} {deeds : List Deed} {e : FormEdit}
    (h : Course form (.new form store) trace deeds s) (unasked : trace.flatMap Moment.edits = [])
    (he : e ∈ s.queue.edits) : .corrected e ∈ deeds := by
  have handed : e ∈ deeds.filterMap Deed.handed? := h.deferred.accounted.ordered.subset (List.mem_append_right _ he)
  obtain ⟨d, hd, hedit⟩ := List.mem_filterMap.mp handed
  cases d with
  | asked e' =>
    cases hedit
    have hasked : e ∈ deeds.filterMap Deed.asked? := List.mem_filterMap.mpr ⟨_, hd, rfl⟩
    rw [h.asked, unasked] at hasked
    cases hasked
  | corrected e' =>
    cases hedit
    exact hd
  | written e' => cases hedit
  | lost e' => cases hedit
  | cleared => cases hedit

/-- If nothing but corrections waits when a row of a group is removed, then after a flush the length field holds as
    many values as the removal left, or as many as one of the corrections writes. The row stays removed exactly if
    no correction that waited at the removal writes past the values that the removal left. -/
theorem removed_row_length {τ : Type} [Sink τ] {sink' : τ} {store : Store η} {trace : List Moment} {deeds : List Deed}
    {g : RowGroup} {removed : Run η σ} {flushed : Run η τ} {reply : Reply}
    (h : Course form (.new form store) trace deeds s) (hooks : s.store.hooks = [])
    (pending : ∀ x ∈ s.queue.waiting, ∃ e, x.task = .write e ∧ .corrected e ∈ deeds)
    (hg : g ∈ form.schema.groups) (hfield : g.lengthField? = some field) (held : 2 ≤ s.store.length field)
    (remove : (Operation.removeRow g.id index).perform form s sink = (.ok (.accepted true), removed))
    (flush : Operation.flush.perform form removed.session sink' = (.ok reply, flushed))
    (quiet : Quiet (removed.trace ++ flushed.trace)) :
    flushed.session.store.length field =
        (s.queue.edits.map fun e => FieldEdit.writtenLength (e.getD field [])).foldl max (s.store.length field - 1) ∧
      (flushed.session.store.length field = s.store.length field - 1 ↔
        ∀ e ∈ s.queue.edits, ∀ i v, FieldEdit.slotAt (e.getD field []) i = .write v → i < s.store.length field - 1) := by
  have hgroup := (Schema.problems_eq_nil_iff.mp form.valid).group?_of_mem hg
  obtain ⟨hindex, hsession⟩ := Operation.session_removeRow hgroup remove quiet.left
  have hlength : Action.groupLength g s = s.store.length field := by simp [Action.groupLength, hfield]
  rw [hlength] at hindex
  have hleft : removed.session.store.length field = s.store.length field - 1 :=
    hsession ▸ Session.length_written_eraseRow hooks (List.mem_of_mem_head? hfield) hindex
  -- A correction drops no row: what waits can make the field longer again, but never shorter.
  have hwrites : ∀ task ∈ s.queue.waiting.map (·.task), task.WritesOnly := by
    intro task htask
    obtain ⟨x, hx, rfl⟩ := List.mem_map.mp htask
    obtain ⟨e, he, hdeed⟩ := pending x hx
    exact ⟨e, he, h.writesOnly hdeed⟩
  have growing : removed.session.Growing field
      ((s.queue.edits.map fun e => FieldEdit.writtenLength (e.getD field [])).foldl max (s.store.length field - 1)) [] := by
    have hheld : 0 < removed.session.store.length field := by omega
    rw [← hleft]
    rw [hsession] at hheld ⊢
    exact Session.growing_written hooks hheld hwrites
  obtain ⟨n, hend, hidle⟩ := Operation.session_flush flush quiet.right
  have hfinal := (hend ▸ growing.afterBatches n : flushed.session.Growing field _ []).length_of_idle hidle
  refine ⟨hfinal, ?_⟩
  rw [hfinal, foldl_max_eq_iff, List.forall_mem_map]
  refine forall₂_congr fun e he => ?_
  obtain ⟨_, hsame, hwrite⟩ := hwrites _ (Session.waiting_of_mem_edits he)
  cases hsame
  exact FieldEdit.writtenLength_le_iff (hwrite.hasDrops_getD field) _

end Removals

/-! ### A seat that comes back -/

/-- A form with one group. The second seat is hidden, and is then not applicable. -/
def seatForm : Form where
  schema :=
    { Schema.empty with
      registry := (∅ : Registry).insert "seat" ⟨"", .onHide, false⟩
      steps := [⟨"cabin", []⟩]
      groups := [⟨"seats", "cabin", ["seat"], 0, 0⟩] }
  valid := by decide +kernel
  classify _ := (∅ : Classification).insert "seat" (.byRow [true, false])

/-- Two seats, as they were committed. -/
def seatStore : Store Empty := .ofCommitted ((∅ : FieldValues).insert "seat" ["1A", "1B"])

/-- The start hides the second seat; the sentinel for it waits. -/
def seatStarted : Except SessionError Reply × Run Empty SilentSink :=
  Operation.start.perform seatForm (.new seatForm seatStore) ⟨⟩

/-- The first seat is removed. -/
def seatRemoved : Except SessionError Reply × Run Empty SilentSink :=
  (Operation.removeRow "seats" 0).perform seatForm seatStarted.2.session ⟨⟩

/-- What waited for the second seat is written when there is one seat left. -/
def seatFlushed : Except SessionError Reply × Run Empty SilentSink :=
  Operation.flush.perform seatForm seatRemoved.2.session ⟨⟩

theorem removed_row_length_seatFlushed :
    seatFlushed.2.session.store.length "seat" =
        (seatStarted.2.session.queue.edits.map fun e => FieldEdit.writtenLength (e.getD "seat" [])).foldl max
          (seatStarted.2.session.store.length "seat" - 1) ∧
      (seatFlushed.2.session.store.length "seat" = seatStarted.2.session.store.length "seat" - 1 ↔
        ∀ e ∈ seatStarted.2.session.queue.edits, ∀ i v, FieldEdit.slotAt (e.getD "seat" []) i = .write v →
          i < seatStarted.2.session.store.length "seat" - 1) := by
  have history : History seatForm (.new seatForm seatStore) ([] ++ seatStarted.2.trace) seatStarted.2.session := by
    unfold seatStarted
    exact .call _ _ .begin
  obtain ⟨deeds, hcourse⟩ := history.course
  have waiting : seatStarted.2.session.queue.waiting.map (·.task) =
      [.write ((∅ : FormEdit).insert "seat" [.keep, .write "N/A"])] := by decide +kernel
  have pending : ∀ x ∈ seatStarted.2.session.queue.waiting, ∃ e, x.task = .write e ∧ .corrected e ∈ deeds := by
    intro x hx
    have hmem := List.mem_map_of_mem (f := (·.task)) hx
    have htask := hmem
    rw [waiting, List.mem_singleton] at htask
    rw [htask] at hmem
    exact ⟨_, htask, hcourse.corrected (by decide +kernel) (Session.mem_edits_of_waiting hmem)⟩
  have remove : (Operation.removeRow "seats" 0).perform seatForm seatStarted.2.session SilentSink.mk =
      (.ok (.accepted true), seatRemoved.2) := by
    have hok : seatRemoved.1 = .ok (.accepted true) := by decide +kernel
    rw [← hok, seatRemoved]
  have flush : Operation.flush.perform seatForm seatRemoved.2.session SilentSink.mk =
      (.ok (.batches 1), seatFlushed.2) := by
    have hok : seatFlushed.1 = .ok (.batches 1) := by decide +kernel
    rw [← hok, seatFlushed]
  exact removed_row_length (g := ⟨"seats", "cabin", ["seat"], 0, 0⟩) hcourse (by decide +kernel) pending
    (List.mem_singleton_self _) rfl (by decide +kernel) remove flush (by decide +kernel)

/-- The start hides the second seat and calls for its sentinel. When the first seat is removed the second one takes
    its place, and then the sentinel is written as if both were there. -/
theorem removed_seat_comes_back :
    seatStarted.1 = .ok .done ∧ Quiet seatStarted.2.trace ∧ seatStarted.2.session.activeStep = some "cabin" ∧
      seatStarted.2.session.store.values "seat" = ["1A", "1B"] ∧
      seatStarted.2.session.queue.waiting.map (·.task) = [.write ((∅ : FormEdit).insert "seat" [.keep, .write "N/A"])] ∧
      seatRemoved.1 = .ok (.accepted true) ∧ seatRemoved.2.session.store.values "seat" = ["1B"] ∧
      seatFlushed.1 = .ok (.batches 1) ∧ Quiet (seatRemoved.2.trace ++ seatFlushed.2.trace) ∧
      seatFlushed.2.session.store.values "seat" = ["1B", "N/A"] := by
  decide +kernel

end FormSession
