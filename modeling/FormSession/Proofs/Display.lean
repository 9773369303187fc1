import FormSession.Proofs.History
import FormSession.Proofs.Passing
import FormSession.Proofs.WellFormed

/-! # The display mirrors the session

A display that does nothing but follow the events it is told knows of every row that the session counts as
applied, and agrees with the session whether the row is shown (`display_mirrors`). A pass passes over rows
that are as they were, so this rests on what is applied having been told before, through all removals of
rows, and on the fields of a pass that could not be told to its end being forgotten. -/

namespace FormSession

/-- What a display knows of the rows of each field: nothing yet, or whether they are shown. -/
abbrev Display := String → Nat → Option Bool

namespace Display

/-- Some rows of a field are shown or hidden. -/
def mark (d : Display) (field : String) (rows : List Nat) (visible : Bool) : Display := fun f i =>
  if f = field ∧ i ∈ rows then some visible else d f i

/-- A row of some fields goes away: the rows after it move down by one. -/
def removeRow (d : Display) (fields : List String) (k : Nat) : Display := fun f i =>
  if f ∈ fields ∧ k ≤ i then d f (i + 1) else d f i

/-- What a display knows after an event. -/
def follow (form : Form) (d : Display) : Event → Display
  | .shown field rows => d.mark field rows true
  | .hidden field rows => d.mark field rows false
  | .rows group (.remove k) => d.removeRow (form.groupFields group) k
  | _ => d

/-- What a display knows after events. -/
def followAll (form : Form) (d : Display) (events : List Event) : Display := events.foldl (follow form) d

/-- What a display knows after a moment: it sees the events it is told. -/
def see (form : Form) (d : Display) : Moment → Display
  | .effect (.told e _ _) => d.follow form e
  | _ => d

/-- What a display knows after a trace, if it knew nothing before. -/
def after (form : Form) (trace : List Moment) : Display := trace.foldl (see form) fun _ _ => none

variable {form : Form} {d : Display} {v : Visibility}

theorem after_append (trace ms : List Moment) : after form (trace ++ ms) = ms.foldl (see form) (after form trace) :=
  List.foldl_append

/-- Of events told a display sees all. -/
theorem see_moments (form : Form) (d : Display) (t : Told) (phase : Phase) :
    (t.moments phase).foldl (see form) d = d.followAll form t.events := by
  simp only [Told.moments, Told.events, followAll, List.foldl_map]
  rfl

theorem followAll_append (form : Form) (d : Display) (xs ys : List Event) :
    d.followAll form (xs ++ ys) = (d.followAll form xs).followAll form ys :=
  List.foldl_append

/-! ### Mirrors -/

/-- A display knows what a session counts as applied. -/
def Mirrors (d : Display) (v : Visibility) : Prop :=
  ∀ (f : String) (i : Nat) (b : Bool), (v.appliedRows f)[i]? = some b → d f i = some b

theorem Mirrors.of_applied {w : Visibility} (h : Mirrors d v) (hw : w.applied = v.applied) : Mirrors d w := by
  intro f i b
  rw [Visibility.appliedRows, hw]
  exact h f i b

/-! ### Rows -/

/-- A display follows each step in showing the rows of a group as the session does. -/
theorem mirrors_follow {group : String} (hf : (form.groupFields group).Nodup) (h : Mirrors d v) (op : RowOp) :
    Mirrors (d.follow form (.rows group op)) (v.follow (form.groupFields group) op) := by
  intro f i b hb
  rw [Visibility.appliedRows_eq, Visibility.getElem?_applied_follow hf] at hb
  have hd := h f
  rw [Visibility.appliedRows_eq] at hd
  by_cases hmem : f ∈ form.groupFields group
  · rw [if_pos hmem] at hb
    cases op with
    | add => exact hd i b hb
    | reset => simp [RowOp.follow] at hb
    | remove k =>
      cases ha : v.applied[f]? with
      | none => simp [ha, RowOp.follow] at hb
      | some rows =>
        simp only [ha, RowOp.follow, Option.map_some, Option.getD_some, List.getElem?_eraseIdx] at hb hd
        simp only [follow, removeRow, hmem, true_and]
        by_cases hik : i < k
        · rw [if_pos hik] at hb
          rw [if_neg (by omega)]
          exact hd i b hb
        · rw [if_neg hik] at hb
          rw [if_pos (by omega)]
          exact hd (i + 1) b hb
  · rw [if_neg hmem] at hb
    cases op with
    | add => exact hd i b hb
    | reset => exact hd i b hb
    | remove k =>
      simp only [follow, removeRow, hmem, false_and, ↓reduceIte]
      exact hd i b hb

theorem mirrors_followRows {group : String} (hf : (form.groupFields group).Nodup) (h : Mirrors d v) (ops : List RowOp) :
    Mirrors (d.followAll form (ops.map (.rows group))) (v.followRows (form.groupFields group) ops) := by
  have hsteps : Mirrors (d.followAll form (ops.map (.rows group)))
      (ops.foldl (fun v op => v.follow (form.groupFields group) op) v) := by
    induction ops generalizing d v with
    | nil => exact h
    | cons op rest ih => exact ih (mirrors_follow hf h op)
  rw [Visibility.followRows]
  split
  · rename_i hops
    rw [List.isEmpty_iff.mp hops]
    exact h
  · exact hsteps.of_applied rfl

theorem mirrors_followMoves {moves : List (String × List RowOp)} (hf : ∀ group, (form.groupFields group).Nodup)
    (h : Mirrors d v) : Mirrors (d.followAll form (rowEvents moves)) (v.followMoves form moves) := by
  induction moves generalizing d v with
  | nil => exact h
  | cons m rest ih =>
    rw [rowEvents, List.flatMap_cons, followAll_append]
    exact ih (mirrors_followRows (hf m.1) h m.2)

/-! ### Passes -/

/-- What a display knows of a field after the rows of the field to show and to hide were told. -/
theorem followAll_change (form : Form) (d : Display) (c : FieldChange) (f : String) (i : Nat) :
    d.followAll form c.events f i =
      if f = c.field ∧ i ∈ c.hidden then some false
      else if f = c.field ∧ i ∈ c.shown then some true
      else d f i := by
  rcases hs : c.shown with _ | ⟨j, shown⟩ <;> rcases hh : c.hidden with _ | ⟨k, hidden⟩ <;>
    simp [FieldChange.events, followAll, follow, mark, hs, hh]

/-- The events that tell what was found for a field; there are none if no row is to be shown or hidden. -/
def eventsOf (r : Resolution) : List Event := if r.changes.isEmpty then [] else r.toChange.events

theorem pass_events {cx : PassContext} {force : Bool} {m : Classification} :
    (v.pass cx force m).1.events = (v.resolutions cx force m).flatMap eventsOf := by
  show (((v.resolutions cx force m).filter (!·.changes.isEmpty)).map (·.toChange)).flatMap FieldChange.events = _
  induction v.resolutions cx force m with
  | nil => rfl
  | cons r rest ih =>
    by_cases hr : r.changes.isEmpty
    · simpa [hr, eventsOf] using ih
    · simpa [hr, eventsOf] using ih

theorem followAll_eventsOf (form : Form) (d : Display) (r : Resolution) (f : String) (i : Nat) :
    d.followAll form (eventsOf r) f i =
      if f = r.field ∧ (i, false) ∈ r.changes then some false
      else if f = r.field ∧ (i, true) ∈ r.changes then some true
      else d f i := by
  rw [eventsOf]
  split
  · rename_i hr
    simp [List.isEmpty_iff.mp hr, followAll]
  · rw [followAll_change]
    simp only [Resolution.mem_hidden, Resolution.mem_shown]
    rfl

/-- A display that is told what was found for a field follows the session in taking it over. -/
theorem mirrors_settle {r : Resolution} (hsound : ∀ i b, (i, b) ∈ r.changes → r.vector[i]? = some b)
    (haccounts : v.Accounts r) (h : Mirrors d v) : Mirrors (d.followAll form (eventsOf r)) (v.settle r) := by
  intro f i b hb
  rw [Visibility.appliedRows_eq, Visibility.getElem?_applied_settle] at hb
  rw [followAll_eventsOf]
  by_cases hf : f = r.field
  · subst hf
    rw [if_pos rfl, Option.getD_some] at hb
    simp only [true_and]
    by_cases hhidden : (i, false) ∈ r.changes
    · rw [if_pos hhidden, ← hb, hsound i false hhidden]
    · rw [if_neg hhidden]
      by_cases hshown : (i, true) ∈ r.changes
      · rw [if_pos hshown, ← hb, hsound i true hshown]
      · rw [if_neg hshown]
        rcases haccounts i b hb with hchange | happlied
        · cases b with
          | false => exact absurd hchange hhidden
          | true => exact absurd hchange hshown
        · exact h r.field i b happlied
  · rw [if_neg (Ne.symm hf), ← Visibility.appliedRows_eq] at hb
    rw [if_neg (fun hn => hf hn.1), if_neg (fun hn => hf hn.1)]
    exact h f i b hb

/-- A display that is told a pass to its end mirrors the session after it. -/
theorem mirrors_pass (form : Form) (h : Mirrors d v) (cx : PassContext) (force : Bool) (m : Classification) :
    Mirrors (d.followAll form (v.pass cx force m).1.events) (v.pass cx force m).2 := by
  rw [pass_events]
  have hall : Mirrors (d.followAll form ((v.resolutions cx force m).flatMap eventsOf))
      ((v.resolutions cx force m).foldl Visibility.settle v) := by
    refine Visibility.settleAll_resolutions (P := fun done w => Mirrors (d.followAll form (done.flatMap eventsOf)) w)
      (fun hr haccounts hw => ?_) h
    rw [List.flatMap_append, followAll_append, List.flatMap_singleton]
    exact mirrors_settle (fun i b hchange => Visibility.vector_of_change hr hchange) haccounts hw
  exact hall.of_applied rfl

/-- Every event of a pass is about a field of its queue. -/
theorem field_of_pass_event {p : Pass} {e : Event} (he : e ∈ p.events) : ∃ field ∈ p.queue.map (·.field),
    (∃ rows, e = .shown field rows) ∨ (∃ rows, e = .hidden field rows) ∨ e = .settled field := by
  obtain ⟨c, hc, he⟩ := List.mem_flatMap.mp he
  refine ⟨c.field, List.mem_map.mpr ⟨c, hc, rfl⟩, ?_⟩
  simp only [FieldChange.events, List.mem_append, List.mem_ite_nil_left, List.mem_singleton] at he
  rcases he with (⟨-, he⟩ | ⟨-, he⟩) | he
  · exact Or.inl ⟨c.shown, he⟩
  · exact Or.inr (Or.inl ⟨c.hidden, he⟩)
  · exact Or.inr (Or.inr he)

/-- Events of a pass tell nothing of a field that is not in its queue. -/
theorem followAll_other (form : Form) {p : Pass} {f : String} (hf : f ∉ p.queue.map (·.field)) {events : List Event}
    (h : ∀ e ∈ events, e ∈ p.events) (d : Display) : d.followAll form events f = d f := by
  induction events generalizing d with
  | nil => rfl
  | cons e rest ih =>
    obtain ⟨he, hrest⟩ := List.forall_mem_cons.mp h
    rw [followAll, List.foldl_cons]
    refine (ih hrest _).trans ?_
    obtain ⟨field, hfield, ⟨rows, rfl⟩ | ⟨rows, rfl⟩ | rfl⟩ := field_of_pass_event he
    · have hne : f ≠ field := fun hn => hf (hn ▸ hfield)
      funext i
      simp [follow, mark, hne]
    · have hne : f ≠ field := fun hn => hf (hn ▸ hfield)
      funext i
      simp [follow, mark, hne]
    · rfl

/-- A display that is told the beginning of a pass mirrors the session once the fields of the pass are
    forgotten. -/
theorem mirrors_refused {told rest : List Event} {cx : PassContext} {force : Bool} {m : Classification}
    (h : Mirrors d v) (htold : told ++ rest = (v.pass cx force m).1.events) :
    Mirrors (d.followAll form told) ((v.pass cx force m).2.forget ((v.pass cx force m).1.queue.map (·.field))) := by
  intro f i b hb
  rw [Visibility.appliedRows_eq, Visibility.getElem?_applied_forget] at hb
  split at hb
  · simp at hb
  · rename_i hf
    rw [followAll_other form hf fun e he => htold ▸ List.mem_append_left rest he]
    rw [← followAll_other form hf (fun e he => he) d]
    rw [← Visibility.appliedRows_eq] at hb
    exact mirrors_pass form h cx force m f i b hb

end Display

/-! ### Turns -/

theorem Form.groupFields_nodup (form : Form) (group : String) : (form.groupFields group).Nodup := by
  rw [Form.groupFields]
  cases hg : form.schema.group? group with
  | none => exact List.nodup_nil
  | some g => exact (Schema.problems_eq_nil_iff.mp form.valid).fields_nodup (Schema.group?_eq_some hg).1

section Turns
variable {η : Type} [EditHook η] {form : Form} {b b' : List Task} {s s' : Session η} {ms : List Moment}
  {ds : List Deed} {d : Display}

/-- A display that follows what a turn tells still mirrors the session. -/
theorem Turn.mirrors (h : Turn form b s ms ds b' s') (hd : d.Mirrors s.visibility) :
    (ms.foldl (Display.see form) d).Mirrors s'.visibility := by
  have nodup := form.groupFields_nodup
  cases h with
  | unchanged => exact hd
  | changed c change serves told =>
    rw [List.foldl_cons, Display.see_moments, told]
    exact Display.mirrors_followMoves nodup hd
  | seeded told =>
    rw [Display.see_moments, told]
    exact Display.mirrors_followMoves nodup hd
  | entered cache onStep tracker told =>
    rw [Display.see_moments, told]
    exact Display.mirrors_followRows (nodup _) hd _
  | rebuilt found tracker told =>
    rw [Display.see_moments, told]
    exact Display.mirrors_followRows (nodup _) hd _
  | passed m force told =>
    rw [List.foldl_append, Session.foldl_resolvedAt fun _ _ _ => rfl, Display.see_moments, told]
    exact Display.mirrors_pass form hd _ _ _
  | refused m force told =>
    rw [List.foldl_append, Session.foldl_resolvedAt fun _ _ _ => rfl, Display.see_moments, Told.events_append]
    exact Display.mirrors_refused hd ((List.append_assoc ..).trans told)
  | began => exact hd
  | cleared => exact hd
  | displayed step =>
    -- Nothing counts as applied then, so there is nothing for the display to know.
    intro f i b hb
    simp [Visibility.appliedRows_eq, Session.display, Visibility.resetTracking] at hb
  | took => exact hd
  | dropped => exact hd
  | committed => exact hd

variable {trace : List Moment}

/-- A display that only follows the events it is told knows of every row that the session counts as applied,
    and whether it is shown, after whatever was done with the session. -/
theorem display_mirrors {store : Store η} (h : History form (.new form store) trace s) (f : String) (i : Nat)
    (hi : i < (s.visibility.appliedRows f).length) :
    Display.after form trace f i = some (s.visibility.appliedRows f)[i] := by
  have hmirrors : (Display.after form trace).Mirrors s.visibility := by
    refine h.keep (P := fun _ s trace => (Display.after form trace).Mirrors s.visibility) ?_ ?_ ?_
    · intro b s ms ds b' s' ht trace hd
      rw [Display.after_append]
      exact ht.mirrors hd
    · exact fun _ hd => hd
    · intro f i b hb
      simp [Visibility.appliedRows_eq, Session.new, Visibility.empty] at hb
  exact hmirrors f i _ (List.getElem?_eq_getElem hi)

/-- The second vehicle was filled in, and its garage is shown. -/
theorem display_mirrors_vehicleFilled :
    Display.after vehicleForm ([] ++ vehicleStarted.2.trace ++ vehicleFilled.2.trace) "garage_zip" 1 = some true := by
  have hi : 1 < (vehicleFilled.2.session.visibility.appliedRows "garage_zip").length := by decide +kernel
  have hshown : (vehicleFilled.2.session.visibility.appliedRows "garage_zip")[1]? = some true := by decide +kernel
  rw [display_mirrors history_vehicleFilled "garage_zip" 1 hi, ← List.getElem?_eq_getElem hi, hshown]

end Turns

end FormSession
