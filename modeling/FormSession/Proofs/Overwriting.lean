import FormSession.Proofs.Quiet
import FormSession.Proofs.Retelling

/-! # What a pass writes when it is told again

A row that is hidden is corrected only if it was not known before, and a row that is shown only if it was not shown
before. When a refused pass is told again nothing is known of its fields, so that rows of them are corrected besides
those that the pass would have corrected the first time (`Overwrites`, `repeated_corrections`). -/

namespace FormSession
open FormSession.Resolution (correction?)

/-- A row was known before, so that a pass leaves its value as it is; a pass to which the row is new writes. -/
inductive Overwrites (rules : FieldRules) (field : String) (values : List String) (before after : List Bool) (i : Nat) :
    String → Prop
  /-- The row is hidden: what it holds gives way to the sentinel. -/
  | hidden (known : i < before.length) (hidden : after[i]? = some false)
    (applicable : (rules.spec field).na.isApplicable) (answered : values[i]? ≠ some rules.naValue) :
    Overwrites rules field values before after i rules.naValue
  /-- The row was shown and is shown: the sentinel that it holds gives way to its default. -/
  | shown (known : before[i]? = some true) (shown : after[i]? = some true)
    (sentinel : values[i]? = some rules.naValue) (answer : (rules.spec field).default ≠ rules.naValue) :
    Overwrites rules field values before after i (rules.spec field).default

section Rows
variable {rules : FieldRules} {field : String} {values : List String} {before after : List Bool} {i known : Nat}
  {w : String}

theorem correction?_shown : correction? rules field values known i true = some w ↔
    values[i]? = some rules.naValue ∧ (rules.spec field).default ≠ rules.naValue ∧ (rules.spec field).default = w := by
  simp [correction?, and_assoc]

theorem correction?_hidden : correction? rules field values known i false = some w ↔
    (rules.spec field).na.isApplicable ∧ known ≤ i ∧ values[i]? ≠ some rules.naValue ∧ rules.naValue = w := by
  simp [correction?, and_assoc]

/-- What a row needs if it is new: what it needs in any case, or what replaces its value. -/
theorem correction?_new_iff {visible : Bool} (hrow : after[i]? = some visible) :
    correction? rules field values 0 i visible = some w ↔
      (before[i]? ≠ some visible ∧ correction? rules field values before.length i visible = some w) ∨
        Overwrites rules field values before after i w := by
  -- Whether a shown row was known does not matter to what it needs, only to whether it is told.
  cases visible with
  | true =>
    rw [correction?_shown, correction?_shown]
    constructor
    · rintro ⟨hvalue, hdefault, rfl⟩
      by_cases hknown : before[i]? = some true
      · exact Or.inr (.shown hknown hrow hvalue hdefault)
      · exact Or.inl ⟨hknown, hvalue, hdefault, rfl⟩
    · rintro (⟨-, hneeds⟩ | hover)
      · exact hneeds
      · cases hover with
        | hidden _ hhidden => cases hrow.symm.trans hhidden
        | shown _ _ hvalue hdefault => exact ⟨hvalue, hdefault, rfl⟩
  | false =>
    rw [correction?_hidden, correction?_hidden]
    constructor
    · rintro ⟨happlicable, -, hvalue, rfl⟩
      by_cases hknown : i < before.length
      · exact Or.inr (.hidden hknown hrow happlicable hvalue)
      · refine Or.inl ⟨?_, happlicable, Nat.le_of_not_lt hknown, hvalue, rfl⟩
        rw [List.getElem?_eq_none (Nat.le_of_not_lt hknown)]
        simp
    · rintro (⟨-, happlicable, -, hvalue, hw⟩ | hover)
      · exact ⟨happlicable, Nat.zero_le i, hvalue, hw⟩
      · cases hover with
        | hidden _ _ happlicable hvalue => exact ⟨happlicable, Nat.zero_le i, hvalue, rfl⟩
        | shown _ hshown => cases hrow.symm.trans hshown

/-- A pass that knows the row does not replace its value. -/
theorem Overwrites.not_corrected {visible : Bool} (h : Overwrites rules field values before after i w)
    (hrow : after[i]? = some visible) (hnew : before[i]? ≠ some visible) :
    correction? rules field values before.length i visible ≠ some w := by
  intro hneeds
  cases h with
  | hidden hknown hhidden =>
    cases hrow.symm.trans hhidden
    exact absurd hknown (Nat.not_lt.mpr (correction?_hidden.mp hneeds).2.1)
  | shown hknown hshown =>
    cases hrow.symm.trans hshown
    exact hnew hknown

end Rows

namespace Resolution
variable {cx : PassContext} {previous : List Bool} {field : String} {verdict : Verdict} {i : Nat} {w : String}

theorem corrections_resolve : (resolve cx false previous field verdict).corrections =
    (resolve cx false previous field verdict).vector.zipIdx.filterMap fun x =>
      if previous[x.2]? ≠ some x.1 then
        (correction? cx.rules field (cx.values field) previous.length x.2 x.1).map (x.2, ·)
      else none := by
  show (changesOf false previous _).filterMap _ = _
  rw [changesOf, List.filterMap_filterMap]
  refine List.filterMap_congr fun x _ => ?_
  by_cases hrow : previous[x.2]? = some x.1 <;> simp [hrow]

theorem mem_corrections : (i, w) ∈ (resolve cx false previous field verdict).corrections ↔
    ∃ visible, (resolve cx false previous field verdict).vector[i]? = some visible ∧ previous[i]? ≠ some visible ∧
      correction? cx.rules field (cx.values field) previous.length i visible = some w := by
  rw [mem_corrections_iff]
  simp [mem_resolve_changes, and_assoc]

/-- A field of which nothing is known gets the corrections it would get otherwise, and those of rows that were known. -/
theorem mem_corrections_new : (i, w) ∈ (resolve cx false [] field verdict).corrections ↔
    (i, w) ∈ (resolve cx false previous field verdict).corrections ∨
      Overwrites cx.rules field (cx.values field) previous (resolve cx false previous field verdict).vector i w := by
  have hvector : (resolve cx false [] field verdict).vector = (resolve cx false previous field verdict).vector := rfl
  rw [mem_corrections, mem_corrections, hvector]
  constructor
  · rintro ⟨visible, hrow, -, hneeds⟩
    rcases (correction?_new_iff hrow).mp hneeds with ⟨hnew, hneeds⟩ | hover
    · exact Or.inl ⟨visible, hrow, hnew, hneeds⟩
    · exact Or.inr hover
  · rintro (⟨visible, hrow, hnew, hneeds⟩ | hover)
    · exact ⟨visible, hrow, by simp, (correction?_new_iff hrow).mpr (Or.inl ⟨hnew, hneeds⟩)⟩
    · obtain ⟨visible, hrow⟩ : ∃ visible, (resolve cx false previous field verdict).vector[i]? = some visible := by
        cases hover with
        | hidden _ hhidden => exact ⟨false, hhidden⟩
        | shown _ hshown => exact ⟨true, hshown⟩
      exact ⟨visible, hrow, by simp, (correction?_new_iff hrow).mpr (Or.inr hover)⟩

theorem corrections_new (h : ∀ i w, ¬Overwrites cx.rules field (cx.values field) previous
    (resolve cx false previous field verdict).vector i w) :
    (resolve cx false [] field verdict).corrections = (resolve cx false previous field verdict).corrections := by
  have hvector : (resolve cx false [] field verdict).vector = (resolve cx false previous field verdict).vector := rfl
  rw [corrections_resolve, corrections_resolve, hvector]
  refine List.filterMap_congr fun x hx => ?_
  obtain ⟨visible, i⟩ := x
  have hrow := List.mk_mem_zipIdx_iff_getElem?.mp hx
  -- Row by row: what the row needs if it is new, it needs in any case.
  have hneeds : ∀ w, correction? cx.rules field (cx.values field) 0 i visible = some w ↔ previous[i]? ≠ some visible ∧
      correction? cx.rules field (cx.values field) previous.length i visible = some w := fun w =>
    (correction?_new_iff hrow).trans (or_iff_left (h i w))
  show (if ([] : List Bool)[i]? ≠ some visible then Option.map (i, ·) _ else none) =
    if previous[i]? ≠ some visible then Option.map (i, ·) _ else none
  rw [if_pos (by simp)]
  by_cases hnew : previous[i]? = some visible
  · rw [if_neg (not_not.mpr hnew), Option.map_eq_none_iff, Option.eq_none_iff_forall_ne_some]
    exact fun w hw => ((hneeds w).mp hw).1 hnew
  · rw [if_pos hnew]
    exact congrArg _ (Option.ext fun w => (hneeds w).trans (and_iff_right hnew))

end Resolution

namespace Visibility
variable {v : Visibility} {cx : PassContext} {force : Bool} {m : Classification} {f : String} {i : Nat} {w : String}

theorem mem_corrections_afresh {r : Resolution} (hr : r ∈ v.resolutions cx false m) :
    (i, w) ∈ (r.afresh cx).corrections ↔ (i, w) ∈ r.corrections ∨
      Overwrites cx.rules r.field (cx.values r.field) (v.appliedRows r.field) r.vector i w := by
  obtain ⟨f, verdict, -, -, -, rfl⟩ := mem_resolutions.mp hr
  exact Resolution.mem_corrections_new

theorem corrections_afresh {r : Resolution} (hr : r ∈ v.resolutions cx false m)
    (h : ∀ i w, ¬Overwrites cx.rules r.field (cx.values r.field) (v.appliedRows r.field) r.vector i w) :
    (r.afresh cx).corrections = r.corrections := by
  obtain ⟨f, verdict, -, -, -, rfl⟩ := mem_resolutions.mp hr
  exact Resolution.corrections_new h

theorem notMem_corrections {r : Resolution} (hr : r ∈ v.resolutions cx false m)
    (h : Overwrites cx.rules r.field (cx.values r.field) (v.appliedRows r.field) r.vector i w) :
    (i, w) ∉ r.corrections := by
  obtain ⟨f, verdict, -, -, -, rfl⟩ := mem_resolutions.mp hr
  intro hmem
  obtain ⟨visible, hrow, hnew, hneeds⟩ := Resolution.mem_corrections.mp hmem
  exact h.not_corrected hrow hnew hneeds

theorem slotAt_corrections : FieldEdit.slotAt ((v.pass cx force m).1.corrections.getD f []) i = .write w ↔
    ∃ r ∈ v.resolutions cx force m, r.field = f ∧ (i, w) ∈ r.corrections := by
  rw [Std.ExtTreeMap.getD_eq_getD_getElem?]
  constructor
  · intro hwrite
    cases hx : (v.pass cx force m).1.corrections[f]? with
    | none => simp [hx] at hwrite
    | some x =>
      obtain ⟨r, hr, hfield, -, rfl⟩ := exists_of_getElem?_pass_corrections hx
      rw [hx, Option.getD_some, FieldEdit.slotAt_writeEach_iff (nodup_corrections hr)] at hwrite
      exact ⟨r, hr, hfield, hwrite⟩
  · rintro ⟨r, hr, rfl, hmem⟩
    rw [getElem?_corrections hr, if_neg (List.ne_nil_of_mem hmem), Option.getD_some,
      FieldEdit.slotAt_writeEach_iff (nodup_corrections hr)]
    exact hmem

/-- Told again, a pass writes what it would have written the first time, and to rows that were known before. -/
theorem slotAt_corrections_refused :
    FieldEdit.slotAt (((v.refused cx false m).pass cx false m).1.corrections.getD f []) i = .write w ↔
      FieldEdit.slotAt ((v.pass cx false m).1.corrections.getD f []) i = .write w ∨
        (f ∈ (v.pass cx false m).1.fields ∧ Overwrites cx.rules f (cx.values f) (v.appliedRows f)
          ((v.pass cx false m).2.appliedRows f) i w) := by
  rw [slotAt_corrections, slotAt_corrections]
  constructor
  · rintro ⟨r, hr, rfl, hmem⟩
    obtain ⟨r₀, hr₀, hchanges, rfl⟩ := mem_resolutions_refused.mp hr
    rcases (mem_corrections_afresh hr₀).mp hmem with hmem | hover
    · exact Or.inl ⟨r₀, hr₀, rfl, hmem⟩
    · rw [← appliedRows_pass hr₀] at hover
      exact Or.inr ⟨mem_pass_fields.mpr ⟨r₀, hr₀, hchanges, rfl⟩, hover⟩
  · rintro (⟨r, hr, rfl, hmem⟩ | ⟨hf, hover⟩)
    · have hchanges := changes_ne_nil hr (List.ne_nil_of_mem hmem)
      exact ⟨r.afresh cx, mem_resolutions_refused.mpr ⟨r, hr, hchanges, rfl⟩, rfl,
        (mem_corrections_afresh hr).mpr (Or.inl hmem)⟩
    · obtain ⟨r, hr, hchanges, rfl⟩ := mem_pass_fields.mp hf
      rw [appliedRows_pass hr] at hover
      exact ⟨r.afresh cx, mem_resolutions_refused.mpr ⟨r, hr, hchanges, rfl⟩, rfl,
        (mem_corrections_afresh hr).mpr (Or.inr hover)⟩

theorem not_slotAt_corrections (h : Overwrites cx.rules f (cx.values f) (v.appliedRows f)
    ((v.pass cx false m).2.appliedRows f) i w) :
    FieldEdit.slotAt ((v.pass cx false m).1.corrections.getD f []) i ≠ .write w := by
  intro hwrite
  obtain ⟨r, hr, rfl, hmem⟩ := slotAt_corrections.mp hwrite
  rw [appliedRows_pass hr] at h
  exact notMem_corrections hr h hmem

theorem corrections_refused_iff :
    ((v.refused cx false m).pass cx false m).1.corrections = (v.pass cx false m).1.corrections ↔
      ∀ f ∈ (v.pass cx false m).1.fields, ∀ i w, ¬Overwrites cx.rules f (cx.values f) (v.appliedRows f)
        ((v.pass cx false m).2.appliedRows f) i w := by
  constructor
  · intro hsame f hf i w hover
    refine not_slotAt_corrections hover ?_
    rw [← hsame]
    exact slotAt_corrections_refused.mpr (Or.inr ⟨hf, hover⟩)
  · intro hnone
    refine Std.ExtTreeMap.ext_getElem? fun f => ?_
    by_cases hf : f ∈ (v.pass cx false m).1.fields
    · have hover := hnone f hf
      obtain ⟨r, hr, hchanges, rfl⟩ := mem_pass_fields.mp hf
      have hr' : r.afresh cx ∈ (v.refused cx false m).resolutions cx false m :=
        mem_resolutions_refused.mpr ⟨r, hr, hchanges, rfl⟩
      rw [appliedRows_pass hr] at hover
      refine (getElem?_corrections hr').trans ?_
      rw [getElem?_corrections hr, corrections_afresh hr hover]
    · -- A field that was not told is not forgotten, and neither pass has a row of it to correct.
      have hfirst : (v.pass cx false m).1.corrections[f]? = none := by
        rw [Option.eq_none_iff_forall_ne_some]
        intro x hx
        obtain ⟨r, hr, hrf, hne, -⟩ := exists_of_getElem?_pass_corrections hx
        exact hf (mem_pass_fields.mpr ⟨r, hr, changes_ne_nil hr hne, hrf⟩)
      have hagain : ((v.refused cx false m).pass cx false m).1.corrections[f]? = none := by
        rw [Option.eq_none_iff_forall_ne_some]
        intro x hx
        obtain ⟨r, hr, hrf, -, -⟩ := exists_of_getElem?_pass_corrections hx
        obtain ⟨r₀, hr₀, hchanges, rfl⟩ := mem_resolutions_refused.mp hr
        exact hf (mem_pass_fields.mpr ⟨r₀, hr₀, hchanges, hrf⟩)
      rw [hfirst, hagain]

end Visibility

/-! ### A classification that is repeated -/

section Repeats
variable {η σ τ υ : Type} [EditHook η] [Sink σ] [Sink τ] [Sink υ] {form : Form} {s : Session η} {m : Classification}
  {sink : σ} {sink' : τ} {sink'' : υ} {failed : Run η σ} {told : Run η τ} {reply : Reply} {store : Store η}

omit [Sink τ] [Sink υ] in
theorem Operation.apply_of_quiet {force : Bool} (quiet : Quiet ((apply m force).perform form s sink).2.trace) :
    ∃ r, (apply m force).perform form s sink = (.ok .done, r) ∧ r.session = s.classified form m force := by
  have hunfold : (apply m force).perform form s sink =
      (Action.apply form m force >>= fun _ => pure Reply.done).perform ⟨s, sink, []⟩ := rfl
  rw [hunfold] at quiet ⊢
  rw [Action.run_return] at quiet
  obtain ⟨⟨⟩, k, ms, hrun⟩ := Action.ends_apply quiet
  rw [Action.perform_bind, hrun]
  exact ⟨_, rfl, rfl⟩

/-- If a pass is refused, and the classification is applied again to the same values with a quiet receiver, what is
    then queued writes all that would have been queued if the first pass had been told to its end, and besides it the
    rows of the fields of the pass that were known before and whose values the first pass would have left
    (`Overwrites`). The same is queued exactly if there is no such row. -/
theorem repeated_corrections
    (refused : (Operation.apply m false).perform form s sink = (.error .classificationRecursion, failed))
    (succeeded : (Operation.apply m false).perform form s sink' = (.ok reply, told))
    (unchanged : ∀ f, store.values f = failed.session.store.values f)
    (quiet : Quiet ((Operation.apply m false).perform form { failed.session with store } sink'').2.trace) :
    ∃ (t : Told) (again : Run η υ) (p q : Pass),
      p = (s.passAt form m false).1 ∧ q = (({ failed.session with store } : Session η).passAt form m false).1 ∧
      (Operation.apply m false).perform form { failed.session with store } sink'' = (.ok .done, again) ∧
      told.trace = s.resolvedAt form m false ++ t.moments .applying ∧
      told.session.queue = (t.queued s.queue).corrected p ∧
      again.session.queue = failed.session.queue.corrected q ∧
      (∀ f i w, FieldEdit.slotAt (q.corrections.getD f []) i = .write w ↔
        FieldEdit.slotAt (p.corrections.getD f []) i = .write w ∨
          (f ∈ p.fields ∧ Overwrites form.rules f (s.store.values f) (s.visibility.appliedRows f)
            (told.session.visibility.appliedRows f) i w)) ∧
      (q.corrections = p.corrections ↔ ∀ f ∈ p.fields, ∀ i w,
        ¬Overwrites form.rules f (s.store.values f) (s.visibility.appliedRows f)
          (told.session.visibility.appliedRows f) i w) := by
  obtain ⟨t₀, last, k, -, rfl⟩ := Operation.refused_of_apply refused
  obtain ⟨t, k', -, rfl⟩ := Operation.passed_of_apply succeeded
  let failed := Action.refused form m false t₀ last k (⟨s, sink, []⟩ : Run η σ)
  -- A refused pass leaves the step, the rows and the values, so the repeated one looks up the same.
  have hcontext : ({ failed.session with store } : Session η).passContext form = s.passContext form := by
    show PassContext.mk s.activeFields store.values form.rules (s.rendered? form) = _
    rw [funext unchanged]
    rfl
  have hpass : ({ failed.session with store } : Session η).passAt form m false =
      (s.visibility.refused (s.passContext form) false m).pass (s.passContext form) false m :=
    congrArg (fun cx => Visibility.pass _ cx false m) hcontext
  obtain ⟨again, hagain, hsession⟩ := Operation.apply_of_quiet quiet
  refine ⟨t, again, _, _, rfl, rfl, hagain, rfl, rfl, by rw [hsession]; rfl, fun f i w => ?_, ?_⟩
  · rw [hpass]
    exact Visibility.slotAt_corrections_refused
  · rw [hpass]
    exact Visibility.corrections_refused_iff

end Repeats

/-! ### A note that is lost -/

/-- A form with one field, which is shown, and counts as not applicable where it is hidden. -/
def noteForm : Form where
  schema :=
    { Schema.empty with
      registry := (∅ : Registry).insert "note" ⟨"", .onHide, false⟩
      steps := [⟨"delivery", ["note"]⟩] }
  valid := by decide +kernel
  classify _ := (∅ : Classification).insert "note" (.uniform true)

/-- The start shows the note. -/
def noteStarted : Except SessionError Reply × Run Empty SilentSink :=
  Operation.start.perform noteForm (.new noteForm (.ofCommitted ((∅ : FieldValues).insert "note" ["ring twice"]))) ⟨⟩

/-- The note is to be hidden. -/
def noNote : Classification := (∅ : Classification).insert "note" (.uniform false)

/-- A classification is asked for when the note is hidden. -/
def noteRefused : Except SessionError Reply × Run Empty ScriptedSink :=
  (Operation.apply noNote false).perform noteForm noteStarted.2.session ⟨[[.classify]]⟩

/-- What had been if nothing had been asked for. -/
def noteHidden : Except SessionError Reply × Run Empty SilentSink :=
  (Operation.apply noNote false).perform noteForm noteStarted.2.session ⟨⟩

/-- The pass is repeated once it was refused. -/
def noteRepeated : Except SessionError Reply × Run Empty SilentSink :=
  (Operation.apply noNote false).perform noteForm noteRefused.2.session ⟨⟩

theorem repeated_corrections_noteRepeated : ∃ q : Pass,
    noteRepeated.2.session.queue = noteRefused.2.session.queue.corrected q ∧
      FieldEdit.slotAt (q.corrections.getD "note" []) 0 = .write "N/A" := by
  have refused : (Operation.apply noNote false).perform noteForm noteStarted.2.session
      (⟨[[.classify]]⟩ : ScriptedSink) = (.error .classificationRecursion, noteRefused.2) := by
    have herror : noteRefused.1 = .error .classificationRecursion := by decide +kernel
    rw [← herror, noteRefused]
  have succeeded : (Operation.apply noNote false).perform noteForm noteStarted.2.session SilentSink.mk =
      (.ok .done, noteHidden.2) := by
    have hok : noteHidden.1 = .ok .done := by decide +kernel
    rw [← hok, noteHidden]
  have quiet : Quiet noteRepeated.2.trace := by decide +kernel
  obtain ⟨t, again, p, q, rfl, rfl, hagain, -, -, hqueue, hwrites, -⟩ :=
    repeated_corrections refused succeeded (fun _ => rfl) quiet
  have hrun : noteRepeated = (.ok .done, again) := hagain
  rw [hrun]
  refine ⟨_, hqueue, (hwrites "note" 0 "N/A").mpr (Or.inr ⟨?_, ?_⟩)⟩
  · decide +kernel
  · exact .hidden (by decide +kernel) (by decide +kernel) (by decide +kernel) (by decide +kernel)

/-- If the note is hidden at once it keeps its value. If the first pass is refused and the classification is applied
    again, the sentinel is to be written over it, and after a flush the value is gone. -/
theorem hidden_note_lost :
    noteStarted.1 = .ok .done ∧ noteStarted.2.session.visibility.appliedRows "note" = [true] ∧
      noteStarted.2.session.queue.edits = [] ∧ noteRefused.1 = .error .classificationRecursion ∧
      noteHidden.1 = .ok .done ∧ noteHidden.2.session.queue.edits = [] ∧
      noteRepeated.1 = .ok .done ∧ Quiet noteRepeated.2.trace ∧
      noteRepeated.2.session.store.values "note" = ["ring twice"] ∧
      noteRepeated.2.session.queue.edits = [(∅ : FormEdit).insert "note" [.write "N/A"]] ∧
      (Operation.flush.perform noteForm noteRepeated.2.session SilentSink.mk).1 = .ok (.batches 2) ∧
      (Operation.flush.perform noteForm noteRepeated.2.session SilentSink.mk).2.session.store.values "note" = [""] := by
  decide +kernel

end FormSession
