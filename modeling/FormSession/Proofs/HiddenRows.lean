import FormSession.Proofs.Coverage
import FormSession.Proofs.Ledger

/-! # The ledger, the applied rows and the classification agree

What is known of a row and whether the ledger lists it change together: when rows of a group go away, both move
down, and a pass marks exactly the rows that it shows or hides. A rule on both that holds of rows just marked, and
of rows of which nothing is known, therefore lasts until the ledger is cleared (`Turn.rows`). So no listed row is
shown, and as long as no clear has run since tracking was reset, every hidden row is listed (`ledger_agrees`). -/

namespace FormSession

/-! ### Rules on rows -/

/-- A rule on what is known of a row and on whether the ledger lists it, which says nothing of unknown rows and
    holds of rows just marked. -/
structure RowRule (P : Option Bool → Bool → Prop) : Prop where
  unknown : ∀ listed, P none listed
  marked : ∀ visible, P (some visible) (!visible)

namespace Visibility

/-- A rule holds of every row of every field. -/
def Obeys (v : Visibility) (P : Option Bool → Bool → Prop) : Prop :=
  ∀ f i, P (v.appliedRows f)[i]? (v.ledger.contains f i)

variable {P : Option Bool → Bool → Prop} {v w : Visibility} {form : Form} {fields : List String}

theorem obeys_of_unknown (hP : RowRule P) (h : v.applied = ∅) : v.Obeys P := by
  intro f i
  simpa [appliedRows, h] using hP.unknown _

theorem Obeys.same (h : v.Obeys P) (happlied : w.applied = v.applied) (hledger : w.ledger = v.ledger) : w.Obeys P := by
  intro f i
  rw [appliedRows, happlied, hledger]
  exact h f i

theorem Obeys.forget (hP : RowRule P) (h : v.Obeys P) (fields : List String) : (v.forget fields).Obeys P := by
  intro f i
  rw [appliedRows_eq, getElem?_applied_forget]
  split
  · exact hP.unknown _
  · rw [← appliedRows_eq]
    exact h f i

theorem contains_removeRow (v : Visibility) (field : String) (k : Nat) (f : String) (i : Nat) :
    (v.removeRow field k).ledger.contains f i =
      v.ledger.contains f (if field = f then (if i < k then i else i + 1) else i) := by
  refine (Ledger.contains_removeRow v.ledger field k f i).trans ?_
  split <;> rfl

/-- The applied rows of a field and its listed rows move down together. -/
theorem Obeys.removeRow (h : v.Obeys P) (field : String) (k : Nat) : (v.removeRow field k).Obeys P := by
  intro f i
  have hrow := h f (if field = f then (if i < k then i else i + 1) else i)
  have happlied : ((v.removeRow field k).appliedRows f)[i]? =
      (v.appliedRows f)[if field = f then (if i < k then i else i + 1) else i]? := by
    rw [appliedRows_eq, getElem?_applied_removeRow, appliedRows_eq]
    by_cases hf : field = f
    · subst hf
      rw [if_pos rfl, if_pos rfl]
      cases v.applied[field]? with
      | none => rfl
      | some rows =>
        simp only [Option.map_some, Option.getD_some, List.getElem?_eraseIdx]
        split <;> rfl
    · rw [if_neg (Ne.symm hf), if_neg hf]
  rw [happlied, contains_removeRow]
  exact hrow

theorem obeys_staysFollowing (hP : RowRule P) : StaysFollowing (·.Obeys P) where
  removeRow field i h := h.removeRow field i
  forget fields h := h.forget hP fields
  invalidate _ h := h.same rfl rfl

/-! ### Passes -/

/-- The rows found for a field are those marked, and those that are as they were. -/
theorem Obeys.settle (hP : RowRule P) (h : v.Obeys P) {r : Resolution} (hrows : (r.changes.map (·.1)).Nodup)
    (hsound : ∀ i b, (i, b) ∈ r.changes → r.vector[i]? = some b)
    (haccounts : v.Accounts r) :
    (v.settle r).Obeys P := by
  intro f i
  show P _ ((v.ledger.marks r.field r.changes).contains f i)
  rw [appliedRows_eq, getElem?_applied_settle]
  by_cases hf : r.field = f
  · subst hf
    rw [if_pos rfl, Option.getD_some]
    cases hb : r.vector[i]? with
    | none => exact hP.unknown _
    | some b =>
      -- A row that the pass does not tell is as it was, and so is its mark.
      by_cases hchange : (i, b) ∈ r.changes
      · have hlisted : (v.ledger.marks r.field r.changes).contains r.field i = !b := by
          rw [Bool.eq_iff_iff, Ledger.contains_marks hrows hchange]
          cases b <;> simp
        rw [hlisted]
        exact hP.marked b
      · have hnot : i ∉ r.changes.map (·.1) := fun hmem => by
          obtain ⟨⟨j, b'⟩, hj, rfl⟩ := List.mem_map.mp hmem
          have hsame : some b = some b' := hb.symm.trans (hsound j b' hj)
          cases hsame
          exact hchange hj
        have hlisted : (v.ledger.marks r.field r.changes).contains r.field i = v.ledger.contains r.field i := by
          rw [Bool.eq_iff_iff]
          exact Ledger.contains_marks_of_notMem fun _ => hnot
        rw [hlisted, ← (haccounts i b hb).resolve_left hchange]
        exact h r.field i
  · have hlisted : (v.ledger.marks r.field r.changes).contains f i = v.ledger.contains f i := by
      rw [Bool.eq_iff_iff]
      exact Ledger.contains_marks_of_notMem fun hn => absurd hn hf
    rw [if_neg hf, hlisted, ← appliedRows_eq]
    exact h f i

theorem Obeys.pass (hP : RowRule P) (h : v.Obeys P) (cx : PassContext) (force : Bool) (m : Classification) :
    (v.pass cx force m).2.Obeys P := by
  have hall : ((v.resolutions cx force m).foldl Visibility.settle v).Obeys P := by
    refine settleAll_resolutions (P := fun _ w => w.Obeys P) (fun hr haccounts hw => ?_) h
    exact hw.settle hP (nodup_changes hr) (fun i b hchange => vector_of_change hr hchange) haccounts
  exact hall.same rfl rfl

/-! ### Rows of fields that are not displayed -/

/-- Rows are applied to displayed fields only. -/
def Within (v : Visibility) (active : NameSet) : Prop := ∀ f, f ∉ active → v.applied[f]? = none

variable {active : NameSet}

theorem Within.forget (h : v.Within active) (fields : List String) : (v.forget fields).Within active := by
  intro f hf
  rw [getElem?_applied_forget, h f hf, ite_self]

theorem within_staysFollowing (active : NameSet) : StaysFollowing (·.Within active) where
  removeRow field i h f hf := by rw [getElem?_applied_removeRow, h f hf, Option.map_none, ite_self]
  forget fields h := h.forget fields
  invalidate _ h := h

theorem Within.pass {cx : PassContext} (h : v.Within cx.active) (force : Bool) (m : Classification) :
    (v.pass cx force m).2.Within cx.active := by
  intro f hf
  have hother : ∀ r ∈ v.resolutions cx force m, r.field ≠ f := by
    intro r hr hrf
    obtain ⟨verdict, -, hactive, -, -⟩ := resolution_of_field hr hrf
    exact hf hactive
  rw [getElem?_applied_pass_of_notMem hother, h f hf]

end Visibility

/-! ### Turns -/

section Turns
variable {η : Type} [EditHook η] {form : Form} {b b' : List Task} {s s' : Session η} {ms : List Moment} {ds : List Deed}
  {P : Option Bool → Bool → Prop}

/-- A rule lasts through every turn, except that a clear may end it. -/
theorem Turn.obeys (hP : RowRule P) (h : Turn form b s ms ds b' s')
    (hcleared : .cleared ∈ ds → ∀ known, P known false) (hs : s.visibility.Obeys P) : s'.visibility.Obeys P := by
  cases h with
  | unchanged => exact hs
  | changed => exact (Visibility.obeys_staysFollowing hP).followMoves hs form _
  | seeded => exact (Visibility.obeys_staysFollowing hP).followMoves hs form _
  | entered => exact (Visibility.obeys_staysFollowing hP).followRows hs _ _
  | rebuilt => exact (Visibility.obeys_staysFollowing hP).followRows hs _ _
  | passed m force => exact hs.pass hP _ force m
  | refused m force => exact (hs.pass hP _ force m).forget hP _
  | began => exact hs
  | cleared =>
    intro f i
    show P _ (s.visibility.ledger.clear.contains f i)
    rw [Ledger.contains_clear]
    exact hcleared List.mem_cons_self _
  | displayed => exact Visibility.obeys_of_unknown hP rfl
  | took => exact hs
  | dropped => exact hs
  | committed => exact hs

theorem Turns.obeys (hP : RowRule P) (h : Turns form b s ms ds b' s')
    (hcleared : .cleared ∈ ds → ∀ known, P known false) (hs : s.visibility.Obeys P) : s'.visibility.Obeys P := by
  induction h with
  | refl => exact hs
  | tail _ ht ih =>
    have hbefore := ih fun hmem => hcleared (List.mem_append_left _ hmem)
    exact ht.obeys hP (fun hmem => hcleared (List.mem_append_right _ hmem)) hbefore

theorem Turn.within (h : Turn form b s ms ds b' s') (hs : s.visibility.Within s.activeFields) :
    s'.visibility.Within s'.activeFields := by
  cases h with
  | unchanged => exact hs
  | changed => exact (Visibility.within_staysFollowing _).followMoves hs form _
  | seeded => exact (Visibility.within_staysFollowing _).followMoves hs form _
  | entered => exact (Visibility.within_staysFollowing _).followRows hs _ _
  | rebuilt => exact (Visibility.within_staysFollowing _).followRows hs _ _
  | passed m force => exact Visibility.Within.pass hs force m
  | refused m force => exact (Visibility.Within.pass hs force m).forget _
  | began => exact hs
  | cleared => exact hs
  | displayed => exact fun f _ => by simp [Session.display, Visibility.resetTracking]
  | took => exact hs
  | dropped => exact hs
  | committed => exact hs

/-! ### What holds of every session -/

/-- A listed row is not shown. -/
def ListedHidden (known : Option Bool) (listed : Bool) : Prop := listed = true → known ≠ some true

/-- A hidden row is listed. -/
def HiddenListed (known : Option Bool) (listed : Bool) : Prop := known = some false → listed = true

theorem rowRule_listedHidden : RowRule ListedHidden where
  unknown _ _ := by simp
  marked visible := by cases visible <;> simp [ListedHidden]

theorem rowRule_hiddenListed : RowRule HiddenListed where
  unknown _ := by simp [HiddenListed]
  marked visible := by cases visible <;> simp [HiddenListed]

variable {trace : List Moment} {store : Store η}

theorem History.listedHidden (h : History form (.new form store) trace s) : s.visibility.Obeys ListedHidden :=
  h.keep (P := fun _ s _ => s.visibility.Obeys ListedHidden)
    (fun ht _ hs => ht.obeys rowRule_listedHidden (fun _ _ hlisted => absurd hlisted Bool.false_ne_true) hs)
    (fun _ hs => hs) (Visibility.obeys_of_unknown rowRule_listedHidden rfl)

theorem History.within (h : History form (.new form store) trace s) : s.visibility.Within s.activeFields :=
  h.keep (P := fun _ s _ => s.visibility.Within s.activeFields) (fun ht _ hs => ht.within hs) (fun _ hs => hs)
    fun f _ => by simp [Session.new, Visibility.empty]

theorem Verdict.matchesAt_of_decided {v : Verdict} {rendered : Option Nat} {held i : Nat} {visible : Bool}
    (h : (v.decided rendered held)[i]? = some visible) : visible = v.matchesAt i := by
  rw [decided_eq] at h
  rw [matchesAt]
  split at h
  · rename_i hu
    rw [if_pos hu]
    exact (List.eq_of_mem_replicate (List.mem_of_getElem? h))
  · rename_i hu
    rw [if_neg hu]
    rw [List.getElem?_take] at h
    split at h
    · rw [List.getD_eq_getElem?_getD, h, Option.getD_some]
    · cases h

/-- A row applied to a field with a verdict is shown exactly if it matches. -/
theorem History.matches_cached (h : History form (.new form store) trace s) {f : String} {verdict : Verdict} {i : Nat}
    {visible : Bool} (hcache : s.visibility.cache[f]? = some verdict)
    (hrow : (s.visibility.appliedRows f)[i]? = some visible) : visible = verdict.matchesAt i := by
  rw [Visibility.appliedRows_eq] at hrow
  -- The verdict may be old: it is the one by which the rows were decided, whatever the values are now.
  by_cases hf : f ∈ s.activeFields
  · obtain ⟨n, -, happlied⟩ := h.covered f verdict hf hcache
    rw [happlied] at hrow
    exact Verdict.matchesAt_of_decided hrow
  · rw [h.within f hf] at hrow
    cases hrow

end Turns

/-! ### Clears -/

section Clears
variable {η σ : Type} [EditHook η] [Sink σ] {form : Form} {P : Option Bool → Bool → Prop}

/-- Whether no clear has run since tracking was reset, once another step was asked for: leaving the displayed step
    clears, and unless that fails tracking is reset. -/
def Action.unclearedByNavigate (form : Form) (step : String) (r : Run η σ) (uncleared : Bool) : Bool :=
  if form.schema.hasStep step then !r.session.activeStep.isSome || ((clear form).perform r).1.isOk else uncleared

/-- Whether no clear has run since tracking was reset, after an operation. -/
def Operation.uncleared (form : Form) (s : Session η) (sink : σ) (before : Bool) : Operation → Bool
  | clear | save => false
  | navigate step => Action.unclearedByNavigate form step ⟨s, sink, []⟩ before
  | start =>
    match form.schema.firstStep? with
    | some step =>
      Action.unclearedByNavigate form step ((Action.moveTrackers form Action.seed).perform ⟨s, sink, []⟩).2 before
    | none => before
  | _ => before

/-- Sessions that a host can come to, each with whether no clear has run since tracking was reset. -/
inductive Tracked (form : Form) (s₀ : Session η) : Bool → Session η → Prop
  | begin : Tracked form s₀ true s₀
  | call {uncleared s} {σ : Type} [Sink σ] (op : Operation) (sink : σ) : Tracked form s₀ uncleared s →
    Tracked form s₀ (op.uncleared form s sink uncleared) (op.perform form s sink).2.session
  | attach {uncleared s store} : Tracked form s₀ uncleared s → s.store.Attaches store →
    Tracked form s₀ uncleared { s with store }

omit [Sink σ] in
theorem Reaches.obeys {α : Type} {b b' : List Task} {r : Run η σ} {p : Except SessionError α × Run η σ}
    (hP : RowRule P) (h : Reaches form false b r p b') (hr : r.session.visibility.Obeys P) : p.2.session.visibility.Obeys P := by
  obtain ⟨ms, ds, -, hturns, hds⟩ := h
  exact hturns.obeys hP (fun hmem => absurd (hds hmem) Bool.false_ne_true) hr

theorem obeys_navigate (hP : RowRule P) {step : String} {r : Run η σ} {before : Bool}
    (hr : before = true → r.session.visibility.Obeys P)
    (huncleared : Action.unclearedByNavigate form step r before = true) :
    ((Action.navigate form step).perform r).2.session.visibility.Obeys P := by
  rw [Action.unclearedByNavigate] at huncleared
  rw [Action.navigate]
  by_cases hstep : form.schema.hasStep step = true
  · simp only [hstep, ↓reduceIte] at huncleared
    simp only [hstep, Bool.not_true, Bool.false_eq_true, ↓reduceIte]
    have hdisplay : ∀ (r' : Run η σ) (groups : List String), (((do
        Action.update (Session.display form step)
        Action.enterGroups form (groups.filter fun group => Session.isOnStep form group (some step))
        Action.classify form : Action η σ Unit).perform r').2.session.visibility).Obeys P := fun r' groups =>
      Reaches.obeys (b := []) hP (Action.reaches_displayed step groups) (Visibility.obeys_of_unknown hP rfl)
    rw [Action.perform_bind, Action.perform_session]
    dsimp only
    cases hactive : r.session.activeStep.isSome with
    | false =>
      rw [if_neg Bool.false_ne_true]
      exact hdisplay r _
    | true =>
      rw [if_pos rfl, Action.perform_bind]
      -- If the clear fails, the list stays empty and the step is not changed.
      rcases hclear : (Action.clear form).perform r with ⟨x | x, r'⟩
      · rw [hactive, hclear] at huncleared
        cases huncleared
      · exact hdisplay r' _
  · simp only [hstep, Bool.false_eq_true, ↓reduceIte] at huncleared
    simp only [hstep, Bool.not_false, ↓reduceIte]
    exact hr huncleared

theorem obeys_start (hP : RowRule P) {s : Session η} {sink : σ} {before : Bool}
    (hs : before = true → s.visibility.Obeys P) (huncleared : Operation.start.uncleared form s sink before = true) :
    (Operation.start.perform form s sink).2.session.visibility.Obeys P := by
  have hunfold : (Operation.start.perform form s sink).2 = ((Action.start form).perform ⟨s, sink, []⟩).2 :=
    Action.run_return ..
  obtain ⟨t, k, -, hmoved⟩ := Action.perform_moveTrackers form Action.seed ⟨s, sink, []⟩
  rw [Operation.uncleared, hmoved] at huncleared
  rw [hunfold, Action.start, Action.perform_bind, hmoved]
  have hs' : before = true → (s.moved form Action.seed t).visibility.Obeys P := fun hbefore =>
    (Visibility.obeys_staysFollowing hP).followMoves (hs hbefore) form _
  dsimp only
  cases hfirst : form.schema.firstStep? with
  | some step =>
    rw [hfirst] at huncleared
    exact obeys_navigate hP hs' huncleared
  | none =>
    rw [hfirst] at huncleared
    exact Reaches.obeys (b := []) hP Action.reaches_classify (hs' huncleared)

theorem Tracked.obeys (hP : RowRule P) {store : Store η} {uncleared : Bool} {s : Session η}
    (h : Tracked form (.new form store) uncleared s) : uncleared = true → s.visibility.Obeys P := by
  induction h with
  | begin => exact fun _ => Visibility.obeys_of_unknown hP rfl
  | attach _ _ ih => exact ih
  | @call before s σ _ op sink _ ih =>
    intro huncleared
    have plain : op.clears = false → op.uncleared form s sink before = before →
        (op.perform form s sink).2.session.visibility.Obeys P := fun hclears hsame => by
      have hreaches := op.reaches form s sink
      rw [hclears] at hreaches
      exact hreaches.obeys hP (ih (hsame ▸ huncleared))
    -- A clear and a save empty the list of hidden rows. A start and a navigation may clear, but show a step anew.
    cases op with
    | start => exact obeys_start hP ih huncleared
    | navigate step =>
      have hunfold : ((Operation.navigate step).perform form s sink).2 =
          ((Action.navigate form step).perform ⟨s, sink, []⟩).2 := Action.run_return ..
      rw [hunfold]
      exact obeys_navigate hP ih huncleared
    | clear => cases huncleared
    | save => cases huncleared
    | classify => exact plain rfl rfl
    | reapply => exact plain rfl rfl
    | apply m force => exact plain rfl rfl
    | write e => exact plain rfl rfl
    | discard => exact plain rfl rfl
    | flush => exact plain rfl rfl
    | addRow id => exact plain rfl rfl
    | removeRow id i => exact plain rfl rfl
    | resetGroup id => exact plain rfl rfl

theorem History.tracked {s₀ s : Session η} {trace : List Moment} (h : History form s₀ trace s) :
    ∃ uncleared, Tracked form s₀ uncleared s := by
  induction h with
  | begin => exact ⟨true, .begin⟩
  | call op sink _ ih =>
    obtain ⟨uncleared, htracked⟩ := ih
    exact ⟨_, .call op sink htracked⟩
  | attach _ hstore ih =>
    obtain ⟨uncleared, htracked⟩ := ih
    exact ⟨uncleared, .attach htracked hstore⟩

/-- Of every row applied to a field: if the ledger lists it, it is hidden; if the classification applied last has a
    verdict for the field, the row is shown exactly if it matches; and as long as no clear has run since tracking was
    reset, it is listed if it is hidden. -/
theorem ledger_agrees {store : Store η} {trace : List Moment} {s : Session η} {f : String} {i : Nat}
    (h : History form (.new form store) trace s) (hi : i < (s.visibility.appliedRows f).length) :
    (s.visibility.ledger.contains f i = true → (s.visibility.appliedRows f)[i] = false) ∧
      (∀ verdict, s.visibility.cache[f]? = some verdict →
        (s.visibility.appliedRows f)[i] = verdict.matchesAt i) ∧
      (Tracked form (.new form store) true s → (s.visibility.appliedRows f)[i] = false →
        s.visibility.ledger.contains f i = true) := by
  have hrow : (s.visibility.appliedRows f)[i]? = some (s.visibility.appliedRows f)[i] := List.getElem?_eq_getElem hi
  refine ⟨fun hlisted => ?_, fun verdict hcache => h.matches_cached hcache hrow, fun htracked hhidden => ?_⟩
  · have hnot := h.listedHidden f i hlisted
    rw [hrow] at hnot
    simpa using hnot
  · refine htracked.obeys rowRule_hiddenListed rfl f i ?_
    rw [hrow, hhidden]

end Clears

/-- The second garage was hidden at the start, and is listed since. -/
theorem ledger_agrees_vehicleStarted :
    (∀ verdict, vehicleStarted.2.session.visibility.cache["garage_zip"]? = some verdict →
        verdict.matchesAt 1 = false) ∧
      vehicleStarted.2.session.visibility.ledger.contains "garage_zip" 1 = true := by
  have history : History vehicleForm (.new vehicleForm vehicleStore) ([] ++ vehicleStarted.2.trace)
      vehicleStarted.2.session := by
    unfold vehicleStarted
    exact .call .start SilentSink.mk .begin
  have huncleared : Operation.start.uncleared vehicleForm (.new vehicleForm vehicleStore) SilentSink.mk true = true := by
    decide +kernel
  have tracked : Tracked vehicleForm (.new vehicleForm vehicleStore)
      (Operation.start.uncleared vehicleForm (.new vehicleForm vehicleStore) SilentSink.mk true)
      vehicleStarted.2.session := by
    unfold vehicleStarted
    exact .call .start SilentSink.mk .begin
  rw [huncleared] at tracked
  have hi : 1 < (vehicleStarted.2.session.visibility.appliedRows "garage_zip").length := by decide +kernel
  have hhidden : (vehicleStarted.2.session.visibility.appliedRows "garage_zip")[1] = false := by
    have hrow : (vehicleStarted.2.session.visibility.appliedRows "garage_zip")[1]? = some false := by decide +kernel
    rwa [List.getElem?_eq_getElem hi, Option.some.injEq] at hrow
  obtain ⟨-, hmatches, hlisted⟩ := ledger_agrees history hi
  exact ⟨fun verdict hcache => (hmatches verdict hcache).symm.trans hhidden, hlisted tracked hhidden⟩

end FormSession
