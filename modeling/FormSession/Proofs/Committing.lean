import FormSession.Proofs.ActionRules
import FormSession.Proofs.Saving

/-! # When the committed values change

Writing, clearing and running the waiting work stage values and leave the committed ones alone, however they end
(`rule_sameCommitted`). A save commits after all of that, and only if all of it ended well. What is committed is
therefore always what the values were at the end of the last save that ended well (`only_save_commits`). -/

namespace FormSession

section Actions
variable {η σ : Type} [EditHook η] [Sink σ] {form : Form}

/-- What is committed is the same in two runs. -/
def SameCommitted (r : Run η σ) (_ : Option SessionError) (r' : Run η σ) : Prop :=
  r'.session.store.committed = r.session.store.committed

theorem rule_sameCommitted (form : Form) :
    ActionRule form (SameCommitted : Run η σ → Option SessionError → Run η σ → Prop) where
  still _ := rfl
  trans h h' := h'.trans h
  noStep _ _ := rfl
  noGroup _ _ := rfl
  told _ _ _ _ hstore := congrArg Store.committed hstore
  changed c r := Store.committed_change r.session.store c
  applied m force r := congrArg Store.committed (Action.store_apply m force r)
  dropped _ _ _ := rfl

/-- A save commits what the values are at its end, or fails and commits nothing. -/
theorem Action.save_cases (form : Form) (r : Run η σ) :
    (∃ fields, ((save form).perform r).1 = .ok fields ∧
        ∀ f, ((save form).perform r).2.session.store.committedValues f =
          ((save form).perform r).2.session.store.values f) ∨
      ∃ e, ((save form).perform r).1 = .error e ∧ SameCommitted r (some e) ((save form).perform r).2 := by
  have hclear : SameCommitted r _ ((clear form).perform r).2 := (rule_sameCommitted form).clear r
  rw [save, perform_bind]
  rcases hp : (clear form).perform r with ⟨e | u, r₁⟩
  · rw [hp] at hclear
    exact Or.inr ⟨e, rfl, hclear⟩
  · rw [hp] at hclear
    have hflush : SameCommitted r₁ _ ((flush form).perform r₁).2 := (rule_sameCommitted form).flush r₁
    dsimp only
    rw [perform_bind]
    rcases hq : (flush form).perform r₁ with ⟨e | n, r₂⟩
    · rw [hq] at hflush
      exact Or.inr ⟨e, rfl, hflush.trans hclear⟩
    · refine Or.inl ⟨r₂.session.store.commit.1, rfl, fun f => ?_⟩
      show r₂.session.store.commit.2.committedValues f = r₂.session.store.commit.2.values f
      rw [Store.committedValues_commit, Store.values_commit]

end Actions

/-! ### Operations -/

namespace Operation
variable {η σ : Type} [EditHook η] [Sink σ] {form : Form} {s : Session η} {sink : σ} {op : Operation}

theorem committed_perform (h : op ≠ .save) :
    (op.perform form s sink).2.session.store.committed = s.store.committed :=
  Operation.follows (rule_sameCommitted form) op (fun hsave => absurd hsave h) s sink

theorem perform_save_cases (form : Form) (s : Session η) (sink : σ) :
    (∃ fields, (save.perform form s sink).1 = .ok (.committed fields) ∧
        ∀ f, (save.perform form s sink).2.session.store.committedValues f =
          (save.perform form s sink).2.session.store.values f) ∨
      ∃ e, (save.perform form s sink).1 = .error e ∧
        (save.perform form s sink).2.session.store.committed = s.store.committed := by
  have hunfold : save.perform form s sink =
      (Action.save form >>= fun fields => pure (.committed fields)).perform ⟨s, sink, []⟩ := rfl
  rw [hunfold, Action.run_return, Action.reply_return]
  rcases Action.save_cases form (⟨s, sink, []⟩ : Run η σ) with ⟨fields, hreply, hvalues⟩ | ⟨e, herror, hsame⟩
  · exact Or.inl ⟨fields, congrArg (Except.map Reply.committed) hreply, hvalues⟩
  · exact Or.inr ⟨e, congrArg (Except.map Reply.committed) herror, hsame⟩

/-- An operation that fails commits nothing. -/
theorem committed_of_error {e : SessionError} (h : (op.perform form s sink).1 = .error e) :
    (op.perform form s sink).2.session.store.committed = s.store.committed := by
  by_cases hop : op = .save
  · subst hop
    rcases perform_save_cases form s sink with ⟨fields, hreply, -⟩ | ⟨e', -, hsame⟩
    · rw [hreply] at h
      cases h
    · exact hsame
  · exact committed_perform hop

/-- After a save that ended well nothing is staged that is not committed. -/
theorem values_save {reply : Reply} (h : (save.perform form s sink).1 = .ok reply) (f : String) :
    (save.perform form s sink).2.session.store.values f =
      (save.perform form s sink).2.session.store.committedValues f := by
  rcases perform_save_cases form s sink with ⟨fields, -, hvalues⟩ | ⟨e, herror, -⟩
  · exact (hvalues f).symm
  · rw [herror] at h
    cases h

/-- What follows a discard stages nothing, also if it fails. -/
theorem values_discard (f : String) :
    (discard.perform form s sink).2.session.store.values f =
      (discard.perform form s sink).2.session.store.committedValues f := by
  have hstore : (discard.perform form s sink).2.session.store = s.store.revert.2 := by
    have hunfold : (discard.perform form s sink).2 = ((Action.discard form).perform ⟨s, sink, []⟩).2 :=
      Action.run_return ..
    rw [hunfold]
    exact Action.store_changeData (·.revert) ⟨s, sink, []⟩
  rw [hstore]
  exact s.store.values_revert f

end Operation

/-! ### Histories -/

section Histories
variable {η : Type} [EditHook η] {form : Form} {s₀ s : Session η} {trace : List Moment}

/-- The values at the end of the last save that ended well, once an operation is carried out: those after the
    operation if it is such a save, and else those of before. -/
def Operation.lastSaved (op : Operation) (outcome : Except SessionError Reply) (after : Store η)
    (before : String → List String) : String → List String :=
  match op, outcome with
  | .save, .ok _ => after.values
  | _, _ => before

/-- A history with the values at the end of its last save that ended well, or those committed at the beginning if
    there was none. -/
inductive LastSaved (form : Form) (s₀ : Session η) : (String → List String) → Session η → Prop
  | begin : LastSaved form s₀ s₀.store.committedValues s₀
  | call {last s} {σ : Type} [Sink σ] (op : Operation) (sink : σ) : LastSaved form s₀ last s →
    LastSaved form s₀
      (op.lastSaved (op.perform form s sink).1 (op.perform form s sink).2.session.store last)
      (op.perform form s sink).2.session
  | attach {last s store} : LastSaved form s₀ last s → s.store.Attaches store → LastSaved form s₀ last { s with store }

theorem History.lastSaved (h : History form s₀ trace s) : ∃ last, LastSaved form s₀ last s := by
  induction h with
  | begin => exact ⟨_, .begin⟩
  | call op sink _ ih =>
    obtain ⟨last, hlast⟩ := ih
    exact ⟨_, .call op sink hlast⟩
  | attach _ hstore ih =>
    obtain ⟨last, hlast⟩ := ih
    exact ⟨last, .attach hlast hstore⟩

omit [EditHook η] in
theorem Store.Attaches.committed {s t : Store η} (h : s.Attaches t) : t.committed = s.committed := by
  cases h <;> rfl

theorem LastSaved.committedValues {last : String → List String} (h : LastSaved form s₀ last s) (f : String) :
    s.store.committedValues f = last f := by
  induction h with
  | begin => rfl
  | attach _ hstore ih =>
    rw [← ih, Store.committedValues, hstore.committed, Store.committedValues]
  | @call last s _ _ op sink _ ih =>
    have kept : (op.perform form s sink).2.session.store.committed = s.store.committed →
        (op.perform form s sink).2.session.store.committedValues f = last f := fun hsame => by
      rw [← ih, Store.committedValues, hsame, Store.committedValues]
    cases houtcome : (op.perform form s sink).1 with
    | error e =>
      have hlast : op.lastSaved (.error e) (op.perform form s sink).2.session.store last = last := by
        cases op <;> rfl
      rw [hlast]
      exact kept (Operation.committed_of_error houtcome)
    | ok reply =>
      by_cases hop : op = .save
      · subst hop
        exact (Operation.values_save houtcome f).symm
      · have hlast : op.lastSaved (.ok reply) (op.perform form s sink).2.session.store last = last := by
          cases op <;> first | rfl | exact absurd rfl hop
        rw [hlast]
        exact kept (Operation.committed_perform hop)

/-- After whatever was done with a session, the committed values are those at the end of the last save that ended
    well, or the first ones if there was none. An operation that fails leaves them as they are, and after a save that
    ends well and after every discard they are the values of the session. -/
theorem only_save_commits {store : Store η} (h : History form (.new form store) trace s) :
    (∃ last, LastSaved form (.new form store) last s) ∧
      (∀ last, LastSaved form (.new form store) last s → ∀ f, s.store.committedValues f = last f) ∧
      ∀ {σ : Type} [Sink σ] (op : Operation) (sink : σ),
        (∀ e, (op.perform form s sink).1 = .error e →
          ∀ f, (op.perform form s sink).2.session.store.committedValues f = s.store.committedValues f) ∧
        ((op = .save ∧ ∃ reply, (op.perform form s sink).1 = .ok reply) ∨ op = .discard →
          ∀ f, (op.perform form s sink).2.session.store.values f =
            (op.perform form s sink).2.session.store.committedValues f) := by
  refine ⟨h.lastSaved, fun last hlast f => hlast.committedValues f, fun op sink => ⟨fun e herror f => ?_, ?_⟩⟩
  · rw [Store.committedValues, Operation.committed_of_error herror, Store.committedValues]
  · rintro (⟨rfl, reply, hreply⟩ | rfl) f
    · exact Operation.values_save hreply f
    · exact Operation.values_discard f

/-- An answer written after a save is not committed, and is gone after a discard. -/
theorem only_save_commits_hiddenWritten :
    hiddenWritten.2.session.store.values "x" = ["b"] ∧
      hiddenWritten.2.session.store.committedValues "x" = hiddenSaved.2.session.store.values "x" ∧
      (Operation.discard.perform hiddenForm hiddenWritten.2.session SilentSink.mk).2.session.store.values "x" =
        [""] := by
  have written : History hiddenForm (.new hiddenForm hiddenStore) _ hiddenWritten.2.session :=
    .call _ SilentSink.mk (.call .save SilentSink.mk (.call .start SilentSink.mk .begin))
  have started : LastSaved hiddenForm (.new hiddenForm hiddenStore) hiddenStore.committedValues
      (Operation.start.perform hiddenForm (.new hiddenForm hiddenStore) SilentSink.mk).2.session :=
    .call .start _ .begin
  have saved : LastSaved hiddenForm (.new hiddenForm hiddenStore)
      (Operation.save.lastSaved hiddenSaved.1 hiddenSaved.2.session.store hiddenStore.committedValues)
      hiddenSaved.2.session :=
    .call .save _ started
  have hok : hiddenSaved.1 = .ok (.committed ["x"]) := by decide +kernel
  rw [hok] at saved
  have last : LastSaved hiddenForm (.new hiddenForm hiddenStore) hiddenSaved.2.session.store.values
      hiddenWritten.2.session :=
    .call (.write _) _ saved
  obtain ⟨-, hcommitted, hlater⟩ := only_save_commits written
  have hdiscard := (hlater .discard SilentSink.mk).2 (Or.inr rfl) "x"
  refine ⟨by decide +kernel, hcommitted _ last "x", hdiscard.trans ?_⟩
  decide +kernel

end Histories

end FormSession
