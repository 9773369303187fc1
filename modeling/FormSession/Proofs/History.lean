import FormSession.Proofs.Operations

/-! # Histories

A history is everything a host did with a session: operations, each with a receiver of its own choice and
whatever its outcome, hooks and subscriptions in any order. What every turn keeps, and the host cannot
disturb between operations, holds after every history (`History.keep`). A course is a history with what
became of the work that was put off in it (`Course`); every history is one (`History.course`). -/

namespace FormSession
variable {η : Type}

/-- What a host does with the store of a session between operations. -/
inductive Store.Attaches : Store η → Store η → Prop
  | hook (s : Store η) (h : η) : Attaches s (s.addHook h)
  | subscribed (s : Store η) : Attaches s s.subscribe.2
  | unsubscribed (s : Store η) (id : Nat) : Attaches s (s.unsubscribe id)

theorem Store.Attaches.values {s t : Store η} (h : s.Attaches t) (f : String) : t.values f = s.values f := by
  cases h <;> rfl

theorem Store.Attaches.hooks {s t : Store η} (h : s.Attaches t) : s.hooks <+: t.hooks := by
  cases h with
  | hook => exact List.prefix_append ..
  | subscribed => exact List.prefix_rfl
  | unsubscribed => exact List.prefix_rfl

/-- A host that adds no hooks. -/
instance : EditHook Empty where
  revise h _ := h.elim

variable [EditHook η]

/-- What a host did with a session that began as `s₀`: what the session did on that, and how it stands. -/
inductive History (form : Form) (s₀ : Session η) : List Moment → Session η → Prop
  | begin : History form s₀ [] s₀
  | call {trace s} {σ : Type} [Sink σ] (op : Operation) (sink : σ) : History form s₀ trace s →
    History form s₀ (trace ++ (op.perform form s sink).2.trace) (op.perform form s sink).2.session
  | attach {trace s store} : History form s₀ trace s → s.store.Attaches store →
    History form s₀ trace { s with store }

/-- A history with what became of the work that was put off in its course. -/
inductive Course (form : Form) (s₀ : Session η) : List Moment → List Deed → Session η → Prop
  | begin : Course form s₀ [] [] s₀
  | call {trace deeds s ds} {σ : Type} [Sink σ] (op : Operation) (sink : σ) : Course form s₀ trace deeds s →
    Turns form [] s (op.perform form s sink).2.trace ds [] (op.perform form s sink).2.session →
    Course form s₀ (trace ++ (op.perform form s sink).2.trace) (deeds ++ ds) (op.perform form s sink).2.session
  | attach {trace deeds s store} : Course form s₀ trace deeds s → s.store.Attaches store →
    Course form s₀ trace deeds { s with store }

section Course
variable {form : Form} {s₀ s : Session η} {trace : List Moment} {deeds : List Deed}

theorem History.course (h : History form s₀ trace s) : ∃ deeds, Course form s₀ trace deeds s := by
  induction h with
  | begin => exact ⟨[], .begin⟩
  | @call _ s _ _ op sink _ ih =>
    obtain ⟨deeds, hcourse⟩ := ih
    obtain ⟨ds, hturns, -⟩ := op.turns form s sink
    exact ⟨deeds ++ ds, .call op sink hcourse hturns⟩
  | attach _ hstore ih =>
    obtain ⟨deeds, hcourse⟩ := ih
    exact ⟨deeds, .attach hcourse hstore⟩

/-- What holds at the beginning, is kept by every turn, and stays when hooks and subscriptions change, holds
    after every course. -/
theorem Course.keep {P : List Task → Session η → List Moment → List Deed → Prop}
    (turn : ∀ {b s ms ds b' s'}, Turn form b s ms ds b' s' → ∀ trace deeds, P b s trace deeds →
      P b' s' (trace ++ ms) (deeds ++ ds))
    (attach : ∀ {s : Session η} {trace deeds store}, s.store.Attaches store → P [] s trace deeds →
      P [] { s with store } trace deeds)
    (begin : P [] s₀ [] []) (h : Course form s₀ trace deeds s) : P [] s trace deeds := by
  induction h with
  | begin => exact begin
  | call op sink _ hturns ih => exact hturns.keepDeeds turn _ _ ih
  | attach _ hstore ih => exact attach hstore ih

/-- What holds at the beginning, is kept by every turn, and stays when hooks and subscriptions change, holds
    after every history. -/
theorem History.keep {P : List Task → Session η → List Moment → Prop}
    (turn : ∀ {b s ms ds b' s'}, Turn form b s ms ds b' s' → ∀ trace, P b s trace → P b' s' (trace ++ ms))
    (attach : ∀ {s : Session η} {trace store}, s.store.Attaches store → P [] s trace → P [] { s with store } trace)
    (begin : P [] s₀ []) (h : History form s₀ trace s) : P [] s trace := by
  obtain ⟨deeds, hcourse⟩ := h.course
  exact hcourse.keep (P := fun b s trace _ => P b s trace) (fun ht trace _ hp => turn ht trace hp) attach begin

end Course

/-! ### Vehicles -/

/-- Up to six rows, each with a vehicle and the code of its garage. -/
def vehicleRows : RowGroup := ⟨"vehicle_rows", "vehicles", ["vin", "garage_zip"], 1, 6⟩

/-- A form with one step and one group on it. The code of a garage is shown at rows with a vehicle, and counts
    as not applicable where it is hidden. -/
def vehicleForm : Form where
  schema :=
    { settings := ⟨"N/A", 32, some "vehicles"⟩
      registry := (∅ : Registry).insert "garage_zip" ⟨"", .onHide, false⟩
      steps := [⟨"vehicles", ["garage_zip"]⟩]
      groups := [vehicleRows] }
  valid := by decide +kernel
  classify values := (∅ : Classification).insert "garage_zip" (.byRow ((values.of "vin").map (· ≠ "")))

/-- Two rows, the second one without a vehicle yet. -/
def vehicleStore : Store Empty := .ofCommitted ((∅ : FieldValues).insert "vin" ["1HG", ""])

/-- The start of a session with two rows. -/
def vehicleStarted : Except SessionError Reply × Run Empty SilentSink :=
  Operation.start.perform vehicleForm (.new vehicleForm vehicleStore) ⟨⟩

/-- A vehicle is filled in at the second row. -/
def vehicleFilled : Except SessionError Reply × Run Empty SilentSink :=
  (Operation.write ((∅ : FormEdit).insert "vin" [.keep, .write "JH4"])).perform vehicleForm
    vehicleStarted.2.session ⟨⟩

/-- What a host did with the session of two rows until the second vehicle was filled in. -/
theorem history_vehicleFilled : History vehicleForm (.new vehicleForm vehicleStore)
    ([] ++ vehicleStarted.2.trace ++ vehicleFilled.2.trace) vehicleFilled.2.session := by
  unfold vehicleFilled vehicleStarted
  exact .call _ _ (.call _ _ .begin)

end FormSession
