import FormSession.Proofs.TrackerStep

/-! # Targets kept for later

A tracker takes its rows to every target that it is given while its group is displayed, and keeps the targets that it
is given while it is not. Keeping them makes no difference to where the rows end: whenever the group is displayed,
nothing is kept and the rows are those of the last target (`rows_land`). The steps that a request leads to can be taken
where they come, and without a teardown there is one for each row more or less. -/

namespace FormSession

/-! ### Requests -/

/-- What is asked of a tracker. -/
inductive RowRequest where
  | init (held : Nat)
  | change (e : FieldEdit) (held : Nat)
  | reset (held : Nat)
  | setActive (active : Bool)

/-- The target that a request gives, if it gives one. -/
def RowRequest.target? : RowRequest → Option RowTarget
  | init held => some (.ofLength held)
  | change e held => some (.ofEdit e held)
  | reset held => some (.resetTo held)
  | setActive _ => none

/-- The targets that requests give, in order. -/
def givenTargets (requests : List RowRequest) : List RowTarget := requests.filterMap RowRequest.target?

namespace RowTracker
variable {k : RowTracker} {r : RowRequest} {target : RowTarget} {targets : List RowTarget} {bounds : RowBounds}

/-- The steps that a request leads to, and the tracker after it. -/
def perform (k : RowTracker) : RowRequest → List RowOp × RowTracker
  | .init held => k.init held
  | .change e held => k.change e held
  | .reset held => k.reset held
  | .setActive active => k.setActive active

/-- The tracker after requests, one after the other. -/
def performAll (k : RowTracker) (requests : List RowRequest) : RowTracker :=
  requests.foldl (fun k r => (k.perform r).2) k

/-- The target that a request takes the rows to: the one that it gives if the group is displayed, and the one kept for
    later if the request displays the group. -/
def realized? (k : RowTracker) : RowRequest → Option RowTarget
  | .setActive active => if active then k.pending else none
  | r => if k.active then r.target? else none

/-- The rows of a displayed group after targets: those of the last one within the bounds, and none before the first. -/
def landing (bounds : RowBounds) (targets : List RowTarget) : Nat :=
  match targets.getLast? with
  | some last => bounds.clamp last.desired
  | none => 0

theorem perform_of_target (k : RowTracker) (h : r.target? = some target) : k.perform r = k.submit target := by
  cases r <;> cases h <;> rfl

theorem realized?_of_target (k : RowTracker) (h : r.target? = some target) :
    k.realized? r = if k.active then some target else none := by
  cases r <;> cases h <;> rfl

theorem setActive_of_no_target (h : r.target? = none) : ∃ active, r = .setActive active := by
  cases r with
  | setActive active => exact ⟨active, rfl⟩
  | _ => cases h

theorem replays_perform (k : RowTracker) (r : RowRequest) : k.Replays (k.perform r) := by
  cases r with
  | setActive active => exact k.replays_setActive active
  | _ => exact k.replays_submit _

/-- A request takes the rows shown to a target, and the group is displayed then, or it takes no step and leaves the
    rows as they are. -/
theorem perform_cases (k : RowTracker) (r : RowRequest) :
    (∃ target, k.realized? r = some target ∧ (k.perform r).2.active = true ∧
      ∃ shown : RowTracker, shown.count = k.count ∧ k.perform r = shown.realize target) ∨
    (k.realized? r = none ∧ (k.perform r).1 = [] ∧ (k.perform r).2.count = k.count) := by
  cases ht : r.target? with
  | some given =>
    rw [k.realized?_of_target ht, k.perform_of_target ht, submit]
    cases ha : k.active with
    | true => exact Or.inl ⟨given, rfl, ha, k, rfl, rfl⟩
    | false => exact Or.inr ⟨rfl, rfl, rfl⟩
  | none =>
    obtain ⟨active, rfl⟩ := setActive_of_no_target ht
    cases active with
    | true =>
      rw [perform, setActive, if_pos rfl]
      cases hp : k.pending with
      | some target => exact Or.inl ⟨target, hp, rfl, { k with active := true, pending := none }, rfl, rfl⟩
      | none => exact Or.inr ⟨hp, rfl, rfl⟩
    | false => exact Or.inr ⟨rfl, rfl, rfl⟩

/-! ### The rows after every request -/

/-- The tracker of a group after targets: the rows follow the last one, and before the first one there is no row and
    nothing kept. -/
structure Landed (bounds : RowBounds) (targets : List RowTarget) (k : RowTracker) : Prop where
  bounds : k.bounds = bounds
  settled : k.Settled
  untouched : targets = [] → k.count = 0 ∧ k.pending = none
  follows : ∀ last ∈ targets.getLast?, k.Counts last.desired

theorem landed_new (field : String) (bounds : RowBounds) : Landed bounds [] (new field bounds) where
  bounds := rfl
  settled := settled_new field bounds
  untouched _ := ⟨rfl, rfl⟩
  follows _ h := by cases h

namespace Landed

theorem submit (h : Landed bounds targets k) (target : RowTarget) :
    Landed bounds (targets ++ [target]) (k.submit target).2 where
  bounds := (Step.submits target rfl : Step 0 target.desired k _).same_group.2.trans h.bounds
  settled := settled_submit h.settled target
  untouched hnil := by simp at hnil
  follows last hlast := by
    rw [List.getLast?_concat] at hlast
    cases hlast
    exact k.counts_submit target

theorem setActive (h : Landed bounds targets k) (active : Bool) : Landed bounds targets (k.setActive active).2 where
  bounds := (Step.displays active rfl : Step 0 0 k _).same_group.2.trans h.bounds
  settled := k.settled_setActive active
  untouched hnil := by
    obtain ⟨hcount, hpending⟩ := h.untouched hnil
    cases active with
    | true =>
      obtain ⟨count, hk, ⟨target, ht, -⟩ | ⟨-, hsame⟩⟩ := k.setActive_true
      · rw [hpending] at ht
        cases ht
      · rw [hk]
        exact ⟨hsame.trans hcount, rfl⟩
    | false => exact ⟨hcount, hpending⟩
  follows last hlast := counts_setActive h.settled (h.follows last hlast) active

theorem perform (h : Landed bounds targets k) (r : RowRequest) :
    Landed bounds (targets ++ r.target?.toList) (k.perform r).2 := by
  cases ht : r.target? with
  | some target =>
    rw [k.perform_of_target ht]
    exact h.submit target
  | none =>
    obtain ⟨active, rfl⟩ := setActive_of_no_target ht
    rw [Option.toList_none, List.append_nil]
    exact h.setActive active

theorem performAll (h : Landed bounds targets k) (requests : List RowRequest) :
    Landed bounds (targets ++ givenTargets requests) (k.performAll requests) := by
  induction requests generalizing targets k with
  | nil =>
    rw [givenTargets, List.filterMap_nil, List.append_nil]
    exact h
  | cons r rest ih =>
    have hgiven : givenTargets (r :: rest) = r.target?.toList ++ givenTargets rest := by
      rw [givenTargets, List.filterMap_cons]
      cases r.target? <;> rfl
    rw [hgiven, ← List.append_assoc]
    exact ih (h.perform r)

/-- A displayed group keeps nothing for later and shows the rows of the last target. -/
theorem of_active (h : Landed bounds targets k) (ha : k.active = true) :
    k.pending = none ∧ k.count = landing bounds targets := by
  refine ⟨h.settled ha, ?_⟩
  rw [landing]
  cases hlast : targets.getLast? with
  | some last => exact h.bounds ▸ (h.follows last hlast).shown ha
  | none => exact (h.untouched (List.getLast?_eq_none_iff.mp hlast)).1

end Landed

/-- Whatever is asked of a new tracker: while its group is displayed it keeps nothing for later and shows the rows of
    the last target, or none before the first; a request after which the group is not displayed takes no step and
    leaves the rows; every step can be taken where it comes, and a target without a teardown takes one for each row
    more or less; and of the requests only the targets that they give matter to the rows of a displayed group. -/
theorem rows_land (field : String) (bounds : RowBounds) (requests : List RowRequest) :
    let k := (new field bounds).performAll requests
    (k.active = true → k.pending = none ∧ k.count = landing bounds (givenTargets requests)) ∧
      (∀ r, ((k.perform r).2.active = false → (k.perform r).1 = [] ∧ (k.perform r).2.count = k.count) ∧
        RowOp.replay? k.count (k.perform r).1 = some (k.perform r).2.count ∧
        match k.realized? r with
        | some target => target.reset = false →
            (k.perform r).1.length = ((k.count : Int) - (k.perform r).2.count).natAbs
        | none => (k.perform r).1 = []) ∧
      ∀ others, givenTargets others = givenTargets requests → k.active = true →
        ((new field bounds).performAll others).active = true →
        ((new field bounds).performAll others).count = k.count := by
  intro k
  have landed : ∀ requests, Landed bounds (givenTargets requests) ((new field bounds).performAll requests) :=
    (landed_new field bounds).performAll
  -- Where a tracker lands depends on the targets given alone, and hiding it gives none.
  refine ⟨(landed requests).of_active, fun r => ⟨fun hidden => ?_, k.replays_perform r, ?_⟩, ?_⟩
  · obtain ⟨target, -, hactive, -⟩ | ⟨-, hstill⟩ := k.perform_cases r
    · rw [hidden] at hactive
      cases hactive
    · exact hstill
  · obtain ⟨target, hr, -, shown, hshown, hperform⟩ | ⟨hr, hnone, -⟩ := k.perform_cases r
    · rw [hr]
      intro kept
      rw [hperform, ← hshown]
      exact shown.length_realize kept
    · rw [hr]
      exact hnone
  · intro others hgiven ha hothers
    rw [((landed others).of_active hothers).2, hgiven]
    exact ((landed requests).of_active ha).2.symm

/-! ### Requests of a group that is hidden for a while -/

/-- Three rows are shown, hidden, cut off at the second one, torn down and built anew as nine, and shown again. -/
def hiddenRequests : List RowRequest :=
  [.init 3, .setActive true, .setActive false, .change [.keep, .drop, .drop] 1, .reset 9, .setActive true]

theorem rows_land_hiddenRequests :
    let k := (new "vin" ⟨1, 4⟩).performAll hiddenRequests
    let cutOff := RowRequest.change [.keep, .keep, .drop] 2
    let others := RowRequest.setActive true :: hiddenRequests.filter (·.target?.isSome)
    k.active = true ∧ k.pending = none ∧ k.count = 4 ∧
      (k.perform (.setActive false)).2.active = false ∧ (k.perform (.setActive false)).1 = [] ∧
      RowOp.replay? 4 (k.perform cutOff).1 = some 2 ∧
      k.realized? cutOff = some ⟨2, [2], false⟩ ∧ (k.perform cutOff).1.length = 2 ∧
      givenTargets others = givenTargets hiddenRequests ∧ ((new "vin" ⟨1, 4⟩).performAll others).active = true ∧
      ((new "vin" ⟨1, 4⟩).performAll others).count = 4 := by
  intro k cutOff others
  obtain ⟨hshown, hasked, hothers⟩ := rows_land "vin" ⟨1, 4⟩ hiddenRequests
  have hactive : k.active = true := by decide
  have hidden : (k.perform (.setActive false)).2.active = false := rfl
  have hrealized : k.realized? cutOff = some ⟨2, [2], false⟩ := by decide
  obtain ⟨hpending, hlanding⟩ := hshown hactive
  have hcount : k.count = 4 := hlanding.trans (by decide)
  obtain ⟨-, hreplay, hlength⟩ := hasked cutOff
  rw [hrealized] at hlength
  have hgiven : givenTargets others = givenTargets hiddenRequests := by decide
  have hactive' : ((new "vin" ⟨1, 4⟩).performAll others).active = true := by decide
  exact ⟨hactive, hpending, hcount, hidden, ((hasked _).1 hidden).1, hcount ▸ hreplay.trans (by decide), hrealized,
    (hlength rfl).trans (by decide), hgiven, hactive', (hothers others hgiven hactive hactive').trans hcount⟩

end RowTracker
end FormSession
