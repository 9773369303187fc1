import FormSession.Proofs.Following
import FormSession.Proofs.History
import FormSession.Proofs.Passing
import FormSession.Proofs.TrackerStep
import FormSession.Proofs.WellFormed

/-! # What the applied visibility covers

A pass passes over a field whose verdict is the one applied last. The rows applied to the field are then
those that the verdict decides for the number of values that the field had when a pass resolved it last, and
for the rows shown now (`Covered`): whenever rows of its group are told, its verdict is forgotten. They are
those that a resolution from scratch would find exactly if the verdict decides as many rows for the number of
values that the field has now (`applied_from_scratch_iff`). -/

namespace FormSession
open FormSession.Action (followEdit seed)

/-! ### Moves without steps -/

namespace RowTracker
variable {k : RowTracker} {target : RowTarget}

/-- The rows that a tracker shows, if its group is displayed. -/
def shown? (k : RowTracker) : Option Nat := if k.active then some k.count else none

theorem shown?_submit_nil (h : (k.submit target).1 = []) : (k.submit target).2.shown? = k.shown? := by
  have hreplay := k.replays_submit target
  rw [Replays, h] at hreplay
  have hcount : k.count = (k.submit target).2.count := Option.some.inj hreplay
  rw [shown?, shown?, active_submit, hcount]

end RowTracker

namespace Session
variable {η : Type} {form : Form} {s s' : Session η} {f : String}

theorem rendered?_eq (form : Form) (s : Session η) (f : String) :
    s.rendered? form f = (form.schema.groupOf? f).bind fun g => (s.trackers[g.id]?).bind RowTracker.shown? := rfl

/-- The group of a field is found by its id, and lists the field. -/
theorem mem_groupFields {g : RowGroup} (hg : form.schema.groupOf? f = some g) : f ∈ form.groupFields g.id := by
  obtain ⟨hmem, hf⟩ := Schema.groupOf?_eq_some hg
  rw [Form.groupFields, (Schema.problems_eq_nil_iff.mp form.valid).group?_of_mem hmem]
  exact hf

/-- A field whose group takes no step has as many rows shown as before. -/
theorem rendered?_moved {move : Session η → RowTracker → List RowOp × RowTracker} {t : Told}
    (hnil : ∀ k, (move s k).1 = [] → (move s k).2.shown? = k.shown?)
    (hf : ∀ m ∈ s.moveList move, m.2 ≠ [] → f ∉ form.groupFields m.1) :
    (s.moved form move t).rendered? form f = s.rendered? form f := by
  rw [rendered?_eq, rendered?_eq]
  refine Option.bind_congr fun g hg => ?_
  show ((s.moved form move t).trackers[g.id]?).bind _ = _
  rw [moved, moves, Std.ExtTreeMap.getElem?_map, Std.ExtTreeMap.getElem?_map]
  cases hk : s.trackers[g.id]? with
  | none => rfl
  | some k =>
    have hsteps : (move s k).1 = [] := by
      by_contra hne
      exact hf _ (mem_moveList hk) hne (mem_groupFields hg)
    exact hnil k hsteps

theorem rendered?_movedOne {group : String} {k k' : RowTracker} {ops : List RowOp} {t : Told}
    (hk : s.trackers[group]? = some k) (hnil : ops = [] → k'.shown? = k.shown?)
    (hf : ops ≠ [] → f ∉ form.groupFields group) :
    (s.movedOne form group ops k' t).rendered? form f = s.rendered? form f := by
  rw [rendered?_eq, rendered?_eq]
  refine Option.bind_congr fun g hg => ?_
  simp only [movedOne, Std.ExtTreeMap.getElem?_insert, Std.LawfulEqCmp.compare_eq_iff_eq]
  by_cases hid : group = g.id
  · subst hid
    have hops : ops = [] := by
      by_contra hne
      exact hf hne (mem_groupFields hg)
    rw [if_pos rfl, hk]
    exact hnil hops
  · rw [if_neg hid]

end Session

/-! ### How far a verdict reaches -/

namespace Verdict

/-- The number of rows that a verdict decides. -/
def reach (v : Verdict) (rendered : Option Nat) (held : Nat) : Nat :=
  let shown := rendered.getD 0
  let rows := if v.isUniform then (if shown > 0 then shown else held) else v.rows.length
  if held > 0 then min held rows else rows

theorem decided_eq (v : Verdict) (rendered : Option Nat) (held : Nat) : v.decided rendered held =
    if v.isUniform then List.replicate (v.reach rendered held) v.overall else v.rows.take (v.reach rendered held) := by
  rw [decided, reach]
  by_cases hu : v.isUniform = true
  · simp only [hu, ↓reduceIte]
    split <;> simp [List.take_replicate]
  · simp only [hu, Bool.false_eq_true, ↓reduceIte]
    split
    · exact List.take_eq_take_min
    · rw [List.take_length]

theorem reach_le (v : Verdict) (hu : v.isUniform = false) (rendered : Option Nat) (held : Nat) :
    v.reach rendered held ≤ v.rows.length := by
  simp only [reach, hu, Bool.false_eq_true, ↓reduceIte]
  split
  · exact Nat.min_le_right ..
  · exact Nat.le_refl _

/-- A verdict decides the same for two numbers of values exactly if it decides as many rows. -/
theorem decided_eq_iff (v : Verdict) (rendered : Option Nat) (m n : Nat) :
    v.decided rendered m = v.decided rendered n ↔ v.reach rendered m = v.reach rendered n := by
  rw [decided_eq, decided_eq]
  constructor
  · intro h
    have hlength := congrArg List.length h
    cases hu : v.isUniform with
    | true => simpa [hu] using hlength
    | false =>
      have hm := v.reach_le hu rendered m
      have hn := v.reach_le hu rendered n
      simpa [hu, Nat.min_eq_left hm, Nat.min_eq_left hn] using hlength
  · intro h
    rw [h]

end Verdict

/-! ### When a field was resolved -/

/-- The number of values that a field had when a pass resolved it last. -/
def lastHeld (field : String) : Option Nat → List Moment → Option Nat :=
  List.foldl fun n moment =>
    match moment with
    | .resolved f held => if f = field then some held else n
    | _ => n

theorem lastHeld_append (f : String) (n : Option Nat) (trace ms : List Moment) :
    lastHeld f n (trace ++ ms) = lastHeld f (lastHeld f n trace) ms :=
  List.foldl_append

/-- Events told resolve nothing. -/
theorem lastHeld_moments (f : String) (n : Option Nat) (t : Told) (phase : Phase) :
    lastHeld f n (t.moments phase) = n :=
  Told.foldl_moments (fun _ _ _ => rfl) t n

theorem lastHeld_resolved_of_notMem {found : List Resolution} {f : String} (n : Option Nat)
    (h : ∀ r ∈ found, r.field ≠ f) : lastHeld f n (found.map fun r => .resolved r.field r.held) = n := by
  rw [lastHeld, List.foldl_map]
  exact Resolution.foldl_of_notMem id (fun _ _ hx => if_neg hx) h n

theorem lastHeld_resolved {found : List Resolution} {r : Resolution} (n : Option Nat)
    (hfields : (found.map (·.field)).Nodup) (hr : r ∈ found) :
    lastHeld r.field n (found.map fun r => .resolved r.field r.held) = some r.held := by
  rw [lastHeld, List.foldl_map]
  refine Resolution.foldl_of_mem id (fun n x hx => ?_) (fun n => ?_) hfields hr n
  · exact if_neg hx
  · exact if_pos rfl

/-! ### Turns -/

section Covered
variable {η : Type} {form : Form} {s s' : Session η} {trace : List Moment}

/-- The rows applied to a displayed field with a verdict are those that the verdict decides for the rows shown
    and the number of values that the field had when it was resolved last. -/
def Covered (form : Form) (s : Session η) (trace : List Moment) : Prop :=
  ∀ (f : String) (e : Verdict), f ∈ s.activeFields → s.visibility.cache[f]? = some e →
    ∃ n, lastHeld f none trace = some n ∧ s.visibility.applied[f]? = some (e.decided (s.rendered? form f) n)

/-- Between passes a field is covered if it was before and neither its rows nor its verdict changed. -/
theorem Covered.keep {ms : List Moment} (h : Covered form s trace) (hactive : s'.activeFields = s.activeFields)
    (hms : ∀ f n, lastHeld f n ms = n)
    (hfield : ∀ (f : String) (e : Verdict), s'.visibility.cache[f]? = some e → s.visibility.cache[f]? = some e ∧
      s'.visibility.applied[f]? = s.visibility.applied[f]? ∧ s'.rendered? form f = s.rendered? form f) :
    Covered form s' (trace ++ ms) := by
  intro f e hf he
  obtain ⟨hcache, happlied, hrendered⟩ := hfield f e he
  obtain ⟨n, hn, hrows⟩ := h f e (hactive ▸ hf) hcache
  exact ⟨n, by rw [lastHeld_append, hms, hn], by rw [happlied, hrendered, hrows]⟩

theorem Covered.same (h : Covered form s trace) (hactive : s'.activeFields = s.activeFields)
    (htrackers : s'.trackers = s.trackers) (hcache : s'.visibility.cache = s.visibility.cache)
    (happlied : s'.visibility.applied = s.visibility.applied) {ms : List Moment} (hms : ∀ f n, lastHeld f n ms = n) :
    Covered form s' (trace ++ ms) := by
  refine h.keep hactive hms fun f e he => ⟨hcache ▸ he, by rw [happlied], ?_⟩
  rw [Session.rendered?_eq, Session.rendered?_eq, htrackers]

/-- The rows of all groups move. -/
theorem Covered.moved {move : Session η → RowTracker → List RowOp × RowTracker} {t : Told} {ms : List Moment}
    (h : Covered form s trace) (hnil : ∀ k, (move s k).1 = [] → (move s k).2.shown? = k.shown?)
    (hms : ∀ f n, lastHeld f n ms = n) : Covered form (s.moved form move t) (trace ++ ms) := by
  refine h.keep (s := s) rfl hms fun f e he => ?_
  obtain ⟨hcache, hmoves⟩ := Visibility.getElem?_cache_followMoves he
  exact ⟨hcache, Visibility.getElem?_applied_followMoves _ hmoves, Session.rendered?_moved hnil hmoves⟩

/-- The rows of one group move. -/
theorem Covered.movedOne {group : String} {k k' : RowTracker} {ops : List RowOp} {t : Told}
    (h : Covered form s trace) (hk : s.trackers[group]? = some k) (hnil : ops = [] → k'.shown? = k.shown?) :
    Covered form (s.movedOne form group ops k' t) (trace ++ t.moments .idle) := by
  refine h.keep (s := s) rfl (fun f n => lastHeld_moments f n t .idle) fun f e he => ?_
  have hleft : (s.visibility.followRows (form.groupFields group) ops).cache[f]? = some e := he
  rw [Visibility.getElem?_cache_followRows] at hleft
  split at hleft
  · cases hleft
  · rename_i hmove
    have hf : ops ≠ [] → f ∉ form.groupFields group := fun hops hf => hmove ⟨hops, hf⟩
    exact ⟨hleft, Visibility.getElem?_applied_followRows _ hf, Session.rendered?_movedOne hk hnil hf⟩

/-- After a pass, and before any rows move, every displayed field with a verdict is covered. -/
theorem Covered.pass {v : Visibility} {queue : TaskQueue Task} {t : Told} {m : Classification} {force : Bool}
    (h : Covered form s trace)
    (hv : ∀ (f : String) (e : Verdict), v.cache[f]? = some e →
      m[f]? = some e ∧ v.applied[f]? = (s.passAt form m force).2.applied[f]?) :
    Covered form { s with visibility := v, queue } (trace ++ (s.resolvedAt form m force ++ t.moments .applying)) := by
  intro f e hf he
  obtain ⟨hm, happlied⟩ := hv f e he
  have hnodup := s.visibility.nodup_resolutions (s.passContext form) force m
  show ∃ n, lastHeld f none _ = some n ∧ v.applied[f]? = some (e.decided (s.rendered? form f) n)
  rw [happlied, lastHeld_append, lastHeld_append, lastHeld_moments]
  by_cases hfound : force = true ∨ s.visibility.cache[f]? ≠ some e
  · have hr : Resolution.resolve (s.passContext form) force (s.visibility.appliedRows f) f e ∈
        s.visibility.resolutions (s.passContext form) force m :=
      Visibility.mem_resolutions.mpr ⟨f, e, hm, hf, hfound, rfl⟩
    exact ⟨_, lastHeld_resolved _ hnodup hr, Visibility.getElem?_applied_pass hr⟩
  · have hcache : s.visibility.cache[f]? = some e := by
      by_contra hne
      exact hfound (Or.inr hne)
    have hother : ∀ r ∈ s.visibility.resolutions (s.passContext form) force m, r.field ≠ f := by
      intro r hr hrf
      obtain ⟨e', hm', -, hfound', -⟩ := Visibility.resolution_of_field hr hrf
      rw [hm] at hm'
      cases hm'
      exact hfound hfound'
    obtain ⟨n, hn, hrows⟩ := h f e hf hcache
    exact ⟨n, by rw [Session.resolvedAt, lastHeld_resolved_of_notMem _ hother, hn],
      (Visibility.getElem?_applied_pass_of_notMem hother).trans hrows⟩

variable [EditHook η] {b b' : List Task} {ms : List Moment} {ds : List Deed}

/-- Displayed fields with a verdict stay covered in every turn. -/
theorem Turn.covered (h : Turn form b s ms ds b' s') (hc : Covered form s trace) : Covered form s' (trace ++ ms) := by
  have nothing : ∀ (f : String) (n : Option Nat), lastHeld f n [] = n := fun _ _ => rfl
  have toldOnly : ∀ (t : Told) (f : String) (n : Option Nat), lastHeld f n (t.moments .idle) = n := fun t f n =>
    lastHeld_moments f n t .idle
  -- Where the classification applied last is empty, there is nothing to be covered.
  have empty : s'.visibility.cache = ∅ → Covered form s' (trace ++ ms) := fun hcache f e _ he => by
    simp [hcache] at he
  cases h with
  | unchanged => exact hc.same rfl rfl rfl rfl nothing
  | @changed _ _ _ store u _ t =>
    have hstored : Covered form ({ s with store } : Session η) (trace ++ []) := hc.same rfl rfl rfl rfl nothing
    rw [List.append_nil] at hstored
    refine hstored.moved (fun k hk => ?_) fun f n => toldOnly t f n
    simp only [followEdit] at hk ⊢
    split at hk
    · exact RowTracker.shown?_submit_nil hk
    · rfl
  | seeded => exact hc.moved (fun k hk => RowTracker.shown?_submit_nil hk) (toldOnly _)
  | entered cache => exact empty (Visibility.cache_followRows_empty cache _ _)
  | rebuilt found tracker => exact hc.movedOne tracker fun hk => RowTracker.shown?_submit_nil hk
  | passed m force told => exact hc.pass fun f e he => ⟨he, rfl⟩
  | refused m force told =>
    refine hc.pass fun f e he => ?_
    rw [Visibility.forget, Visibility.getElem?_cache_invalidate] at he
    split at he
    · cases he
    · rename_i hf
      exact ⟨he, by rw [Visibility.getElem?_applied_forget, if_neg hf]⟩
  | began => exact hc.same rfl rfl rfl rfl nothing
  | cleared => exact hc.same rfl rfl rfl rfl nothing
  | displayed => exact empty rfl
  | took => exact hc.same rfl rfl rfl rfl nothing
  | dropped => exact hc.same rfl rfl rfl rfl fun _ _ => rfl
  | committed => exact hc.same rfl rfl rfl rfl nothing

theorem History.covered {store : Store η} (h : History form (.new form store) trace s) : Covered form s trace := by
  refine h.keep (P := fun _ s trace => Covered form s trace) (fun ht _ hc => ht.covered hc) (fun _ hc => hc) ?_
  intro f e hf he
  simp [Session.new, Visibility.empty] at he

/-- The rows applied to a displayed field with a verdict are those that a resolution from scratch would find
    exactly if the verdict decides as many rows for the values that the field has now as for those that it had
    when a pass resolved it last. -/
theorem applied_from_scratch_iff {store : Store η} {f : String} {e : Verdict}
    (h : History form (.new form store) trace s) (hf : f ∈ s.activeFields) (he : s.visibility.cache[f]? = some e) :
    ∃ n, lastHeld f none trace = some n ∧
      (s.visibility.appliedRows f = e.decided (s.rendered? form f) (s.store.length f) ↔
        e.reach (s.rendered? form f) n = e.reach (s.rendered? form f) (s.store.length f)) := by
  obtain ⟨n, hn, happlied⟩ := h.covered f e hf he
  have hrows : s.visibility.appliedRows f = e.decided (s.rendered? form f) n := by
    rw [Visibility.appliedRows, Std.ExtTreeMap.getD_eq_getD_getElem?, happlied, Option.getD_some]
  exact ⟨n, hn, by rw [hrows, e.decided_eq_iff]⟩

end Covered

/-! ### A value past the end of a field -/

/-- A form with one field, which matches at every row. -/
def answerForm : Form where
  schema := { Schema.empty with steps := [⟨"s", ["x"]⟩] }
  valid := by decide
  classify _ := (∅ : Classification).insert "x" (.uniform true)

/-- The start of a session with one answer. -/
def answerStarted : Except SessionError Reply × Run Empty SilentSink :=
  Operation.start.perform answerForm (.new answerForm (.ofCommitted ((∅ : FieldValues).insert "x" ["a"]))) ⟨⟩

/-- The session after one more answer. -/
def answerAdded : Except SessionError Reply × Run Empty SilentSink :=
  (Operation.write ((∅ : FormEdit).insert "x" [.keep, .write "b"])).perform answerForm answerStarted.2.session ⟨⟩

theorem applied_from_scratch_iff_answerAdded :
    ∃ n, lastHeld "x" none (answerStarted.2.trace ++ answerAdded.2.trace) = some n ∧
      (answerAdded.2.session.visibility.appliedRows "x" =
          (Verdict.uniform true).decided (answerAdded.2.session.rendered? answerForm "x")
            (answerAdded.2.session.store.length "x") ↔
        (Verdict.uniform true).reach (answerAdded.2.session.rendered? answerForm "x") n =
          (Verdict.uniform true).reach (answerAdded.2.session.rendered? answerForm "x")
            (answerAdded.2.session.store.length "x")) := by
  have history : History answerForm (.new answerForm (.ofCommitted ((∅ : FieldValues).insert "x" ["a"])))
      ([] ++ answerStarted.2.trace ++ answerAdded.2.trace) answerAdded.2.session :=
    .call _ _ (.call _ _ .begin)
  exact applied_from_scratch_iff history (by decide +kernel) (by decide +kernel)

/-- A value past the end of a field outside of any group leaves the verdict of the field as it is, so that the
    pass that ends the operation passes over it, and the new row is neither shown nor hidden. -/
theorem added_answer_uncovered :
    (∃ u, answerAdded.1 = .ok (.update (some u))) ∧
      "x" ∈ answerAdded.2.session.activeFields ∧
      answerAdded.2.session.visibility.cache["x"]? = some (.uniform true) ∧
      answerAdded.2.session.store.values "x" = ["a", "b"] ∧
      answerAdded.2.session.visibility.appliedRows "x" = [true] ∧
      (Verdict.uniform true).decided (answerAdded.2.session.rendered? answerForm "x")
        (answerAdded.2.session.store.length "x") = [true, true] := by
  refine ⟨⟨⟨1, (∅ : FormEdit).insert "x" [.keep, .write "b"]⟩, ?_⟩, ?_⟩
  · decide +kernel
  · decide +kernel

end FormSession
