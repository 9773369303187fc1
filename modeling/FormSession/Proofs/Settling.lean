import FormSession.Proofs.Corrections
import FormSession.Proofs.DeferredWork
import FormSession.Proofs.RowCounts

/-! # Waiting work settles

Where the classifier says the same of all values, a quiet flush settles within three batches
(`flush_settles`). The first batch makes the classification the one applied last, and only corrections wait
after it. They can lengthen fields in the second batch, so that rows are told; but what waits after that was
corrected while the rows were at hand, and keeps them. The third batch tells no rows, and nothing waits. -/

namespace FormSession
open FormSession.Action (followEdit)

/-! ### Rows that stay -/

namespace RowTracker
variable {k : RowTracker} {target : RowTarget}

/-- A tracker whose displayed rows are as many as it is to have takes no step. -/
theorem submit_nil (reset : target.reset = false) (h : k.active = true → k.count = k.bounds.clamp target.desired) :
    (k.submit target).1 = [] := by
  rw [submit]
  split
  · next hactive =>
    refine List.eq_nil_of_length_eq_zero ?_
    rw [k.length_realize reset, realize, h hactive]
    simp
  · rfl

end RowTracker

namespace Visibility
variable {form : Form} {v : Visibility} {moves : List (String × List RowOp)} {m : Classification} {f : String}

theorem followMoves_of_nil (h : ∀ move ∈ moves, move.2 = []) : v.followMoves form moves = v := by
  induction moves generalizing v with
  | nil => rfl
  | cons move rest ih =>
    obtain ⟨hmove, hrest⟩ := List.forall_mem_cons.mp h
    have hsame : v.followRows (form.groupFields move.1) move.2 = v := by rw [followRows, hmove]; rfl
    show (v.followRows (form.groupFields move.1) move.2).followMoves form rest = v
    rw [hsame]
    exact ih hrest

/-- A verdict goes away where the rows of a group with the field moved. -/
theorem exists_move_of_cache (h : (v.followMoves form moves).cache[f]? ≠ v.cache[f]?) :
    ∃ move ∈ moves, move.2 ≠ [] ∧ f ∈ form.groupFields move.1 := by
  induction moves generalizing v with
  | nil => exact absurd rfl h
  | cons move rest ih =>
    by_cases hmove : move.2 ≠ [] ∧ f ∈ form.groupFields move.1
    · exact ⟨move, List.mem_cons_self, hmove⟩
    · have hsame : (v.followRows (form.groupFields move.1) move.2).cache[f]? = v.cache[f]? := by
        rw [getElem?_cache_followRows, if_neg hmove]
      obtain ⟨later, hlater, hfound⟩ := ih (v := v.followRows (form.groupFields move.1) move.2) (hsame ▸ h)
      exact ⟨later, List.mem_cons_of_mem _ hlater, hfound⟩

theorem resolutions_of_cached {cx : PassContext} (h : v.cache = m) : v.resolutions cx false m = [] := by
  refine List.eq_nil_iff_forall_not_mem.mpr fun r hr => ?_
  obtain ⟨f, verdict, hm, -, hfound, -⟩ := mem_resolutions.mp hr
  rcases hfound with hforce | hnew
  · cases hforce
  · exact hnew (h ▸ hm)

end Visibility

/-! ### Edits that keep the rows -/

namespace Session
variable {η : Type} {form : Form} {s : Session η} {e e' : FormEdit} {m : Classification}

/-- The edit takes no row away, and writes to no length field past its values where the rows of its group are
    displayed, which are as many as the values ask for. -/
structure KeepsRows (s : Session η) (e : FormEdit) : Prop where
  writesOnly : e.WritesOnly
  within : ∀ (id : String) (k : RowTracker) (x : FieldEdit), s.trackers[id]? = some k → k.active = true →
    e[k.lengthField]? = some x →
      x.writtenLength ≤ s.store.length k.lengthField ∧ k.count = k.bounds.clamp (s.store.length k.lengthField)

/-- Nothing but writes that keep the rows waits. -/
def WaitsKeeping (s : Session η) : Prop :=
  ∀ task ∈ s.queue.waiting.map (·.task), ∃ e, task = .write e ∧ s.KeepsRows e

theorem exists_tracker_of_cache {move : Session η → RowTracker → List RowOp × RowTracker} {t : Told} {f : String}
    (h : (s.moved form move t).visibility.cache[f]? ≠ s.visibility.cache[f]?) :
    ∃ id k, s.trackers[id]? = some k ∧ (move s k).1 ≠ [] ∧ f ∈ form.groupFields id := by
  obtain ⟨⟨id, ops⟩, hmem, hne, hf⟩ := Visibility.exists_move_of_cache h
  obtain ⟨⟨id, step⟩, hstep, hsame⟩ := List.mem_map.mp hmem
  rw [Std.ExtTreeMap.mem_toList_iff_getElem?_eq_some, moves, Std.ExtTreeMap.getElem?_map] at hstep
  obtain ⟨k, hk, rfl⟩ := Option.map_eq_some_iff.mp hstep
  cases hsame
  exact ⟨id, k, hk, hne, hf⟩

theorem HasRows.group_unique (rows : s.HasRows form) {id id' : String} {k k' : RowTracker} {f : String}
    (hk : s.trackers[id]? = some k) (hk' : s.trackers[id']? = some k') (hf : f ∈ form.groupFields id)
    (hf' : k'.lengthField = f) : id = id' := by
  obtain ⟨g, hg, -⟩ := rows.own hk
  obtain ⟨g', hg', hfield, -⟩ := rows.own hk'
  obtain ⟨hmem, rfl⟩ := Schema.group?_eq_some hg
  obtain ⟨hmem', rfl⟩ := Schema.group?_eq_some hg'
  rw [Form.groupFields, hg] at hf
  have hlength : f ∈ g'.fields := hf' ▸ List.mem_of_mem_head? hfield
  rw [(Schema.problems_eq_nil_iff.mp form.valid).group_unique hmem hmem' hf hlength]

variable [EditHook η]

section Written
variable {u : Update} {store : Store η} (hooks : s.store.hooks = []) (he : e.WritesOnly)
  (hstage : s.store.stage e = (some u, store))
include hooks he hstage

theorem reduced_of_stage {f : String} {y : FieldEdit} (hy : u.edit[f]? = some y) :
    (∃ x, e[f]? = some x) ∧ y.hasDrops = false ∧ y.Reduced (s.store.values f) ∧ y ≠ [] ∧ store.values f = y.applyTo (s.store.values f) := by
  have hcases := Store.stage_cases s.store e
  rw [hooks] at hcases
  rcases hcases with ⟨-, hnone⟩ | ⟨u', store', hsome, hedit, hleads, -⟩
  · rw [hstage] at hnone
    cases hnone
  · rw [hstage] at hsome
    cases hsome
    have hclean : (s.store.normalize e)[f]? = some y := by
      rw [← hy, hedit]
    rw [Store.getElem?_normalize] at hclean
    obtain ⟨x, hx, hclean⟩ := Option.bind_eq_some_iff.mp hclean
    split at hclean
    · cases hclean
    · rename_i hne
      cases hclean
      exact ⟨⟨x, hx⟩, FieldEdit.hasDrops_normalize (he f x hx) _, FieldEdit.reduced_normalize x _, hne,
        hleads.values_of_some hy⟩

theorem length_of_stage (f : String) : store.length f = max (s.store.length f) (FieldEdit.writtenLength (e.getD f [])) := by
  rw [← Store.length_stage hooks he, hstage]

/-- A tracker stays where the length field does, or takes a target for as many rows as there are values, of which
    there are some, the edit being one of the length field. -/
theorem followEdit_of_writes (k : RowTracker) :
    (followEdit u.edit { s with store } k = ([], k) ∧ store.length k.lengthField = s.store.length k.lengthField) ∨
      (followEdit u.edit { s with store } k = k.submit (.ofLength (store.length k.lengthField)) ∧
        0 < store.length k.lengthField ∧ ∃ x, e[k.lengthField]? = some x) := by
  rw [followEdit]
  cases hy : u.edit[k.lengthField]? with
  | none =>
    have hleads : s.store.Leads u.edit store := Store.leads_of_change (c := .stage e) hstage
    exact Or.inl ⟨rfl, congrArg List.length (hleads.values_of_none hy)⟩
  | some y =>
    obtain ⟨hnamed, hdrops, hreduced, hne, hvalues⟩ := reduced_of_stage hooks he hstage hy
    have hlength : store.length k.lengthField = (y.applyTo (s.store.values k.lengthField)).length :=
      congrArg List.length hvalues
    have hfilled : 0 < y.length := List.length_pos_iff.mpr hne
    have hle := hreduced.length_le (FieldEdit.firstDrop?_eq_none_iff.mpr hdrops)
    refine Or.inr ⟨?_, by omega, hnamed⟩
    show k.submit (.ofEdit y (store.length k.lengthField)) = _
    rw [hlength, RowTarget.ofEdit_of_writes hdrops hreduced]

/-- The tracker of a displayed group after such an edit: its rows are as many as the values ask for, unless
    nothing changed for it. -/
theorem tracker_moved {id : String} {k' : RowTracker}
    (hk' : (({ s with store } : Session η).moved form (followEdit u.edit) []).trackers[id]? = some k')
    (active : k'.active = true) : ∃ k, s.trackers[id]? = some k ∧ k.active = true ∧ k.lengthField = k'.lengthField ∧
      ((k' = k ∧ store.length k'.lengthField = s.store.length k'.lengthField) ∨
        k'.count = k'.bounds.clamp (store.length k'.lengthField)) := by
  rw [getElem?_trackers_moved] at hk'
  obtain ⟨k, hk, hmove⟩ := Option.map_eq_some_iff.mp hk'
  rcases followEdit_of_writes hooks he hstage k with ⟨hstays, hlength⟩ | ⟨hsubmits, -⟩
  · rw [hstays] at hmove
    subst hmove
    exact ⟨k, hk, active, rfl, Or.inl ⟨rfl, hlength⟩⟩
  · rw [hsubmits] at hmove
    subst hmove
    rw [RowTracker.active_submit] at active
    rw [RowTracker.submit_of_active active]
    exact ⟨k, hk, active, rfl, Or.inr rfl⟩

theorem KeepsRows.moved (h : s.KeepsRows e') :
    (({ s with store } : Session η).moved form (followEdit u.edit) []).KeepsRows e' where
  writesOnly := h.writesOnly
  within id k' x hk' active hx := by
    show x.writtenLength ≤ store.length k'.lengthField ∧ k'.count = k'.bounds.clamp (store.length k'.lengthField)
    obtain ⟨k, hk, hactive, hfield, hcount⟩ := tracker_moved hooks he hstage hk' active
    obtain ⟨hwithin, hbefore⟩ := h.within id k x hk hactive (hfield ▸ hx)
    rw [hfield] at hwithin hbefore
    have hlonger : s.store.length k'.lengthField ≤ store.length k'.lengthField := by
      rw [length_of_stage hooks he hstage]
      exact Nat.le_max_left ..
    refine ⟨Nat.le_trans hwithin hlonger, ?_⟩
    rcases hcount with ⟨rfl, hlength⟩ | hcount
    · rw [hlength, hbefore]
    · exact hcount

/-- What a pass corrects right after such an edit keeps the rows: it resolves fields of groups whose rows moved
    alone, and those rows are as many as there are values. -/
theorem keepsRows_corrections (rows : s.HasRows form) (cached : s.visibility.cache = m) (t : Session η)
    (ht : t = ({ s with store } : Session η).moved form (followEdit u.edit) []) :
    t.KeepsRows (t.passAt form m false).1.corrections where
  writesOnly := Visibility.writesOnly_corrections
  within id k' x hk' active hx := by
    subst ht
    obtain ⟨r, hr, hrf, -⟩ := Visibility.exists_of_getElem?_pass_corrections hx
    obtain ⟨f, verdict, hm, -, hfound, rfl⟩ := Visibility.mem_resolutions.mp hr
    cases (show f = k'.lengthField from hrf)
    obtain ⟨k, hk, hactive, hfield, -⟩ := tracker_moved hooks he hstage hk' active
    have hmoved : (({ s with store } : Session η).moved form (followEdit u.edit) []).visibility.cache[k'.lengthField]? ≠
        s.visibility.cache[k'.lengthField]? := by
      rw [cached, hm]
      exact hfound.resolve_left Bool.false_ne_true
    obtain ⟨id', k₂, hk₂, hsteps, hf⟩ := exists_tracker_of_cache hmoved
    -- The group of the steps is the one whose length field is written.
    have hid : id' = id := rows.group_unique hk₂ hk hf hfield
    subst hid
    cases hk.symm.trans hk₂
    rcases followEdit_of_writes hooks he hstage k with ⟨hstays, -⟩ | ⟨hsubmits, hfilled, -⟩
    · rw [hstays] at hsteps
      exact absurd rfl hsteps
    · rw [getElem?_trackers_moved] at hk'
      have hk₁ : some (followEdit u.edit { s with store } k).2 = some k' := by
        rw [← hk', show ({ s with store } : Session η).trackers[id']? = some k from hk]
        rfl
      rw [hsubmits, RowTracker.submit_of_active hactive] at hk₁
      cases hk₁
      exact ⟨Visibility.writtenLength_corrections_le hx hfilled, rfl⟩

theorem KeepsRows.visibility_moved (h : s.KeepsRows e) :
    (({ s with store } : Session η).moved form (followEdit u.edit) []).visibility = s.visibility := by
  refine Visibility.followMoves_of_nil fun move hmove => ?_
  obtain ⟨⟨id, step⟩, hstep, rfl⟩ := List.mem_map.mp hmove
  rw [Std.ExtTreeMap.mem_toList_iff_getElem?_eq_some, moves, Std.ExtTreeMap.getElem?_map] at hstep
  obtain ⟨k, hk, rfl⟩ := Option.map_eq_some_iff.mp hstep
  have hk : s.trackers[id]? = some k := hk
  show (followEdit u.edit { s with store } k).1 = []
  rcases followEdit_of_writes hooks he hstage k with ⟨hstays, -⟩ | ⟨hsubmits, -, x, hx⟩
  · rw [hstays]
  · rw [hsubmits]
    refine RowTracker.submit_nil rfl fun hactive => ?_
    obtain ⟨hwithin, hcount⟩ := h.within id k x hk hactive hx
    have hlength : store.length k.lengthField = s.store.length k.lengthField := by
      rw [length_of_stage hooks he hstage, Std.ExtTreeMap.getD_eq_getD_getElem?, hx]
      exact Nat.max_eq_left hwithin
    show k.count = k.bounds.clamp (store.length k.lengthField)
    rw [hlength, hcount]

end Written

/-! ### Batches -/

theorem steady_afterBatch (hooks : s.store.hooks = []) (rows : s.HasRows form) :
    (s.afterBatch form).store.hooks = [] ∧ (s.afterBatch form).HasRows form := by
  refine List.foldlRecOn _ _ (motive := fun t : Session η => t.store.hooks = [] ∧ t.HasRows form)
    ⟨hooks, rows.present, rows.own, rows.settled⟩ fun t ht task _ => ?_
  refine ⟨?_, keep_ran (fun ht hs => ht.hasRows hs) ht.2 task⟩
  have hlength : (t.ran form task).store.hooks.length = t.store.hooks.length :=
    keep_ran (P := fun t' => t'.store.hooks.length = t.store.hooks.length) (fun ht hs => ht.length_hooks.trans hs) rfl _
  exact List.length_eq_zero_iff.mp (hlength.trans (by rw [ht.1, List.length_nil]))

section Batches
variable (constant : ∀ values, form.classify values = m)
include constant

omit [EditHook η] in
theorem reclassified_of_constant (s : Session η) : s.reclassified form = s.classified form m false := by
  rw [reclassified, constant]

theorem written_cases (s : Session η) (e : FormEdit) :
    (∃ store, s.store.stage e = (none, store) ∧ s.written form e = { s with store }) ∨
      ∃ u store t, s.store.stage e = (some u, store) ∧ t = ({ s with store } : Session η).moved form (followEdit u.edit) [] ∧
        s.written form e = t.classified form m false := by
  rw [written]
  rcases hstage : s.store.stage e with ⟨_ | u, store⟩
  · exact Or.inl ⟨store, rfl, rfl⟩
  · exact Or.inr ⟨u, store, _, rfl, rfl, reclassified_of_constant constant _⟩

/-- After the first batch the classification is the one applied last, or nothing waits; and what waits are
    corrections. -/
theorem afterBatch_cached (s : Session η) :
    ((s.afterBatch form).queue.waiting = [] ∨ (s.afterBatch form).visibility.cache = m) ∧
      ∀ task ∈ (s.afterBatch form).queue.waiting.map (·.task), task.WritesOnly := by
  have hpass : ∀ t : Session η, (∀ task ∈ t.queue.waiting.map (·.task), task.WritesOnly) →
      ∀ task ∈ (t.classified form m false).queue.waiting.map (·.task), task.WritesOnly := by
    intro t hwaits task htask
    rcases TaskQueue.mem_corrected.mp htask with hbefore | ⟨-, rfl⟩
    · exact hwaits task hbefore
    · exact ⟨_, rfl, Visibility.writesOnly_corrections⟩
  refine List.foldlRecOn _ _ (motive := fun t : Session η => (t.queue.waiting = [] ∨ t.visibility.cache = m) ∧
    ∀ task ∈ t.queue.waiting.map (·.task), task.WritesOnly) ?_ fun t ht task _ => ?_
  · exact ⟨Or.inl rfl, fun task htask => (by cases htask)⟩
  · cases task with
    | classify =>
      rw [ran, reclassified_of_constant constant]
      exact ⟨Or.inr rfl, hpass t ht.2⟩
    | write e =>
      rw [ran]
      rcases written_cases constant t e with ⟨store, -, hsame⟩ | ⟨u, store, t', -, ht', hpassed⟩
      · rw [hsame]
        exact ht
      · rw [hpassed]
        refine ⟨Or.inr rfl, hpass t' ?_⟩
        subst ht'
        exact ht.2

/-- After a write that takes no row away, what was to keep the rows still does, and what comes to wait does, too. -/
theorem keepsRows_written (hooks : s.store.hooks = []) (rows : s.HasRows form) (cached : s.visibility.cache = m)
    (he : e.WritesOnly) : (∀ e', s.KeepsRows e' → (s.written form e).KeepsRows e') ∧
      (s.written form e).visibility.cache = m ∧
      ∀ task ∈ (s.written form e).queue.waiting.map (·.task), task ∈ s.queue.waiting.map (·.task) ∨
        ∃ e', task = .write e' ∧ (s.written form e).KeepsRows e' := by
  rcases written_cases constant s e with ⟨store, hstage, hsame⟩ | ⟨u, store, t, hstage, ht, hpassed⟩
  · have hlength : ∀ f, store.length f = s.store.length f := fun f =>
      congrArg List.length (Store.values_of_change_none (c := .stage e) hstage f)
    rw [hsame]
    refine ⟨fun e' h => ⟨h.writesOnly, fun id k x hk hactive hx => ?_⟩, cached, fun task htask => Or.inl htask⟩
    show x.writtenLength ≤ store.length k.lengthField ∧ k.count = k.bounds.clamp (store.length k.lengthField)
    rw [hlength]
    exact h.within id k x hk hactive hx
  · rw [hpassed]
    refine ⟨fun e' h => ?_, rfl, fun task htask => ?_⟩
    · have hmoved : t.KeepsRows e' := ht ▸ h.moved hooks he hstage
      exact ⟨hmoved.writesOnly, hmoved.within⟩
    · rcases TaskQueue.mem_corrected.mp htask with hbefore | ⟨-, rfl⟩
      · subst ht
        exact Or.inl hbefore
      · have hnew := keepsRows_corrections hooks he hstage rows cached t ht
        exact Or.inr ⟨_, rfl, hnew.writesOnly, hnew.within⟩

theorem afterBatch_keeping (hooks : s.store.hooks = []) (rows : s.HasRows form) (cached : s.visibility.cache = m)
    (writes : ∀ task ∈ s.queue.waiting.map (·.task), task.WritesOnly) :
    (s.afterBatch form).WaitsKeeping ∧ (s.afterBatch form).visibility.cache = m := by
  have hall : (s.afterBatch form).WaitsKeeping ∧ (s.afterBatch form).visibility.cache = m ∧
      (s.afterBatch form).store.hooks = [] ∧ (s.afterBatch form).HasRows form := by
    refine List.foldlRecOn _ _ (motive := fun t : Session η => t.WaitsKeeping ∧ t.visibility.cache = m ∧
      t.store.hooks = [] ∧ t.HasRows form) ?_ fun t ht task htask => ?_
    · exact ⟨fun task htask => (by cases htask), cached, hooks, rows.present, rows.own, rows.settled⟩
    · obtain ⟨hwaits, hcached, hhooks, hrows⟩ := ht
      obtain ⟨e, rfl, he⟩ := writes task htask
      obtain ⟨hkeeps, hcached', hnew⟩ := keepsRows_written constant hhooks hrows hcached he
      refine ⟨fun task htask => ?_, hcached', hooks_written hhooks e, keep_ran (fun ht hs => ht.hasRows hs) hrows _⟩
      rcases hnew task htask with hbefore | hafter
      · obtain ⟨e', rfl, he'⟩ := hwaits task hbefore
        exact ⟨e', rfl, hkeeps e' he'⟩
      · exact hafter
  exact ⟨hall.1, hall.2.1⟩

theorem KeepsRows.queue_written (h : s.KeepsRows e) (hooks : s.store.hooks = []) (cached : s.visibility.cache = m) :
    (s.written form e).queue = s.queue := by
  rcases written_cases constant s e with ⟨store, -, hsame⟩ | ⟨u, store, t, hstage, ht, hpassed⟩
  · rw [hsame]
  · have hcached : t.visibility.cache = m := by
      rw [ht, h.visibility_moved hooks h.writesOnly hstage, cached]
    have hnone : (t.passAt form m false).1.corrections = ∅ := by
      simp [passAt, Visibility.pass, Visibility.resolutions_of_cached hcached]
    have hqueue : t.queue = s.queue := by
      rw [ht]
      rfl
    rw [hpassed]
    simp [classified, TaskQueue.corrected, hnone, hqueue]

theorem afterBatch_idle (hooks : s.store.hooks = []) (rows : s.HasRows form) (cached : s.visibility.cache = m)
    (keeps : s.WaitsKeeping) : (s.afterBatch form).queue.waiting = [] := by
  have hall : ∀ (tasks : List Task) (t : Session η), t.queue.waiting = [] → t.store.hooks = [] → t.HasRows form →
      t.visibility.cache = m → (∀ task ∈ tasks, ∃ e, task = .write e ∧ t.KeepsRows e) →
        (tasks.foldl (ran form) t).queue.waiting = [] := by
    intro tasks
    induction tasks with
    | nil => exact fun t hidle _ _ _ _ => hidle
    | cons task rest ih =>
      intro t hidle hhooks hrows hcached hkeeps
      obtain ⟨⟨e, rfl, he⟩, hrest⟩ := List.forall_mem_cons.mp hkeeps
      obtain ⟨hkept, hcached', -⟩ := keepsRows_written constant hhooks hrows hcached he.writesOnly
      have hqueue : (t.written form e).queue = t.queue := he.queue_written constant hhooks hcached
      have hrows' : (t.written form e).HasRows form := keep_ran (fun ht hs => ht.hasRows hs) hrows (.write e)
      refine ih (t.written form e) (by rw [hqueue, hidle]) (hooks_written hhooks e) hrows' hcached' fun task htask => ?_
      obtain ⟨e', rfl, he'⟩ := hrest task htask
      exact ⟨e', rfl, hkept e' he'⟩
  refine hall _ _ rfl hooks ⟨rows.present, rows.own, rows.settled⟩ cached fun task htask => ?_
  obtain ⟨e, rfl, he⟩ := keeps task htask
  exact ⟨e, rfl, he.writesOnly, he.within⟩

theorem afterBatches_idle (hooks : s.store.hooks = []) (rows : s.HasRows form) :
    (s.afterBatches form 3).queue.waiting = [] := by
  have hidle : ∀ t : Session η, t.queue.waiting = [] → (t.afterBatch form).queue.waiting = [] := fun t ht => by
    rw [afterBatch, ht]
    rfl
  obtain ⟨hcached, hwrites⟩ := afterBatch_cached constant s
  obtain ⟨hooks₁, rows₁⟩ := steady_afterBatch hooks rows
  show (((s.afterBatch form).afterBatch form).afterBatch form).queue.waiting = []
  rcases hcached with hdone | hcached
  · exact hidle _ (hidle _ hdone)
  · obtain ⟨hkeeps, hcached₂⟩ := afterBatch_keeping constant hooks₁ rows₁ hcached hwrites
    obtain ⟨hooks₂, rows₂⟩ := steady_afterBatch hooks₁ rows₁
    exact afterBatch_idle constant hooks₂ rows₂ hcached₂ hkeeps

end Batches

end Session

/-! ### Flushes -/

/-- If the classifier says the same of all values, there are no hooks, and three batches may be run, then a flush
    at which nothing is asked for runs three batches at most, and nothing waits after it. -/
theorem flush_settles {η σ : Type} [EditHook η] [Sink σ] {form : Form} {store : Store η} {trace : List Moment}
    {s : Session η} {sink : σ} {m : Classification} (h : History form (.new form store) trace s)
    (constant : ∀ values, form.classify values = m) (hooks : s.store.hooks = [])
    (batches : 3 ≤ form.schema.settings.maxBatches) (quiet : Quiet (Operation.flush.perform form s sink).2.trace) :
    ∃ n ≤ 3, (Operation.flush.perform form s sink).1 = .ok (.batches n) ∧
      (Operation.flush.perform form s sink).2.session.queue.isIdle = true := by
  have rows : s.HasRows form := h.hasRows (Session.hasRows_new form store)
  have hidle := Session.afterBatches_idle constant hooks rows
  rcases Operation.perform_flush quiet with ⟨n, -, hnone, hbefore, hreply, hend⟩ | ⟨hnever, -⟩
  · have hn : n ≤ 3 := by
      by_contra hmore
      exact hbefore 3 (Nat.lt_of_not_le hmore) hidle
    refine ⟨n, hn, hreply, ?_⟩
    rw [hend]
    exact List.isEmpty_iff.mpr hnone
  · exact absurd hidle (hnever 3 batches)

/-! ### Three batches -/

/-- A form with one group. Both fields of the group are hidden, the guests at three rows, and are then not
    applicable. -/
def guestForm : Form where
  schema :=
    { Schema.empty with
      registry := ((∅ : Registry).insert "guest" ⟨"", .onHide, false⟩).insert "meal" ⟨"", .onHide, false⟩
      steps := [⟨"party", []⟩]
      groups := [⟨"guests", "party", ["guest", "meal"], 0, 0⟩] }
  valid := by decide +kernel
  classify _ :=
    ((∅ : Classification).insert "guest" (.byRow [false, false, false])).insert "meal" (.uniform false)

/-- One guest and one meal, neither of them applicable. -/
def guestStore : Store Empty :=
  .ofCommitted (((∅ : FieldValues).insert "guest" ["N/A"]).insert "meal" ["N/A"])

/-- At the start the display asks for the only guest to be taken away. -/
def guestStarted : Except SessionError Reply × Run Empty ScriptedSink :=
  Operation.start.perform guestForm (.new guestForm guestStore)
    ⟨[[.write (((∅ : FormEdit).insert "guest" [.drop]).insert "meal" [.drop])]]⟩

/-- The first batch takes the guest away, and three of them are to be filled in; the second one does, and so are
    three meals. -/
theorem flush_settles_guestStarted :
    ∃ n ≤ 3, (Operation.flush.perform guestForm guestStarted.2.session SilentSink.mk).1 = .ok (.batches n) ∧
      (Operation.flush.perform guestForm guestStarted.2.session SilentSink.mk).2.session.queue.isIdle = true := by
  have history : History guestForm (.new guestForm guestStore) ([] ++ guestStarted.2.trace) guestStarted.2.session := by
    unfold guestStarted
    exact .call _ _ .begin
  exact flush_settles history (fun _ => rfl) (by decide +kernel) (by decide) (by decide +kernel)

example : (Operation.flush.perform guestForm guestStarted.2.session SilentSink.mk).1 = .ok (.batches 3) := by
  decide +kernel

end FormSession
