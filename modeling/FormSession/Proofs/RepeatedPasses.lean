import FormSession.Proofs.Retelling

/-! # Passes told once more

A pass tells a row only if it is not as it was applied before, or if the pass is forced. After a pass the rows that it
found are applied; so the same pass once more finds nothing to tell, also where verdicts were forgotten in between and
their fields are resolved again (`repeated_pass_idle`). A forced pass asks nothing of what was known before: it tells
every row that its verdicts decide, and what is known of those rows afterwards does not depend on what was known of
them (`forced_pass_resyncs`). Its corrections may, as a hidden row needs the sentinel only if it is new. -/

namespace FormSession

/-- The rows that a verdict decides of a field. -/
def PassContext.rows (cx : PassContext) (f : String) (verdict : Verdict) : List Bool :=
  verdict.decided (cx.rendered f) (cx.values f).length

namespace Resolution
variable {cx : PassContext} {force : Bool} {previous vector : List Bool} {field : String} {verdict : Verdict}

/-- Rows that are as before are not told, unless they are forced. -/
theorem changesOf_self (vector : List Bool) : changesOf false vector vector = [] := by
  refine List.eq_nil_iff_forall_not_mem.mpr ?_
  rintro ⟨i, visible⟩ hchange
  obtain ⟨hrow, hforced | hother⟩ := mem_changesOf.mp hchange
  · cases hforced
  · exact hother hrow

/-- What is forced does not depend on what was there before. -/
theorem changesOf_forced (previous vector : List Bool) : changesOf true previous vector = changesOf false [] vector := by
  simp [changesOf]

end Resolution

namespace Visibility
variable {v : Visibility} {cx : PassContext} {force : Bool} {m : Classification} {f : String} {verdict : Verdict}

/-! ### The same pass once more -/

theorem invalidate_nil (v : Visibility) : v.invalidate [] = v := by
  have hcache : (v.invalidate []).cache = v.cache := Std.ExtTreeMap.ext_getElem? fun f => by
    rw [getElem?_cache_invalidate, if_neg List.not_mem_nil]
  exact congrArg (Visibility.mk · v.applied v.ledger) hcache

theorem invalidate_invalidate (v : Visibility) (fields later : List String) :
    (v.invalidate fields).invalidate later = v.invalidate (fields ++ later) := by
  have hcache : ((v.invalidate fields).invalidate later).cache = (v.invalidate (fields ++ later)).cache := by
    refine Std.ExtTreeMap.ext_getElem? fun f => ?_
    simp only [getElem?_cache_invalidate, List.mem_append]
    by_cases hlater : f ∈ later
    · rw [if_pos hlater, if_pos (Or.inr hlater)]
    · simp only [hlater, or_false, ↓reduceIte]
  exact congrArg (Visibility.mk · v.applied v.ledger) hcache

/-- Verdicts may be forgotten all at once. -/
theorem foldl_invalidate (v : Visibility) (calls : List (List String)) :
    calls.foldl invalidate v = v.invalidate calls.flatten := by
  induction calls generalizing v with
  | nil => exact v.invalidate_nil.symm
  | cons fields rest ih => rw [List.foldl_cons, ih, invalidate_invalidate, List.flatten_cons]

/-- The pass does not resolve the displayed field, since its verdict is the one applied last. -/
def PassesOver (v : Visibility) (cx : PassContext) (force : Bool) (m : Classification) (f : String) : Prop :=
  f ∈ cx.active ∧ f ∈ m ∧ force = false ∧ v.cache[f]? = m[f]?

instance (v : Visibility) (cx : PassContext) (force : Bool) (m : Classification) (f : String) :
    Decidable (v.PassesOver cx force m f) :=
  inferInstanceAs (Decidable (_ ∧ _))

/-- Taking over rows that are applied already changes nothing. -/
theorem settle_applied {r : Resolution} (hrows : v.applied[r.field]? = some r.vector) (hchanges : r.changes = []) :
    v.settle r = v := by
  have happlied : (v.settle r).applied = v.applied := Std.ExtTreeMap.ext_getElem? fun f => by
    rw [getElem?_applied_settle]
    split
    · rename_i hf
      rw [← hf, hrows]
    · rfl
  have hledger : (v.settle r).ledger = v.ledger := by
    rw [settle, hchanges]
    rfl
  exact congrArg₂ (Visibility.mk v.cache) happlied hledger

/-- A pass that finds the rows that were applied before calls for nothing. -/
theorem idle_pass (h : ∀ r ∈ v.resolutions cx false m, v.applied[r.field]? = some r.vector) :
    (v.pass cx false m).1.queue = [] ∧ (v.pass cx false m).1.corrections = ∅ ∧
      (v.pass cx false m).2 = { v with cache := m } := by
  have hchanges : ∀ r ∈ v.resolutions cx false m, r.changes = [] := by
    intro r hr
    have happlied := h r hr
    obtain ⟨f, verdict, -, -, -, rfl⟩ := mem_resolutions.mp hr
    have hprevious : v.appliedRows f = cx.rows f verdict := by
      rw [appliedRows_eq]
      exact congrArg (·.getD []) happlied
    show Resolution.changesOf false (v.appliedRows f) (cx.rows f verdict) = []
    rw [hprevious, Resolution.changesOf_self]
  -- With no change of a row there is nothing to tell, to correct or to list.
  refine ⟨?_, ?_, ?_⟩
  · refine List.eq_nil_iff_forall_not_mem.mpr fun c hc => ?_
    obtain ⟨r, hr, hsome, -⟩ := mem_pass_queue.mp hc
    exact hsome (hchanges r hr)
  · refine Std.ExtTreeMap.ext_getElem? fun f => ?_
    rw [Std.ExtTreeMap.getElem?_empty, Option.eq_none_iff_forall_ne_some]
    intro e he
    obtain ⟨r, hr, -, hsome, -⟩ := exists_of_getElem?_pass_corrections he
    exact changes_ne_nil hr hsome (hchanges r hr)
  · have hsettled : (v.resolutions cx false m).foldl settle v = v := by
      refine settleAll_resolutions (P := fun _ w => w = v) (fun {_ w r} hr _ hw => ?_) rfl
      rw [hw]
      exact settle_applied (h r hr) (hchanges r hr)
    show { (v.resolutions cx false m).foldl settle v with cache := m } = _
    rw [hsettled]

/-- The same pass once more is idle, whatever verdicts were forgotten in between but those of displayed fields that the
    first pass passed over. -/
theorem repeated_pass_idle (v : Visibility) (cx : PassContext) (force : Bool) (m : Classification)
    {calls : List (List String)} (spared : ∀ fields ∈ calls, ∀ f ∈ fields, ¬v.PassesOver cx force m f) :
    let first := (v.pass cx force m).2
    let again := (calls.foldl invalidate first).pass cx false m
    again.1.queue = [] ∧ again.1.corrections = ∅ ∧ again.2 = first := by
  intro first again
  have hagain : again = (first.invalidate calls.flatten).pass cx false m := by rw [← foldl_invalidate]
  have hrows : ∀ r ∈ (first.invalidate calls.flatten).resolutions cx false m,
      (first.invalidate calls.flatten).applied[r.field]? = some r.vector := by
    intro r hr
    -- A field is resolved again only if it was named in between, and it was not passed over then.
    obtain ⟨f, verdict, hm, hactive, hfound, rfl⟩ := mem_resolutions.mp hr
    have hnamed : f ∈ calls.flatten := by
      by_contra hnot
      refine hfound.resolve_left Bool.false_ne_true ?_
      rw [getElem?_cache_invalidate, if_neg hnot]
      exact hm
    have hfirst : force = true ∨ v.cache[f]? ≠ some verdict := by
      obtain ⟨fields, hcall, hf⟩ := List.mem_flatten.mp hnamed
      have hmem : f ∈ m := Std.ExtTreeMap.mem_iff_isSome_getElem?.mpr (hm ▸ rfl)
      by_contra hover
      obtain ⟨hunforced, hcache⟩ := not_or.mp hover
      exact spared fields hcall f hf
        ⟨hactive, hmem, Bool.eq_false_iff.mpr hunforced, (Classical.not_not.mp hcache).trans hm.symm⟩
    have happlied := getElem?_applied_pass (mem_resolutions.mpr ⟨f, verdict, hm, hactive, hfirst, rfl⟩)
    exact happlied
  obtain ⟨hqueue, hcorrections, hstate⟩ := idle_pass hrows
  rw [hagain]
  exact ⟨hqueue, hcorrections, hstate⟩

end Visibility

/-! ### A forced pass -/

namespace FieldChange
variable {f : String} {rows : List Bool} {p : Nat → Bool}

/-- If the rows are decided by their number, so is how a whole field is told. -/
theorem whole_eq (hrows : ∀ i b, rows[i]? = some b → b = p i) :
    whole f rows = ⟨f, (List.range rows.length).filter p, (List.range rows.length).filter (!p ·)⟩ := by
  have hnumbered : rows.zipIdx = (List.range rows.length).map fun i => (p i, i) := by
    refine List.ext_getElem? fun i => ?_
    rw [List.getElem?_zipIdx, List.getElem?_map, Nat.zero_add]
    by_cases hi : i < rows.length
    · have hrow := List.getElem?_eq_getElem hi
      rw [hrow, List.getElem?_range hi, hrows i _ hrow]
      rfl
    · rw [List.getElem?_eq_none (Nat.le_of_not_lt hi), List.getElem?_eq_none (by simpa using hi)]
      rfl
  simp [whole, hnumbered, List.filter_map, Function.comp_def]

end FieldChange

namespace Resolution
variable {cx : PassContext} {previous : List Bool} {field : String} {verdict : Verdict}

theorem toChange_forced (cx : PassContext) (previous : List Bool) (field : String) (verdict : Verdict) :
    (resolve cx true previous field verdict).toChange = .whole field (cx.rows field verdict) := by
  have hchanges : (resolve cx true previous field verdict).changes =
      ((resolve cx true previous field verdict).afresh cx).changes := changesOf_forced ..
  have hwhole : ((resolve cx true previous field verdict).afresh cx).toChange = .whole field (cx.rows field verdict) :=
    toChange_afresh _
  rw [← hwhole, toChange, hchanges]
  rfl

theorem changes_forced_eq_nil : (resolve cx true previous field verdict).changes = [] ↔ cx.rows field verdict = [] := by
  have hchanges : (resolve cx true previous field verdict).changes =
      (cx.rows field verdict).zipIdx.map fun x => (x.2, x.1) := (changesOf_forced ..).trans (changesOf_nil _)
  rw [hchanges, List.map_eq_nil_iff, List.zipIdx_eq_nil_iff]

end Resolution

namespace Visibility
variable {v : Visibility} {cx : PassContext} {m : Classification} {f : String} {verdict : Verdict}

/-- A forced pass tells all rows of the displayed fields. -/
theorem queue_forced (v : Visibility) (cx : PassContext) (m : Classification) : (v.pass cx true m).1.queue =
    (m.toList.filter fun x => cx.active.contains x.1 && !(cx.rows x.1 x.2).isEmpty).map fun x =>
      .whole x.1 (cx.rows x.1 x.2) := by
  have hunsettled : v.unsettled cx true m = m.toList.filter fun x => cx.active.contains x.1 := by simp [unsettled]
  have htold : ∀ x : String × Verdict, (!(Resolution.resolve cx true (v.appliedRows x.1) x.1 x.2).changes.isEmpty) =
      !(cx.rows x.1 x.2).isEmpty := fun x => by
    rw [Bool.eq_iff_iff, Bool.not_eq_true', Bool.not_eq_true', List.isEmpty_eq_false_iff, List.isEmpty_eq_false_iff,
      Ne, Resolution.changes_forced_eq_nil]
  show ((v.resolutions cx true m).filter (!·.changes.isEmpty)).map Resolution.toChange = _
  rw [resolutions, hunsettled, List.filter_map, List.map_map, List.filter_filter]
  refine congrArg₂ List.map (funext fun x => Resolution.toChange_forced ..) (List.filter_congr fun x _ => ?_)
  rw [Bool.and_comm]
  exact congrArg _ (htold x)

theorem contains_pass_of_change {force : Bool} {r : Resolution} {i : Nat} {visible : Bool}
    (hr : r ∈ v.resolutions cx force m) (hchange : (i, visible) ∈ r.changes) :
    (v.pass cx force m).2.ledger.contains r.field i = !visible := by
  cases visible with
  | false => exact contains_pass.mpr (Or.inl ⟨r, hr, rfl, hchange⟩)
  | true =>
    rw [Bool.not_true, ← Bool.not_eq_true, contains_pass]
    rintro (⟨r', hr', hfield, hhidden⟩ | ⟨-, hnone⟩)
    · cases change_unique hr' hr hfield hhidden hchange
    · exact hnone r hr rfl hchange

theorem mem_queue_forced {c : FieldChange} : c ∈ (v.pass cx true m).1.queue ↔
    ∃ verdict, m[c.field]? = some verdict ∧ c.field ∈ cx.active ∧ cx.rows c.field verdict ≠ [] ∧
      c.shown = (List.range (cx.rows c.field verdict).length).filter verdict.matchesAt ∧
      c.hidden = (List.range (cx.rows c.field verdict).length).filter (!verdict.matchesAt ·) := by
  have hwhole : ∀ f verdict, FieldChange.whole f (cx.rows f verdict) =
      ⟨f, (List.range (cx.rows f verdict).length).filter verdict.matchesAt,
        (List.range (cx.rows f verdict).length).filter (!verdict.matchesAt ·)⟩ :=
    fun f verdict => FieldChange.whole_eq fun i b => Verdict.matchesAt_of_decided
  rw [queue_forced]
  simp only [List.mem_map, List.mem_filter, Bool.and_eq_true, Bool.not_eq_true', List.isEmpty_eq_false_iff,
    Std.ExtTreeSet.contains_iff_mem, Prod.exists, Std.ExtTreeMap.mem_toList_iff_getElem?_eq_some, hwhole]
  constructor
  · rintro ⟨f, verdict, ⟨hm, hactive, hrows⟩, rfl⟩
    exact ⟨verdict, hm, hactive, hrows, rfl, rfl⟩
  · rintro ⟨verdict, hm, hactive, hrows, hshown, hhidden⟩
    refine ⟨c.field, verdict, ⟨hm, hactive, hrows⟩, ?_⟩
    rw [← hshown, ← hhidden]

/-- What a forced pass leaves of a displayed field. -/
theorem forced_pass_field (v : Visibility) (hactive : f ∈ cx.active) (hm : m[f]? = some verdict) :
    (v.pass cx true m).2.applied[f]? = some (cx.rows f verdict) ∧ ∀ i < (cx.rows f verdict).length,
      (v.pass cx true m).2.ledger.contains f i = !verdict.matchesAt i := by
  have hr : Resolution.resolve cx true (v.appliedRows f) f verdict ∈ v.resolutions cx true m :=
    mem_resolutions.mpr ⟨f, verdict, hm, hactive, Or.inl rfl, rfl⟩
  refine ⟨getElem?_applied_pass hr, fun i hi => ?_⟩
  have hrow : (cx.rows f verdict)[i]? = some (cx.rows f verdict)[i] := List.getElem?_eq_getElem hi
  rw [← Verdict.matchesAt_of_decided hrow]
  exact contains_pass_of_change hr (Resolution.mem_resolve_changes.mpr ⟨hrow, Or.inl rfl⟩)

/-- Whatever was known of the display, a forced pass tells the same: each displayed field once, and each row that is
    decided of it, to be shown exactly if its verdict matches there. Afterwards the verdicts and the applied rows of
    those fields are the same, and of their rows those are listed that do not match. -/
theorem forced_pass_resyncs (v w : Visibility) (cx : PassContext) (m : Classification) :
    let (told, v') := v.pass cx true m
    let (retold, w') := w.pass cx true m
    told.queue = retold.queue ∧ (told.queue.map (·.field)).Nodup ∧
      (∀ c, c ∈ told.queue ↔ ∃ verdict, m[c.field]? = some verdict ∧ c.field ∈ cx.active ∧
        cx.rows c.field verdict ≠ [] ∧
        c.shown = (List.range (cx.rows c.field verdict).length).filter verdict.matchesAt ∧
        c.hidden = (List.range (cx.rows c.field verdict).length).filter (!verdict.matchesAt ·)) ∧
      v'.cache = m ∧ w'.cache = m ∧
      ∀ f ∈ cx.active, ∀ verdict, m[f]? = some verdict →
        v'.applied[f]? = some (cx.rows f verdict) ∧ w'.applied[f]? = some (cx.rows f verdict) ∧
          ∀ i < (cx.rows f verdict).length,
            v'.ledger.contains f i = (!verdict.matchesAt i) ∧ w'.ledger.contains f i = (!verdict.matchesAt i) := by
  refine ⟨(queue_forced v cx m).trans (queue_forced w cx m).symm, v.nodup_pass_fields cx true m,
    fun c => mem_queue_forced, rfl, rfl, fun f hactive verdict hm => ?_⟩
  obtain ⟨happlied, hlisted⟩ := forced_pass_field v hactive hm
  obtain ⟨happlied', hlisted'⟩ := forced_pass_field w hactive hm
  exact ⟨happlied, happlied', fun i hi => ⟨hlisted i hi, hlisted' i hi⟩⟩

end Visibility

/-! ### Beds of a ward -/

/-- Three beds and a note. A bed counts as not applicable where it is hidden. -/
def wardContext : PassContext where
  active := ((∅ : NameSet).insert "bed").insert "note"
  values f := if f = "bed" then ["Ada", "Max", "Eve"] else ["quiet"]
  rules := ⟨(∅ : Registry).insert "bed" ⟨"", .onHide, false⟩, "N/A"⟩
  rendered _ := none

/-- The second bed and the note are to be hidden. -/
def wardRounds : Classification :=
  ((∅ : Classification).insert "bed" (.byRow [true, false, true])).insert "note" (.uniform false)

/-- Two beds were shown, and beds are listed that were hidden earlier. The note was hidden when it had no row yet. -/
def wardSeen : Visibility where
  cache := ((∅ : Classification).insert "bed" (.uniform true)).insert "note" (.uniform false)
  applied := ((∅ : NameMap (List Bool)).insert "bed" [true, true]).insert "note" []
  ledger := (Ledger.empty.hide "bed" 2).hide "bed" 7

/-- The verdict of the beds is forgotten twice, and that of a field that there is not. -/
def wardForgotten : List (List String) := [["bed"], [], ["lamp", "bed"]]

theorem repeated_pass_idle_wardForgotten :
    let first := wardSeen.pass wardContext false wardRounds
    let again := (wardForgotten.foldl Visibility.invalidate first.2).pass wardContext false wardRounds
    (∀ fields ∈ wardForgotten, ∀ f ∈ fields, ¬wardSeen.PassesOver wardContext false wardRounds f) ∧
      wardSeen.PassesOver wardContext false wardRounds "note" ∧ first.1.queue = [⟨"bed", [2], [1]⟩] ∧
      first.2.ledger.order? "bed" 1 = some 2 ∧ again.1.queue = [] ∧ again.1.corrections = ∅ ∧ again.2 = first.2 := by
  have spared : ∀ fields ∈ wardForgotten, ∀ f ∈ fields, ¬wardSeen.PassesOver wardContext false wardRounds f := by
    decide +kernel
  exact ⟨spared, by decide +kernel, by decide +kernel, by decide +kernel,
    Visibility.repeated_pass_idle wardSeen wardContext false wardRounds spared⟩

/-- Once the verdict of the note is forgotten, which the first pass passed over, its row is told. -/
example : (((wardSeen.pass wardContext false wardRounds).2.invalidate ["note"]).pass wardContext false
    wardRounds).1.queue = [⟨"note", [], [0]⟩] := by
  decide +kernel

theorem forced_pass_resyncs_wardSeen :
    let (told, v) := Visibility.empty.pass wardContext true wardRounds
    let (retold, w) := wardSeen.pass wardContext true wardRounds
    told.queue = retold.queue ∧ retold.queue = [⟨"bed", [0, 2], [1]⟩, ⟨"note", [], [0]⟩] ∧
      w.ledger.contains "bed" 2 = false ∧ v.ledger.contains "bed" 7 = false ∧ w.ledger.contains "bed" 7 = true ∧
      told.corrections ≠ retold.corrections := by
  obtain ⟨hqueue, -, -, -, -, hfields⟩ :=
    Visibility.forced_pass_resyncs Visibility.empty wardSeen wardContext wardRounds
  obtain ⟨-, -, hlisted⟩ := hfields "bed" (by decide +kernel) (.byRow [true, false, true]) (by decide +kernel)
  exact ⟨hqueue, by decide +kernel, (hlisted 2 (by decide +kernel)).2.trans (by decide +kernel), by decide +kernel,
    by decide +kernel, by decide +kernel⟩

end FormSession
