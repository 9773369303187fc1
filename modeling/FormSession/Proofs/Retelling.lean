import FormSession.Proofs.DeferredWork
import FormSession.Proofs.HiddenRows

/-! # Refused passes told again

A pass that could not be told to its end is forgotten: when the classification is applied again, the fields of the
pass, and no others, are told from scratch, each of their rows once (`resolutions_refused`). What is known of the
display is then what it would be if the first pass had been told to its end, except that hidden rows of those
fields that the ledger had lost are listed again (`refused_told_again`). -/

namespace FormSession

/-! ### Fields told from scratch -/

/-- All rows of a field are shown or hidden. -/
def FieldChange.whole (field : String) (rows : List Bool) : FieldChange where
  field := field
  shown := (rows.zipIdx.filter (·.1)).map (·.2)
  hidden := (rows.zipIdx.filter (!·.1)).map (·.2)

theorem FieldChange.perm_whole (field : String) (rows : List Bool) :
    ((whole field rows).shown ++ (whole field rows).hidden).Perm (List.range rows.length) := by
  have hsplit := (List.filter_append_perm (fun x : Bool × Nat => x.1) rows.zipIdx).map (·.2)
  rw [List.map_append, List.zipIdx_map_snd, ← List.range_eq_range'] at hsplit
  exact hsplit

namespace Resolution
variable {cx : PassContext} {force : Bool} {previous vector : List Bool} {field : String} {verdict : Verdict}

/-- What a pass finds for a field of which it knows nothing: each row is to be shown or hidden. -/
def afresh (cx : PassContext) (r : Resolution) : Resolution :=
  { r with
    changes := changesOf false [] r.vector
    corrections := (changesOf false [] r.vector).filterMap fun (i, visible) =>
      (correction? cx.rules r.field (cx.values r.field) 0 i visible).map (i, ·) }

theorem afresh_resolve : (resolve cx force previous field verdict).afresh cx = resolve cx false [] field verdict := rfl

theorem mem_afresh_changes {r : Resolution} {i : Nat} {visible : Bool} :
    (i, visible) ∈ (r.afresh cx).changes ↔ r.vector[i]? = some visible := by
  simp [afresh, mem_changesOf]

theorem changesOf_nil (vector : List Bool) : changesOf false [] vector = vector.zipIdx.map fun x => (x.2, x.1) := by
  simp [changesOf]

theorem toChange_afresh (r : Resolution) : (r.afresh cx).toChange = .whole r.field r.vector := by
  simp [toChange, afresh, changesOf_nil, FieldChange.whole, List.filter_map, Function.comp_def]

end Resolution

/-! ### A pass that was forgotten -/

/-- The fields that a pass tells. -/
def Pass.fields (p : Pass) : List String := p.queue.map (·.field)

namespace Visibility
variable {v : Visibility} {cx : PassContext} {force : Bool} {m : Classification} {f : String} {verdict : Verdict}

/-- What is known once a pass was refused and its fields were forgotten. -/
def refused (v : Visibility) (cx : PassContext) (force : Bool) (m : Classification) : Visibility :=
  (v.pass cx force m).2.forget (v.pass cx force m).1.fields

theorem mem_pass_fields : f ∈ (v.pass cx force m).1.fields ↔
    ∃ r ∈ v.resolutions cx force m, r.changes ≠ [] ∧ r.field = f := by
  simp [Pass.fields, pass, Resolution.toChange, and_assoc]

theorem mem_pass_fields_iff (hm : m[f]? = some verdict) : f ∈ (v.pass cx force m).1.fields ↔
    f ∈ cx.active ∧ (force = true ∨ v.cache[f]? ≠ some verdict) ∧
      (Resolution.resolve cx force (v.appliedRows f) f verdict).changes ≠ [] := by
  rw [mem_pass_fields]
  constructor
  · rintro ⟨r, hr, hchanges, hrf⟩
    obtain ⟨verdict', hm', hactive, hfound, rfl⟩ := resolution_of_field hr hrf
    rw [hm] at hm'
    cases hm'
    exact ⟨hactive, hfound, hchanges⟩
  · rintro ⟨hactive, hfound, hchanges⟩
    exact ⟨_, mem_resolutions.mpr ⟨f, verdict, hm, hactive, hfound, rfl⟩, hchanges, rfl⟩

theorem getElem?_cache_refused (v : Visibility) (cx : PassContext) (force : Bool) (m : Classification) (f : String) :
    (v.refused cx force m).cache[f]? = if f ∈ (v.pass cx force m).1.fields then none else m[f]? :=
  getElem?_cache_invalidate (v.pass cx force m).2 (v.pass cx force m).1.fields f

theorem getElem?_applied_refused (v : Visibility) (cx : PassContext) (force : Bool) (m : Classification) (f : String) :
    (v.refused cx force m).applied[f]? =
      if f ∈ (v.pass cx force m).1.fields then none else (v.pass cx force m).2.applied[f]? :=
  getElem?_applied_forget ..

theorem appliedRows_refused (hf : f ∈ (v.pass cx force m).1.fields) : (v.refused cx force m).appliedRows f = [] := by
  rw [appliedRows_eq, getElem?_applied_refused, if_pos hf, Option.getD_none]

/-- Told again, a pass finds the fields with rows to tell afresh, and no others. -/
theorem resolutions_refused (v : Visibility) (cx : PassContext) (force : Bool) (m : Classification) :
    (v.refused cx force m).resolutions cx false m =
      ((v.resolutions cx force m).filter (!·.changes.isEmpty)).map (·.afresh cx) := by
  -- A field is resolved again exactly if it was forgotten: the verdicts of the other ones are the ones applied last.
  have hfield : ∀ x ∈ m.toList, ((x.1, x.2) ∈ (v.refused cx force m).unsettled cx false m ↔
      x.1 ∈ (v.pass cx force m).1.fields) := by
    intro x hx
    have hm : m[x.1]? = some x.2 := Std.ExtTreeMap.mem_toList_iff_getElem?_eq_some.mp hx
    rw [mem_unsettled, getElem?_cache_refused]
    by_cases hf : x.1 ∈ (v.pass cx force m).1.fields
    · have hactive := ((mem_pass_fields_iff hm).mp hf).1
      simp [hf, hm, hactive]
    · simp [hf, hm]
  have hunsettled : (v.refused cx force m).unsettled cx false m =
      (v.unsettled cx force m).filter fun x =>
        !(Resolution.resolve cx force (v.appliedRows x.1) x.1 x.2).changes.isEmpty := by
    rw [unsettled, unsettled, List.filter_filter]
    refine List.filter_congr fun x hx => ?_
    have hm : m[x.1]? = some x.2 := Std.ExtTreeMap.mem_toList_iff_getElem?_eq_some.mp hx
    have hiff := (hfield x hx).trans (mem_pass_fields_iff hm)
    rw [mem_unsettled] at hiff
    rw [Bool.eq_iff_iff]
    simp only [Bool.and_eq_true, Bool.or_eq_true, Bool.not_eq_true', List.isEmpty_eq_false_iff, bne_iff_ne,
      Std.ExtTreeSet.contains_iff_mem, hm, true_and] at hiff ⊢
    rw [hiff]
    constructor
    · rintro ⟨hactive, hfound, hchanges⟩
      exact ⟨hchanges, hactive, hfound⟩
    · rintro ⟨hchanges, hactive, hfound⟩
      exact ⟨hactive, hfound, hchanges⟩
  rw [resolutions, resolutions, hunsettled, List.filter_map, List.map_map]
  refine List.map_congr_left fun x hx => ?_
  have hx' : x ∈ (v.refused cx force m).unsettled cx false m := hunsettled ▸ hx
  have hm : x ∈ m.toList := (List.mem_filter.mp hx').1
  have hf : x.1 ∈ (v.pass cx force m).1.fields := (hfield x hm).mp hx'
  show Resolution.resolve cx false ((v.refused cx force m).appliedRows x.1) x.1 x.2 = Resolution.afresh cx _
  rw [appliedRows_refused hf, Resolution.afresh_resolve]

theorem mem_resolutions_refused {r : Resolution} : r ∈ (v.refused cx force m).resolutions cx false m ↔
    ∃ r₀ ∈ v.resolutions cx force m, r₀.changes ≠ [] ∧ r₀.afresh cx = r := by
  simp [resolutions_refused, and_assoc]

theorem appliedRows_pass {r : Resolution} (hr : r ∈ v.resolutions cx force m) :
    (v.pass cx force m).2.appliedRows r.field = r.vector := by
  rw [appliedRows_eq, getElem?_applied_pass hr, Option.getD_some]

theorem afresh_changes_ne_nil {r : Resolution} (hr : r ∈ v.resolutions cx force m) (h : r.changes ≠ []) :
    (r.afresh cx).changes ≠ [] := by
  obtain ⟨⟨i, visible⟩, hchange⟩ := List.exists_mem_of_ne_nil _ h
  exact List.ne_nil_of_mem (Resolution.mem_afresh_changes.mpr (vector_of_change hr hchange))

theorem queue_refused (v : Visibility) (cx : PassContext) (force : Bool) (m : Classification) :
    ((v.refused cx force m).pass cx false m).1.queue =
      (v.pass cx force m).1.queue.map fun c => .whole c.field ((v.pass cx force m).2.appliedRows c.field) := by
  have hall : ∀ r ∈ ((v.resolutions cx force m).filter (!·.changes.isEmpty)).map (·.afresh cx),
      (!r.changes.isEmpty) = true := by
    intro r hr
    obtain ⟨r₀, hr₀, rfl⟩ := List.mem_map.mp hr
    obtain ⟨hfound, hchanges⟩ := List.mem_filter.mp hr₀
    simpa using afresh_changes_ne_nil hfound (by simpa using hchanges)
  show (((v.refused cx force m).resolutions cx false m).filter (!·.changes.isEmpty)).map (·.toChange) =
    (((v.resolutions cx force m).filter (!·.changes.isEmpty)).map (·.toChange)).map _
  rw [resolutions_refused, List.filter_eq_self.mpr hall, List.map_map, List.map_map]
  refine List.map_congr_left fun r hr => ?_
  show (r.afresh cx).toChange = .whole r.field ((v.pass cx force m).2.appliedRows r.field)
  rw [Resolution.toChange_afresh, appliedRows_pass (List.mem_filter.mp hr).1]

theorem applied_refused (v : Visibility) (cx : PassContext) (force : Bool) (m : Classification) :
    ((v.refused cx force m).pass cx false m).2.applied = (v.pass cx force m).2.applied := by
  refine Std.ExtTreeMap.ext_getElem? fun f => ?_
  by_cases hf : f ∈ (v.pass cx force m).1.fields
  · obtain ⟨r, hr, hchanges, rfl⟩ := mem_pass_fields.mp hf
    have hr' : r.afresh cx ∈ (v.refused cx force m).resolutions cx false m :=
      mem_resolutions_refused.mpr ⟨r, hr, hchanges, rfl⟩
    exact (getElem?_applied_pass hr').trans (getElem?_applied_pass hr).symm
  · have hother : ∀ r ∈ (v.refused cx force m).resolutions cx false m, r.field ≠ f := by
      intro r hr hrf
      obtain ⟨r₀, hr₀, hchanges, rfl⟩ := mem_resolutions_refused.mp hr
      exact hf (mem_pass_fields.mpr ⟨r₀, hr₀, hchanges, hrf⟩)
    rw [getElem?_applied_pass_of_notMem hother, getElem?_applied_refused, if_neg hf]

/-! ### The ledger after a pass -/

/-- A pass finds of a row once what is to become of it. -/
theorem change_unique {r r' : Resolution} {i : Nat} {b b' : Bool} (hr : r ∈ v.resolutions cx force m)
    (hr' : r' ∈ v.resolutions cx force m) (hfield : r.field = r'.field) (h : (i, b) ∈ r.changes)
    (h' : (i, b') ∈ r'.changes) : b = b' := by
  cases List.inj_on_of_nodup_map (v.nodup_resolutions cx force m) hr hr' hfield
  have hvector := (vector_of_change hr h).symm.trans (vector_of_change hr h')
  exact Option.some.inj hvector

/-- After a pass the rows are listed that it hides, and those that were listed and that it does not show. -/
theorem contains_pass {i : Nat} : (v.pass cx force m).2.ledger.contains f i = true ↔
    (∃ r ∈ v.resolutions cx force m, r.field = f ∧ (i, false) ∈ r.changes) ∨
      (v.ledger.contains f i = true ∧ ∀ r ∈ v.resolutions cx force m, r.field = f → (i, true) ∉ r.changes) := by
  refine (settleAll_resolutions (P := fun done w => (∀ x ∈ done, x ∈ v.resolutions cx force m) ∧
    (w.ledger.contains f i = true ↔ (∃ x ∈ done, x.field = f ∧ (i, false) ∈ x.changes) ∨
      (v.ledger.contains f i = true ∧ ∀ x ∈ done, x.field = f → (i, true) ∉ x.changes)))
    (fun {done w r} hr _ hw => ⟨?_, ?_⟩) (by simp)).2
  · exact List.forall_mem_append.mpr ⟨hw.1, List.forall_mem_singleton.mpr hr⟩
  · -- What was found before for a field is not told otherwise by what is found for another one.
    have hbefore : ∀ x ∈ done, x.field = f → (i, false) ∈ x.changes → r.field = f → (i, true) ∉ r.changes := by
      intro x hx hxf hfalse hrf htrue
      cases change_unique (hw.1 x hx) hr (hxf.trans hrf.symm) hfalse htrue
    show (w.ledger.marks r.field r.changes).contains f i = true ↔ _
    rw [Ledger.contains_marks_iff (nodup_changes hr), hw.2]
    constructor
    · rintro (⟨hf, hchange⟩ | ⟨⟨x, hx, hxf, hchange⟩ | ⟨hlisted, hnone⟩, hnot⟩)
      · exact Or.inl ⟨r, by simp, hf, hchange⟩
      · exact Or.inl ⟨x, List.mem_append_left _ hx, hxf, hchange⟩
      · exact Or.inr ⟨hlisted, List.forall_mem_append.mpr ⟨hnone, List.forall_mem_singleton.mpr hnot⟩⟩
    · rintro (⟨x, hx, hxf, hchange⟩ | ⟨hlisted, hnone⟩)
      · rcases List.mem_append.mp hx with hx | hx
        · exact Or.inr ⟨Or.inl ⟨x, hx, hxf, hchange⟩, hbefore x hx hxf hchange⟩
        · cases List.mem_singleton.mp hx
          exact Or.inl ⟨hxf, hchange⟩
      · exact Or.inr ⟨Or.inr ⟨hlisted, fun x hx => hnone x (List.mem_append_left _ hx)⟩, hnone r (by simp)⟩

theorem order?_pass {i order : Nat}
    (hshown : ∀ r ∈ v.resolutions cx force m, r.field = f → (i, true) ∉ r.changes)
    (h : v.ledger.order? f i = some order) : (v.pass cx force m).2.ledger.order? f i = some order := by
  refine settleAll_resolutions (P := fun _ w => w.ledger.order? f i = some order) (fun {_ w r} hr _ hw => ?_) h
  show (w.ledger.marks r.field r.changes).order? f i = some order
  rw [Ledger.order?_marks_of_listed (Ledger.contains_iff_order?.mpr ⟨order, hw⟩) (hshown r hr), hw]

/-- A pass changes nothing in a ledger that lists its rows as it tells them. -/
theorem ledger_pass (tidy : v.ledger.Tidy)
    (hlisted : ∀ r ∈ v.resolutions cx force m, ∀ change ∈ r.changes, v.ledger.contains r.field change.1 = !change.2) :
    (v.pass cx force m).2.ledger = v.ledger := by
  refine settleAll_resolutions (P := fun _ w => w.ledger = v.ledger) (fun {_ w r} hr _ hw => ?_) rfl
  show w.ledger.marks r.field r.changes = v.ledger
  rw [hw]
  exact tidy.marks_self (hlisted r hr)

/-! ### The ledger after a pass is told again -/

/-- Told again, a pass shows or hides every row of the fields that it told. -/
theorem told_refused {i : Nat} {visible : Bool} :
    (∃ r ∈ (v.refused cx force m).resolutions cx false m, r.field = f ∧ (i, visible) ∈ r.changes) ↔
      f ∈ (v.pass cx force m).1.fields ∧ ((v.pass cx force m).2.appliedRows f)[i]? = some visible := by
  constructor
  · rintro ⟨r, hr, rfl, hchange⟩
    obtain ⟨r₀, hr₀, hchanges, rfl⟩ := mem_resolutions_refused.mp hr
    refine ⟨mem_pass_fields.mpr ⟨r₀, hr₀, hchanges, rfl⟩, ?_⟩
    show ((v.pass cx force m).2.appliedRows r₀.field)[i]? = some visible
    rw [appliedRows_pass hr₀]
    exact Resolution.mem_afresh_changes.mp hchange
  · rintro ⟨hf, hrow⟩
    obtain ⟨r, hr, hchanges, rfl⟩ := mem_pass_fields.mp hf
    rw [appliedRows_pass hr] at hrow
    exact ⟨r.afresh cx, mem_resolutions_refused.mpr ⟨r, hr, hchanges, rfl⟩, rfl, Resolution.mem_afresh_changes.mpr hrow⟩

theorem shown_refused {i : Nat} (hobeys : (v.pass cx force m).2.Obeys ListedHidden)
    (h : (v.pass cx force m).2.ledger.contains f i = true) :
    ∀ r ∈ (v.refused cx force m).resolutions cx false m, r.field = f → (i, true) ∉ r.changes := by
  intro r hr hrf hchange
  exact hobeys f i h (told_refused.mp ⟨r, hr, hrf, hchange⟩).2

theorem order?_refused {i order : Nat} (hobeys : (v.pass cx force m).2.Obeys ListedHidden)
    (h : (v.pass cx force m).2.ledger.order? f i = some order) :
    ((v.refused cx force m).pass cx false m).2.ledger.order? f i = some order :=
  order?_pass (shown_refused hobeys (Ledger.contains_iff_order?.mpr ⟨order, h⟩)) h

theorem contains_refused {i : Nat} (hobeys : (v.pass cx force m).2.Obeys ListedHidden) :
    ((v.refused cx force m).pass cx false m).2.ledger.contains f i = true ↔
      (v.pass cx force m).2.ledger.contains f i = true ∨
        (f ∈ (v.pass cx force m).1.fields ∧ ((v.pass cx force m).2.appliedRows f)[i]? = some false) := by
  rw [contains_pass, told_refused]
  constructor
  · rintro (hhidden | ⟨hlisted, -⟩)
    · exact Or.inr hhidden
    · exact Or.inl hlisted
  · rintro (hlisted | hhidden)
    · exact Or.inr ⟨hlisted, shown_refused hobeys hlisted⟩
    · exact Or.inl hhidden

/-- The ledger is as if the pass had been told the first time, exactly if the hidden rows of the fields that it told
    were listed. -/
theorem ledger_refused_iff (hobeys : (v.pass cx force m).2.Obeys ListedHidden) (tidy : (v.pass cx force m).2.ledger.Tidy) :
    ((v.refused cx force m).pass cx false m).2.ledger = (v.pass cx force m).2.ledger ↔
      ∀ f ∈ (v.pass cx force m).1.fields, ∀ i, ((v.pass cx force m).2.appliedRows f)[i]? = some false →
        (v.pass cx force m).2.ledger.contains f i = true := by
  constructor
  · intro hsame f hf i hrow
    rw [← hsame]
    exact (contains_refused hobeys).mpr (Or.inr ⟨hf, hrow⟩)
  · intro hlisted
    refine ledger_pass tidy fun r hr change hchange => ?_
    obtain ⟨hf, hrow⟩ := told_refused.mp ⟨r, hr, rfl, hchange⟩
    show (v.pass cx force m).2.ledger.contains r.field change.1 = !change.2
    cases hvisible : change.2 with
    | true =>
      rw [Bool.not_true, ← Bool.not_eq_true]
      exact fun hmem => hobeys r.field change.1 hmem (hvisible ▸ hrow)
    | false => exact hlisted r.field hf change.1 (hvisible ▸ hrow)

theorem pass_refused_iff (hobeys : (v.pass cx force m).2.Obeys ListedHidden) (tidy : (v.pass cx force m).2.ledger.Tidy) :
    ((v.refused cx force m).pass cx false m).2 = (v.pass cx force m).2 ↔
      ∀ f ∈ (v.pass cx force m).1.fields, ∀ i, ((v.pass cx force m).2.appliedRows f)[i]? = some false →
        (v.pass cx force m).2.ledger.contains f i = true := by
  rw [← ledger_refused_iff hobeys tidy]
  constructor
  · exact congrArg Visibility.ledger
  · exact congrArg₂ (Visibility.mk m) (v.applied_refused cx force m)

theorem listed_of_forced {i : Nat} (hf : f ∈ (v.pass cx true m).1.fields)
    (hrow : ((v.pass cx true m).2.appliedRows f)[i]? = some false) :
    (v.pass cx true m).2.ledger.contains f i = true := by
  obtain ⟨r, hr, -, rfl⟩ := mem_pass_fields.mp hf
  rw [appliedRows_pass hr] at hrow
  obtain ⟨f, verdict, -, -, -, rfl⟩ := mem_resolutions.mp hr
  exact contains_pass.mpr (Or.inl ⟨_, hr, rfl, Resolution.mem_resolve_changes.mpr ⟨hrow, Or.inl rfl⟩⟩)

/-! ### Ledgers without empty entries -/

theorem tidy_staysFollowing : StaysFollowing (·.ledger.Tidy) where
  removeRow field _ h := h.setRows field _
  forget _ h := h
  invalidate _ h := h

theorem tidy_pass (h : v.ledger.Tidy) (cx : PassContext) (force : Bool) (m : Classification) :
    (v.pass cx force m).2.ledger.Tidy :=
  settleAll_resolutions (P := fun _ w => w.ledger.Tidy) (fun {_ _ r} _ _ hw => hw.marks r.field r.changes) h

end Visibility

section Tidy
variable {η : Type} [EditHook η] {form : Form}

theorem Turn.tidy {b b' : List Task} {s s' : Session η} {ms : List Moment} {ds : List Deed}
    (h : Turn form b s ms ds b' s') (hs : s.visibility.ledger.Tidy) : s'.visibility.ledger.Tidy := by
  cases h with
  | unchanged => exact hs
  | changed => exact Visibility.tidy_staysFollowing.followMoves hs form _
  | seeded => exact Visibility.tidy_staysFollowing.followMoves hs form _
  | entered => exact Visibility.tidy_staysFollowing.followRows hs _ _
  | rebuilt => exact Visibility.tidy_staysFollowing.followRows hs _ _
  | passed m force => exact Visibility.tidy_pass hs _ force m
  | refused m force => exact Visibility.tidy_pass hs _ force m
  | began => exact hs
  | cleared => exact .clear _
  | displayed => exact .clear _
  | took => exact hs
  | dropped => exact hs
  | committed => exact hs

theorem History.tidy {store : Store η} {trace : List Moment} {s : Session η}
    (h : History form (.new form store) trace s) : s.visibility.ledger.Tidy :=
  h.keep (P := fun _ s _ => s.visibility.ledger.Tidy) (fun ht _ hs => ht.tidy hs) (fun _ hs => hs) Ledger.tidy_empty

end Tidy

/-! ### Events told again -/

/-- Which of the rows told are looked for. -/
inductive RowNews where
  /-- Those that are to be shown. -/
  | shown
  /-- Those that are to be hidden. -/
  | hidden
  /-- Those that are to be shown or hidden. -/
  | either
  deriving DecidableEq, Repr

/-- The rows of a field in an event, of those looked for. -/
def Event.rowsOf (news : RowNews) (f : String) : Event → List Nat
  | .shown field told => if field = f ∧ news ≠ .hidden then told else []
  | .hidden field told => if field = f ∧ news ≠ .shown then told else []
  | _ => []

/-- The rows of a change, of those looked for. -/
def FieldChange.rowsOf (c : FieldChange) : RowNews → List Nat
  | .shown => c.shown
  | .hidden => c.hidden
  | .either => c.shown ++ c.hidden

theorem FieldChange.rowsOf_events (c : FieldChange) (news : RowNews) (f : String) :
    c.events.flatMap (Event.rowsOf news f) = if c.field = f then c.rowsOf news else [] := by
  -- An event is left out where it would tell no row, so it matters whether there are rows to show and to hide.
  rcases hs : c.shown with _ | ⟨j, shown⟩ <;> rcases hh : c.hidden with _ | ⟨k, hidden⟩ <;>
    by_cases hf : c.field = f <;> cases news <;> simp [events, Event.rowsOf, rowsOf, hs, hh, hf]

/-- If all rows of some fields are told, each row of them is told once, and no row of another field. -/
theorem rowsOf_whole {queue : List FieldChange} (hfields : (queue.map (·.field)).Nodup) (rows : String → List Bool)
    (f : String) : ((queue.flatMap fun c => (FieldChange.whole c.field (rows c.field)).events).flatMap
      (Event.rowsOf .either f)).Perm (if f ∈ queue.map (·.field) then List.range (rows f).length else []) := by
  induction queue with
  | nil => exact .nil
  | cons c rest ih =>
    obtain ⟨hnot, hrest⟩ := List.nodup_cons.mp hfields
    rw [List.flatMap_cons, List.flatMap_append, FieldChange.rowsOf_events]
    have htold := ih hrest
    by_cases hc : c.field = f
    · subst hc
      rw [if_neg hnot] at htold
      have hmem : c.field ∈ (c :: rest).map (·.field) := List.mem_cons_self
      rw [if_pos hmem, List.perm_nil.mp htold, List.append_nil,
        if_pos (show (FieldChange.whole c.field (rows c.field)).field = c.field from rfl)]
      exact FieldChange.perm_whole c.field (rows c.field)
    · have hmem : f ∈ (c :: rest).map (·.field) ↔ f ∈ rest.map (·.field) := by simp [Ne.symm hc]
      rw [if_neg (show (FieldChange.whole c.field (rows c.field)).field ≠ f from hc), List.nil_append]
      simpa only [hmem] using htold

theorem Visibility.nodup_pass_fields (v : Visibility) (cx : PassContext) (force : Bool) (m : Classification) :
    (v.pass cx force m).1.fields.Nodup := by
  have hsub : (v.pass cx force m).1.fields.Sublist ((v.resolutions cx force m).map (·.field)) := by
    rw [Pass.fields, Visibility.pass, List.map_map]
    exact List.filter_sublist.map _
  exact hsub.nodup (v.nodup_resolutions cx force m)

section Retelling
variable {η σ : Type} [EditHook η] [Sink σ] {form : Form} {s : Session η} {m : Classification} {force : Bool}

theorem Operation.perform_apply (form : Form) (m : Classification) (force : Bool) (s : Session η) (sink : σ) :
    (∃ t sink', Told.events t = (s.passAt form m force).1.events ∧ (apply m force).perform form s sink =
      (.ok .done, Action.passed form m force t sink' ⟨s, sink, []⟩)) ∨
    ∃ t last sink', .classify ∈ last.2 ∧ (apply m force).perform form s sink =
      (.error .classificationRecursion, Action.refused form m force t last sink' ⟨s, sink, []⟩) := by
  have hunfold : (apply m force).perform form s sink =
      (Action.apply form m force >>= fun _ => pure Reply.done).perform ⟨s, sink, []⟩ := rfl
  rw [hunfold, Action.perform_bind]
  rcases Action.perform_apply m force (⟨s, sink, []⟩ : Run η σ) with
    ⟨t, sink', htold, -, hrun⟩ | ⟨t, last, sink', -, -, -, hlast, hrun⟩
  · exact Or.inl ⟨t, sink', htold, by rw [hrun]; rfl⟩
  · exact Or.inr ⟨t, last, sink', hlast, by rw [hrun]⟩

theorem Operation.passed_of_apply {sink : σ} {reply : Reply} {r : Run η σ}
    (h : (apply m force).perform form s sink = (.ok reply, r)) : ∃ t sink',
      Told.events t = (s.passAt form m force).1.events ∧ r = Action.passed form m force t sink' ⟨s, sink, []⟩ := by
  rcases perform_apply form m force s sink with ⟨t, sink', htold, hrun⟩ | ⟨t, last, sink', -, hrun⟩
  · rw [hrun] at h
    cases h
    exact ⟨t, sink', htold, rfl⟩
  · rw [hrun] at h
    cases h

theorem Operation.refused_of_apply {sink : σ} {e : SessionError} {r : Run η σ}
    (h : (apply m force).perform form s sink = (.error e, r)) : ∃ t last sink', .classify ∈ last.2 ∧
      r = Action.refused form m force t last sink' ⟨s, sink, []⟩ := by
  rcases perform_apply form m force s sink with ⟨t, sink', -, hrun⟩ | ⟨t, last, sink', hlast, hrun⟩
  · rw [hrun] at h
    cases h
  · rw [hrun] at h
    cases h
    exact ⟨t, last, sink', hlast, rfl⟩

theorem Operation.apply_of_calm {sink : σ}
    (calm : ∀ moment ∈ ((apply m force).perform form s sink).2.trace, moment.givesUp = false) :
    ∃ r, (apply m force).perform form s sink = (.ok .done, r) := by
  rcases perform_apply form m force s sink with ⟨t, sink', -, hrun⟩ | ⟨t, last, sink', hlast, hrun⟩
  · exact ⟨_, hrun⟩
  · rw [hrun] at calm
    have hlost := calm (.effect (.told last.1 .applying last.2)) (by simp [Action.refused, Told.moments])
    simp [Moment.givesUp, hlast] at hlost

omit [EditHook η] [Sink σ] in
theorem Action.events_passed (t : Told) (sink sink' : σ) (h : t.events = (s.passAt form m force).1.events) :
    (passed form m force t sink' ⟨s, sink, []⟩).trace.filterMap Moment.event? = (s.passAt form m force).1.events := by
  show List.filterMap Moment.event? ([] ++ (s.resolvedAt form m force ++ t.moments .applying)) = _
  rw [List.nil_append, List.filterMap_append, Session.events_resolvedAt, List.nil_append, Told.events_moments, h]

/-- If a pass is refused, and the classification is then applied again without the receiver asking for another one,
    exactly the fields of the pass are told, and each of their rows once. The classification applied last and the
    applied rows are then as if the pass had been told the first time. So are the numbers of the listed rows, but the
    hidden rows of the fields of the pass are listed in any case: all is the same exactly if they were listed
    otherwise, as they are if the pass was forced, or if no clear has run since tracking was reset. -/
theorem refused_told_again {τ υ : Type} [Sink τ] [Sink υ] {sink : σ} {sink' : τ} {sink'' : υ} {store : Store η}
    {trace : List Moment} {failed : Run η σ} {told : Run η τ} {reply : Reply}
    (h : History form (.new form store) trace s)
    (refused : (Operation.apply m force).perform form s sink = (.error .classificationRecursion, failed))
    (succeeded : (Operation.apply m force).perform form s sink' = (.ok reply, told))
    (calm : ∀ moment ∈ ((Operation.apply m false).perform form failed.session sink'').2.trace, moment.givesUp = false) :
    ∃ again, (Operation.apply m false).perform form failed.session sink'' = (.ok .done, again) ∧
      (again.trace.filterMap Moment.event? = (s.passAt form m force).1.queue.flatMap fun c =>
        (FieldChange.whole c.field (told.session.visibility.appliedRows c.field)).events) ∧
      (∀ f, ((again.trace.filterMap Moment.event?).flatMap (Event.rowsOf .either f)).Perm
        (if f ∈ (s.passAt form m force).1.fields then List.range (told.session.visibility.appliedRows f).length
          else [])) ∧
      again.session.visibility.cache = told.session.visibility.cache ∧
      again.session.visibility.applied = told.session.visibility.applied ∧
      (∀ f i order, told.session.visibility.ledger.order? f i = some order →
        again.session.visibility.ledger.order? f i = some order) ∧
      (∀ f i, again.session.visibility.ledger.contains f i = true ↔
        told.session.visibility.ledger.contains f i = true ∨
          (f ∈ (s.passAt form m force).1.fields ∧ (told.session.visibility.appliedRows f)[i]? = some false)) ∧
      (again.session.visibility = told.session.visibility ↔ ∀ f ∈ (s.passAt form m force).1.fields, ∀ i,
        (told.session.visibility.appliedRows f)[i]? = some false →
          told.session.visibility.ledger.contains f i = true) ∧
      (force = true ∨ Tracked form (.new form store) true s →
        again.session.visibility = told.session.visibility) := by
  obtain ⟨t, last, k, -, rfl⟩ := Operation.refused_of_apply refused
  obtain ⟨t', k', -, rfl⟩ := Operation.passed_of_apply succeeded
  obtain ⟨again, hagain⟩ := Operation.apply_of_calm calm
  obtain ⟨u, l, htold, rfl⟩ := Operation.passed_of_apply hagain
  have hobeys : (s.passAt form m force).2.Obeys ListedHidden := h.listedHidden.pass rowRule_listedHidden _ force m
  have htidy : (s.passAt form m force).2.ledger.Tidy := Visibility.tidy_pass h.tidy _ force m
  have hevents := Action.events_passed u sink'' l htold
  rw [Pass.events, Session.passAt] at hevents
  have hqueue := Visibility.queue_refused s.visibility (s.passContext form) force m
  have hagainEvents := hevents.trans (congrArg (List.flatMap FieldChange.events) hqueue)
  rw [List.flatMap_map] at hagainEvents
  have hsame := Visibility.pass_refused_iff hobeys htidy
  -- Nothing but the forgotten rows and the queue differs between the two sessions, so both passes look up the same.
  refine ⟨_, hagain, hagainEvents, fun f => ?_, rfl, Visibility.applied_refused .., fun f i order =>
    Visibility.order?_refused hobeys, fun f i => Visibility.contains_refused hobeys, hsame, fun hcase => ?_⟩
  · rw [hagainEvents]
    exact rowsOf_whole (Visibility.nodup_pass_fields ..) _ f
  · refine hsame.mpr fun f hf i hrow => ?_
    rcases hcase with rfl | htracked
    · exact Visibility.listed_of_forced hf hrow
    · exact (htracked.obeys rowRule_hiddenListed rfl).pass rowRule_hiddenListed _ force m f i hrow

end Retelling

/-! ### A row that is listed again -/

/-- A form with one field, of which the second row is shown. -/
def reasonForm : Form where
  schema := { Schema.empty with steps := [⟨"absence", ["reason"]⟩] }
  valid := by decide
  classify _ := (∅ : Classification).insert "reason" (.byRow [false, true])

/-- The first reason is empty, and the second one is given. -/
def reasonStore : Store Empty := .ofCommitted ((∅ : FieldValues).insert "reason" ["", "late"])

/-- The start hides the first row, and lists it. -/
def reasonStarted : Except SessionError Reply × Run Empty SilentSink :=
  Operation.start.perform reasonForm (.new reasonForm reasonStore) ⟨⟩

/-- The row is no longer listed, and is still hidden. -/
def reasonCleared : Except SessionError Reply × Run Empty SilentSink :=
  Operation.clear.perform reasonForm reasonStarted.2.session ⟨⟩

/-- Both reasons are to be hidden. -/
def noReason : Classification := (∅ : Classification).insert "reason" (.byRow [false, false])

/-- A classification is asked for when the second row is hidden. -/
def reasonRefused : Except SessionError Reply × Run Empty ScriptedSink :=
  (Operation.apply noReason false).perform reasonForm reasonCleared.2.session ⟨[[.classify]]⟩

/-- What had been if nothing had been asked for. -/
def reasonTold : Except SessionError Reply × Run Empty SilentSink :=
  (Operation.apply noReason false).perform reasonForm reasonCleared.2.session ⟨⟩

/-- The pass is repeated once it was refused. -/
def reasonRetold : Except SessionError Reply × Run Empty SilentSink :=
  (Operation.apply noReason false).perform reasonForm reasonRefused.2.session ⟨⟩

theorem refused_told_again_reasonRetold :
    reasonRetold.1 = .ok .done ∧
      reasonRetold.2.trace.filterMap Moment.event? = [.hidden "reason" [0, 1], .settled "reason"] ∧
      reasonRetold.2.session.visibility.cache = reasonTold.2.session.visibility.cache ∧
      reasonRetold.2.session.visibility.applied = reasonTold.2.session.visibility.applied ∧
      reasonRetold.2.session.visibility.ledger.contains "reason" 0 = true := by
  have history : History reasonForm (.new reasonForm reasonStore)
      ([] ++ reasonStarted.2.trace ++ reasonCleared.2.trace) reasonCleared.2.session := by
    unfold reasonCleared reasonStarted
    exact .call _ _ (.call _ _ .begin)
  have refused : (Operation.apply noReason false).perform reasonForm reasonCleared.2.session
      (⟨[[.classify]]⟩ : ScriptedSink) = (.error .classificationRecursion, reasonRefused.2) := by
    have herror : reasonRefused.1 = .error .classificationRecursion := by decide +kernel
    rw [← herror, reasonRefused]
  have succeeded : (Operation.apply noReason false).perform reasonForm reasonCleared.2.session SilentSink.mk =
      (.ok .done, reasonTold.2) := by
    have hok : reasonTold.1 = .ok .done := by decide +kernel
    rw [← hok, reasonTold]
  have calm : ∀ moment ∈ reasonRetold.2.trace, moment.givesUp = false := by decide +kernel
  obtain ⟨again, hagain, hevents, -, hcache, happlied, -, hlisted, -⟩ := refused_told_again history refused succeeded calm
  have hrun : reasonRetold = (.ok .done, again) := hagain
  rw [hrun]
  refine ⟨rfl, hevents.trans ?_, hcache, happlied, (hlisted "reason" 0).mpr (Or.inr ?_)⟩
  · decide +kernel
  · decide +kernel

/-- The first row was hidden before the classification is applied, and was listed until the clear. If the pass is told
    to its end the first time, the row is passed over; told again after it was refused, it lists the row. -/
theorem hidden_reason_listed_again :
    reasonStarted.1 = .ok .done ∧ reasonCleared.1 = .ok (.update none) ∧
      reasonRefused.1 = .error .classificationRecursion ∧
      reasonTold.1 = .ok .done ∧ reasonTold.2.session.visibility.ledger.contains "reason" 0 = false ∧
      reasonRetold.1 = .ok .done ∧ (∀ moment ∈ reasonRetold.2.trace, moment.givesUp = false) ∧
      reasonRetold.2.session.visibility.ledger.order? "reason" 0 = some 2 ∧
      reasonRetold.2.session.visibility ≠ reasonTold.2.session.visibility := by
  decide +kernel

end FormSession
