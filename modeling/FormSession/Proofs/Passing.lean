import FormSession.Visibility.Pass
import Mathlib.Data.List.Nodup

/-! # What a pass finds and takes over

A pass resolves each displayed field whose verdict is not the one applied last, once (`nodup_resolutions`).
Its rows are then the ones applied (`getElem?_applied_settle`), and nothing else changes. A row that is
neither to be shown nor to be hidden has the visibility applied to it before (`mem_changesOf`). -/

namespace FormSession

namespace Resolution
variable {cx : PassContext} {force : Bool} {previous vector : List Bool} {field : String} {verdict : Verdict}

/-- The changes tell each row that is not as before, or every row if the pass is forced. -/
theorem mem_changesOf {i : Nat} {visible : Bool} :
    (i, visible) ∈ changesOf force previous vector ↔
      vector[i]? = some visible ∧ (force = true ∨ previous[i]? ≠ some visible) := by
  simp only [changesOf, List.mem_filterMap, Prod.exists, List.mk_mem_zipIdx_iff_getElem?]
  constructor
  · rintro ⟨a, j, hj, h⟩
    split at h
    · rename_i hchange
      cases h
      exact ⟨hj, by simpa using hchange⟩
    · cases h
  · rintro ⟨hi, hchange⟩
    exact ⟨visible, i, hi, if_pos (by simpa using hchange)⟩

theorem mem_resolve_changes {i : Nat} {visible : Bool} :
    (i, visible) ∈ (resolve cx force previous field verdict).changes ↔
      (resolve cx force previous field verdict).vector[i]? = some visible ∧
        (force = true ∨ previous[i]? ≠ some visible) :=
  mem_changesOf

/-- The rows to show. -/
theorem mem_shown {r : Resolution} {i : Nat} : i ∈ r.toChange.shown ↔ (i, true) ∈ r.changes := by
  simp [toChange]

/-- The rows to hide. -/
theorem mem_hidden {r : Resolution} {i : Nat} : i ∈ r.toChange.hidden ↔ (i, false) ∈ r.changes := by
  simp [toChange]

/-! ### Corrections -/

/-- Entries that are kept or left out, each under the key it had, keep the order of the keys. -/
theorem keys_filterMap_sublist {α β κ : Type} {keep : α → Option β} {key : α → κ} {key' : β → κ}
    (hkey : ∀ a b, keep a = some b → key' b = key a) (l : List α) :
    ((l.filterMap keep).map key').Sublist (l.map key) := by
  induction l with
  | nil => exact .slnil
  | cons a rest ih =>
    rw [List.filterMap_cons, List.map_cons]
    split
    · exact ih.cons _
    · rename_i b hb
      rw [List.map_cons, hkey a b hb]
      exact ih.cons_cons _

/-- The rows that change are rows, in their order. -/
theorem indexes_changesOf_sublist (force : Bool) (previous vector : List Bool) :
    ((changesOf force previous vector).map (·.1)).Sublist (List.range' 0 vector.length) := by
  have hsub : ((changesOf force previous vector).map (·.1)).Sublist (vector.zipIdx.map (·.2)) := by
    refine keys_filterMap_sublist (fun x change h => ?_) _
    obtain ⟨-, hchange⟩ := Option.ite_none_right_eq_some.mp h
    rw [← Option.some.inj hchange]
  rwa [List.zipIdx_map_snd] at hsub

/-- The rows that change are different ones. -/
theorem nodup_changesOf (force : Bool) (previous vector : List Bool) :
    ((changesOf force previous vector).map (·.1)).Nodup :=
  (indexes_changesOf_sublist force previous vector).nodup List.nodup_range'

/-- The rows with a correction are different ones. -/
theorem nodup_resolve_corrections : ((resolve cx force previous field verdict).corrections.map (·.1)).Nodup := by
  refine List.Sublist.nodup (keys_filterMap_sublist (fun x correction h => ?_) _) (nodup_changesOf ..)
  obtain ⟨w, -, rfl⟩ := Option.map_eq_some_iff.mp h
  rfl

theorem mem_corrections_iff {i : Nat} {w : String} :
    (i, w) ∈ (resolve cx force previous field verdict).corrections ↔
      ∃ visible, (i, visible) ∈ (resolve cx force previous field verdict).changes ∧
        correction? cx.rules field (cx.values field) previous.length i visible = some w := by
  show (i, w) ∈ List.filterMap _ _ ↔ _
  simp only [List.mem_filterMap, Option.map_eq_some_iff, Prod.exists, Prod.mk.injEq]
  constructor
  · rintro ⟨i, visible, hchange, w, hw, rfl, rfl⟩
    exact ⟨visible, hchange, hw⟩
  · rintro ⟨visible, hchange, hw⟩
    exact ⟨i, visible, hchange, w, hw, rfl, rfl⟩

/-- A row that is shown while it holds the sentinel gets its default. -/
theorem mem_resolve_corrections {i : Nat} (hshown : (i, true) ∈ (resolve cx force previous field verdict).changes)
    (hvalue : (cx.values field)[i]? = some cx.rules.naValue)
    (hdefault : (cx.rules.spec field).default ≠ cx.rules.naValue) :
    (i, (cx.rules.spec field).default) ∈ (resolve cx force previous field verdict).corrections := by
  refine mem_corrections_iff.mpr ⟨true, hshown, ?_⟩
  simp [correction?, hvalue, hdefault]

section Folds
variable {α β : Type} {step : α → Resolution → α} {found : List Resolution} {f : String}

/-- What only the resolution of a field changes is the same if the field is not among those resolved. -/
theorem foldl_of_notMem (look : α → β) (others : ∀ a r, r.field ≠ f → look (step a r) = look a)
    (h : ∀ r ∈ found, r.field ≠ f) (a : α) : look (found.foldl step a) = look a := by
  induction found generalizing a with
  | nil => rfl
  | cons r rest ih =>
    obtain ⟨hr, hrest⟩ := List.forall_mem_cons.mp h
    rw [List.foldl_cons, ih hrest, others a r hr]

/-- What only the resolution of a field changes is what this resolution makes of it, wherever it comes. -/
theorem foldl_of_mem {r : Resolution} {b : β} (look : α → β)
    (others : ∀ a x, x.field ≠ r.field → look (step a x) = look a) (own : ∀ a, look (step a r) = b)
    (fields : (found.map (·.field)).Nodup) (hr : r ∈ found) (a : α) : look (found.foldl step a) = b := by
  induction found generalizing a with
  | nil => cases hr
  | cons x rest ih =>
    obtain ⟨hnot, hrest⟩ := List.nodup_cons.mp fields
    rw [List.foldl_cons]
    rcases List.mem_cons.mp hr with rfl | hr
    · rw [foldl_of_notMem look others fun y hy hyr => hnot (List.mem_map.mpr ⟨y, hy, hyr⟩), own]
    · exact ih hrest hr (step a x)

end Folds

end Resolution

namespace Visibility
variable {v : Visibility} {cx : PassContext} {force : Bool} {m : Classification} {r : Resolution} {f : String}

/-! ### Resolutions -/

theorem mem_unsettled {verdict : Verdict} : (f, verdict) ∈ v.unsettled cx force m ↔
    m[f]? = some verdict ∧ f ∈ cx.active ∧ (force = true ∨ v.cache[f]? ≠ some verdict) := by
  simp [unsettled]

theorem mem_resolutions : r ∈ v.resolutions cx force m ↔ ∃ f verdict, m[f]? = some verdict ∧ f ∈ cx.active ∧
    (force = true ∨ v.cache[f]? ≠ some verdict) ∧ Resolution.resolve cx force (v.appliedRows f) f verdict = r := by
  simp only [resolutions, List.mem_map, Prod.exists, mem_unsettled, and_assoc]

/-- What a pass finds for a field. -/
theorem resolution_of_field (hr : r ∈ v.resolutions cx force m) (hf : r.field = f) :
    ∃ verdict, m[f]? = some verdict ∧ f ∈ cx.active ∧ (force = true ∨ v.cache[f]? ≠ some verdict) ∧
      Resolution.resolve cx force (v.appliedRows f) f verdict = r := by
  obtain ⟨f', verdict, hm, hactive, hfound, rfl⟩ := mem_resolutions.mp hr
  obtain rfl : f' = f := hf
  exact ⟨verdict, hm, hactive, hfound, rfl⟩

/-- A pass resolves fields of its classification, in their order. -/
theorem fields_resolutions_sublist (v : Visibility) (cx : PassContext) (force : Bool) (m : Classification) :
    ((v.resolutions cx force m).map (·.field)).Sublist m.keys := by
  have hfields : (v.resolutions cx force m).map (·.field) = (v.unsettled cx force m).map (·.1) := by
    simp [resolutions, Resolution.resolve, Function.comp_def]
  rw [hfields, ← Std.ExtTreeMap.map_fst_toList_eq_keys]
  exact List.filter_sublist.map _

/-- A pass resolves each field once. -/
theorem nodup_resolutions (v : Visibility) (cx : PassContext) (force : Bool) (m : Classification) :
    ((v.resolutions cx force m).map (·.field)).Nodup :=
  (v.fields_resolutions_sublist cx force m).nodup Std.ExtTreeMap.nodup_keys

/-- A pass finds of a row to show or to hide what its verdict decides. -/
theorem vector_of_change {i : Nat} {visible : Bool} (hr : r ∈ v.resolutions cx force m)
    (hchange : (i, visible) ∈ r.changes) : r.vector[i]? = some visible := by
  obtain ⟨f, verdict, -, -, -, rfl⟩ := mem_resolutions.mp hr
  exact (Resolution.mem_resolve_changes.mp hchange).1

theorem nodup_changes (hr : r ∈ v.resolutions cx force m) : (r.changes.map (·.1)).Nodup := by
  obtain ⟨f, verdict, -, -, -, rfl⟩ := mem_resolutions.mp hr
  exact Resolution.nodup_changesOf ..

theorem appliedRows_eq (v : Visibility) (f : String) : v.appliedRows f = (v.applied[f]?).getD [] :=
  Std.ExtTreeMap.getD_eq_getD_getElem?

/-- A row that a pass does not tell has the visibility applied to it before. -/
def Accounts (v : Visibility) (r : Resolution) : Prop :=
  ∀ (i : Nat) (b : Bool), r.vector[i]? = some b → (i, b) ∈ r.changes ∨ (v.appliedRows r.field)[i]? = some b

theorem accounts_resolutions (hr : r ∈ v.resolutions cx force m) : v.Accounts r := by
  obtain ⟨f, verdict, -, -, -, rfl⟩ := mem_resolutions.mp hr
  intro i b hb
  by_cases hprev : (v.appliedRows f)[i]? = some b
  · exact Or.inr hprev
  · exact Or.inl (Resolution.mem_resolve_changes.mpr ⟨hb, Or.inr hprev⟩)

/-! ### Taking over what was found -/

theorem getElem?_applied_settle (v : Visibility) (r : Resolution) (f : String) :
    (v.settle r).applied[f]? = if r.field = f then some r.vector else v.applied[f]? := by
  simp [settle, Std.ExtTreeMap.getElem?_insert]

/-- Taking over what was found for a field leaves the rows applied to another one as they are. -/
theorem Accounts.settle {x : Resolution} (h : v.Accounts x) (hne : r.field ≠ x.field) : (v.settle r).Accounts x := by
  intro i b hb
  rw [appliedRows_eq, getElem?_applied_settle, if_neg hne, ← appliedRows_eq]
  exact h i b hb

/-- What holds before a pass, and stays as what was found is taken over for one field after the other, holds
    once all is taken over. -/
theorem settleAll_resolutions {P : List Resolution → Visibility → Prop}
    (step : ∀ {done w r}, r ∈ v.resolutions cx force m → w.Accounts r → P done w → P (done ++ [r]) (w.settle r))
    (h : P [] v) : P (v.resolutions cx force m) ((v.resolutions cx force m).foldl settle v) := by
  have hall : ∀ (rest done : List Resolution) (w : Visibility), (rest.map (·.field)).Nodup →
      (∀ r ∈ rest, r ∈ v.resolutions cx force m) → (∀ r ∈ rest, w.Accounts r) → P done w →
        P (done ++ rest) (rest.foldl settle w) := by
    intro rest
    induction rest with
    | nil =>
      intro done w _ _ _ hw
      rwa [List.append_nil]
    | cons r rest ih =>
      intro done w hfields hfound haccounts hw
      obtain ⟨hnot, hfields⟩ := List.nodup_cons.mp hfields
      obtain ⟨hr, hfound⟩ := List.forall_mem_cons.mp hfound
      obtain ⟨ha, haccounts⟩ := List.forall_mem_cons.mp haccounts
      have hlater : ∀ x ∈ rest, (w.settle r).Accounts x := fun x hx =>
        (haccounts x hx).settle fun he => hnot (List.mem_map.mpr ⟨x, hx, he.symm⟩)
      have hrest := ih (done ++ [r]) (w.settle r) hfields hfound hlater (step hr ha hw)
      rwa [List.append_assoc] at hrest
  exact hall _ [] v (v.nodup_resolutions cx force m) (fun _ hr => hr) (fun _ hr => accounts_resolutions hr) h

/-- A field that a pass resolves has the rows found for it applied after the pass. -/
theorem getElem?_applied_pass (hr : r ∈ v.resolutions cx force m) :
    (v.pass cx force m).2.applied[r.field]? = some r.vector := by
  refine Resolution.foldl_of_mem (fun w : Visibility => w.applied[r.field]?) (fun w x hx => ?_) (fun w => ?_)
    (v.nodup_resolutions cx force m) hr v
  · exact (getElem?_applied_settle ..).trans (if_neg hx)
  · exact (getElem?_applied_settle ..).trans (if_pos rfl)

/-- A field that a pass does not resolve keeps the rows applied to it. -/
theorem getElem?_applied_pass_of_notMem (h : ∀ r ∈ v.resolutions cx force m, r.field ≠ f) :
    (v.pass cx force m).2.applied[f]? = v.applied[f]? :=
  Resolution.foldl_of_notMem (fun w : Visibility => w.applied[f]?)
    (fun _ _ hx => (getElem?_applied_settle ..).trans (if_neg hx)) h v

/-- A pass tells a field that it resolved, if some row of it is to be shown or hidden. -/
theorem mem_pass_queue {c : FieldChange} : c ∈ (v.pass cx force m).1.queue ↔
    ∃ r ∈ v.resolutions cx force m, r.changes ≠ [] ∧ r.toChange = c := by
  simp [pass, and_assoc]

/-! ### Corrections -/

/-- Collects the corrections of a field. -/
def addCorrections (e : FormEdit) (r : Resolution) : FormEdit :=
  if r.corrections.isEmpty then e else e.insert r.field (FieldEdit.writeEach [] r.corrections)

theorem getElem?_addCorrections_of_ne (e : FormEdit) (h : r.field ≠ f) : (addCorrections e r)[f]? = e[f]? := by
  rw [addCorrections]
  split
  · rfl
  · rw [Std.ExtTreeMap.getElem?_insert, if_neg (by simpa using h)]

/-- What a pass writes to a field that it resolved. -/
theorem getElem?_pass_corrections (hr : r ∈ v.resolutions cx force m) (hne : r.corrections ≠ []) :
    (v.pass cx force m).1.corrections[r.field]? = some (FieldEdit.writeEach [] r.corrections) := by
  refine Resolution.foldl_of_mem (fun e : FormEdit => e[r.field]?) (fun e x hx => ?_) (fun e => ?_)
    (v.nodup_resolutions cx force m) hr ∅
  · exact getElem?_addCorrections_of_ne e hx
  · simp [hne]

theorem getElem?_addAll_some {found : List Resolution} {e : FormEdit} {x : FieldEdit}
    (h : (found.foldl addCorrections e)[f]? = some x) :
    e[f]? = some x ∨ ∃ r ∈ found, r.field = f ∧ r.corrections ≠ [] ∧ x = FieldEdit.writeEach [] r.corrections := by
  induction found generalizing e with
  | nil => exact Or.inl h
  | cons r rest ih =>
    rcases ih h with hfirst | ⟨r', hr', hrest⟩
    · rw [addCorrections] at hfirst
      split at hfirst
      · exact Or.inl hfirst
      · rename_i hne
        rw [Std.ExtTreeMap.getElem?_insert] at hfirst
        split at hfirst
        · rename_i hf
          exact Or.inr ⟨r, List.mem_cons_self, by simpa using hf, by simpa using hne, (Option.some.inj hfirst).symm⟩
        · exact Or.inl hfirst
    · exact Or.inr ⟨r', List.mem_cons_of_mem _ hr', hrest⟩

/-- A pass writes to fields that it resolved. -/
theorem exists_of_getElem?_pass_corrections {x : FieldEdit} (h : (v.pass cx force m).1.corrections[f]? = some x) :
    ∃ r ∈ v.resolutions cx force m, r.field = f ∧ r.corrections ≠ [] ∧ x = FieldEdit.writeEach [] r.corrections :=
  (getElem?_addAll_some h).resolve_left (by simp)

theorem changes_ne_nil (hr : r ∈ v.resolutions cx force m) (h : r.corrections ≠ []) : r.changes ≠ [] := by
  obtain ⟨f, verdict, -, -, -, rfl⟩ := mem_resolutions.mp hr
  intro hnone
  have hcorrections : (Resolution.resolve cx force (v.appliedRows f) f verdict).corrections =
      (Resolution.resolve cx force (v.appliedRows f) f verdict).changes.filterMap _ := rfl
  rw [hnone] at hcorrections
  exact h hcorrections

theorem nodup_corrections (hr : r ∈ v.resolutions cx force m) : (r.corrections.map (·.1)).Nodup := by
  obtain ⟨f, verdict, -, -, -, rfl⟩ := mem_resolutions.mp hr
  exact Resolution.nodup_resolve_corrections

theorem getElem?_corrections (hr : r ∈ v.resolutions cx force m) :
    (v.pass cx force m).1.corrections[r.field]? =
      if r.corrections = [] then none else some (FieldEdit.writeEach [] r.corrections) := by
  split
  · rename_i hnone
    rw [Option.eq_none_iff_forall_ne_some]
    intro x hx
    obtain ⟨r', hr', hfield, hne, -⟩ := exists_of_getElem?_pass_corrections hx
    cases List.inj_on_of_nodup_map (v.nodup_resolutions cx force m) hr hr' hfield.symm
    exact hne hnone
  · rename_i hne
    exact getElem?_pass_corrections hr hne

end Visibility

end FormSession
