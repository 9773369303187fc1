import FormSession.Proofs.Publishing

/-! # Merging edits

Laying a later edit over an earlier one, and applying the result, is applying one after the other, as long as the
earlier one takes no row away and the later one cuts off no more than there was before both (`Composable`,
`applyTo_merge`). Merging is associative in any case, also in the slots that are kept at the end: a later edit lends
its slots up to the last that does something. `merge_composes` says both for fields and for forms. -/

namespace FormSession

namespace Slot

theorem overlay_keep (s : Slot) : s.overlay .keep = s := by cases s <;> rfl

theorem overlay_assoc (a b c : Slot) : c.overlay (b.overlay a) = (c.overlay b).overlay a := by cases c <;> rfl

theorem overlay_eq_keep_iff {a b : Slot} : b.overlay a = .keep ↔ b = .keep ∧ a = .keep := by
  cases b <;> simp [overlay]

end Slot

namespace FieldEdit
variable {a b c : FieldEdit} {values : List String}

/-! ### Applying what is merged -/

/-- The earlier of two edits takes no row away, and what the later one cuts off was there before both. -/
structure Composable (a b : FieldEdit) (length : Nat) : Prop where
  earlier : a.hasDrops = false
  later : ∀ r ∈ b.firstDrop?, r ≤ length

theorem Composable.tail {s t : Slot} (h : Composable (s :: a) (t :: b) values.length) (ht : t ≠ .drop) :
    Composable a b values.tail.length where
  earlier := (hasDrops_cons h.earlier).2
  later r hr := by
    have hnot : t.isDrop = false := Bool.eq_false_iff.mpr (mt Slot.isDrop_iff.mp ht)
    have hr : firstDrop? b = some r := hr
    have hlater := h.later (r + 1) (by simp [firstDrop?_cons, hnot, hr])
    rw [List.length_tail]
    omega

/-- Where there was no row, the later edit takes none away. -/
theorem Composable.hasDrops_later (h : Composable a (.keep :: b) 0) : b.hasDrops = false := by
  refine firstDrop?_eq_none_iff.mp ?_
  cases hd : firstDrop? b with
  | none => rfl
  | some r => exact absurd (h.later (r + 1) (by simp [firstDrop?_cons, Slot.isDrop, hd])) (by simp)

theorem tail_applyTo {s : Slot} (hs : s ≠ .drop) (e : FieldEdit) (values : List String) :
    (applyTo (s :: e) values).tail = applyTo e values.tail := by
  cases s with
  | drop => exact absurd rfl hs
  | write v => rfl
  | keep =>
    cases values with
    | cons v values => rfl
    | nil =>
      simp only [applyTo, List.tail_nil]
      cases applyTo e [] <;> rfl

theorem applyTo_ne_nil (hn : b.hasDrops = false) (h : values ≠ []) : b.applyTo values ≠ [] := by
  intro hnil
  have hlength := length_applyTo_of_no_drops hn values
  rw [hnil, List.length_nil] at hlength
  exact h (List.eq_nil_of_length_eq_zero (by omega))

theorem applyTo_merge (h : Composable a b values.length) :
    (a.merge b).applyTo values = b.applyTo (a.applyTo values) := by
  induction a generalizing b values with
  | nil =>
    cases b with
    | nil => rfl
    | cons t b => exact applyTo_trim (t :: b) values
  | cons s a ih =>
    cases b with
    | nil => rfl
    | cons t b =>
      have hs : s ≠ .drop := (hasDrops_cons h.earlier).1
      cases t with
      | drop => rfl
      | write v =>
        have hrest := ih (h.tail (by simp))
        show v :: applyTo (merge a b) values.tail = v :: applyTo b (applyTo (s :: a) values).tail
        rw [hrest, tail_applyTo hs]
      | keep =>
        have hrest := ih (h.tail (by simp))
        cases s with
        | drop => exact absurd rfl hs
        | write w => exact congrArg (w :: ·) hrest
        | keep =>
          cases values with
          | cons v values => exact congrArg (v :: ·) hrest
          | nil =>
            have hrest : applyTo (merge a b) [] = applyTo b (applyTo a []) := hrest
            show applyTo (.keep :: merge a b) [] = applyTo (.keep :: b) (applyTo (.keep :: a) [])
            by_cases hpadded : applyTo a [] = []
            · simp only [applyTo, hrest, hpadded]
            · -- The later edit keeps the row that the earlier one pads.
              have hleft : applyTo b (applyTo a []) ≠ [] := applyTo_ne_nil h.hasDrops_later hpadded
              rw [applyTo_keep_nil hpadded, applyTo_keep_nil (hrest ▸ hleft), hrest]
              rfl

/-! ### Associativity -/

@[simp] theorem merge_nil (a : FieldEdit) : a.merge [] = a := by cases a <;> rfl

theorem nil_merge (b : FieldEdit) : merge [] b = b.trim := by cases b <;> rfl

theorem trim_trim (e : FieldEdit) : e.trim.trim = e.trim := by
  induction e with
  | nil => rfl
  | cons s e ih =>
    rw [trim_cons]
    split
    · rfl
    · rename_i hne
      rw [trim_cons, ih, if_neg hne]

/-- What the later edit keeps at its end makes no difference. -/
theorem merge_trim (a b : FieldEdit) : a.merge b.trim = a.merge b := by
  induction b generalizing a with
  | nil => rfl
  | cons t b ih =>
    cases a with
    | nil => rw [nil_merge, nil_merge, trim_trim]
    | cons s a =>
      have hrest := ih a
      rw [trim_cons]
      split
      · next hkept =>
        obtain ⟨hnil, rfl⟩ := hkept
        rw [hnil, merge_nil] at hrest
        rw [merge_nil, merge, ← hrest]
        rfl
      · rw [merge, merge, hrest]

theorem merge_eq_nil (h : a.merge b = []) : a = [] := by
  cases a with
  | nil => rfl
  | cons s a => cases b <;> cases h

/-- What the earlier edit keeps at its end counts no more once what is merged is trimmed. -/
theorem trim_merge (a b : FieldEdit) : (a.merge b).trim = a.trim.merge b := by
  induction a generalizing b with
  | nil => rw [nil_merge, trim_trim, trim, nil_merge]
  | cons s a ih =>
    cases b with
    | nil => rw [merge_nil, merge_nil]
    | cons t b =>
      by_cases hkept : trim a = [] ∧ s = .keep
      · obtain ⟨hnil, rfl⟩ := hkept
        rw [trim_cons .keep, if_pos ⟨hnil, rfl⟩, nil_merge, merge, Slot.overlay_keep, trim_cons, trim_cons, ih, hnil,
          nil_merge]
      · rw [trim_cons s, if_neg hkept, merge, merge, trim_cons, ih, if_neg]
        rintro ⟨hnil, hover⟩
        exact hkept ⟨merge_eq_nil hnil, (Slot.overlay_eq_keep_iff.mp hover).2⟩

theorem merge_assoc (a b c : FieldEdit) : (a.merge b).merge c = a.merge (b.merge c) := by
  induction a generalizing b c with
  | nil => rw [nil_merge, nil_merge, trim_merge]
  | cons s a ih =>
    cases b with
    | nil => rw [merge_nil, nil_merge, merge_trim]
    | cons t b =>
      cases c with
      | nil => rw [merge_nil, merge_nil]
      | cons u c => rw [merge, merge, merge, merge, ih, Slot.overlay_assoc]

end FieldEdit

/-! ### Forms -/

namespace FormEdit

theorem getElem?_adjust (e : FormEdit) (field : String) (change : FieldEdit → FieldEdit) (f : String) :
    (e.adjust field change)[f]? = if field = f then some (change (e.getD f [])) else e[f]? := by
  rw [adjust, Std.ExtTreeMap.getElem?_insert]
  by_cases hf : field = f
  · simp [hf]
  · simp [hf]

/-- Lays edits of fields over an edit, one after the other. -/
def mergeAll (e : FormEdit) (entries : List (String × FieldEdit)) : FormEdit :=
  entries.foldl (fun e x => e.adjust x.1 (·.merge x.2)) e

theorem getElem?_mergeAll_of_notMem {entries : List (String × FieldEdit)} {f : String} (e : FormEdit)
    (h : f ∉ entries.map (·.1)) : (e.mergeAll entries)[f]? = e[f]? := by
  induction entries generalizing e with
  | nil => rfl
  | cons x rest ih =>
    obtain ⟨hne, hrest⟩ := List.ne_and_not_mem_of_not_mem_cons h
    refine (ih (e.adjust x.1 (·.merge x.2)) hrest).trans ?_
    rw [getElem?_adjust, if_neg (Ne.symm hne)]

theorem getElem?_mergeAll {entries : List (String × FieldEdit)} {f : String} {later : FieldEdit} (e : FormEdit)
    (hfields : (entries.map (·.1)).Nodup) (h : (f, later) ∈ entries) :
    (e.mergeAll entries)[f]? = some (FieldEdit.merge (e.getD f []) later) := by
  induction entries generalizing e with
  | nil => cases h
  | cons x rest ih =>
    obtain ⟨hnot, hrest⟩ := List.nodup_cons.mp hfields
    rcases List.mem_cons.mp h with rfl | h
    · refine (getElem?_mergeAll_of_notMem (e.adjust f (·.merge later)) hnot).trans ?_
      rw [getElem?_adjust, if_pos rfl]
    · have hne : x.1 ≠ f := fun hf => hnot (List.mem_map.mpr ⟨_, h, hf.symm⟩)
      have hsame : (e.adjust x.1 (·.merge x.2)).getD f [] = e.getD f [] := by
        rw [Std.ExtTreeMap.getD_eq_getD_getElem?, getElem?_adjust, if_neg hne, Std.ExtTreeMap.getD_eq_getD_getElem?]
      exact hsame ▸ ih (e.adjust x.1 (·.merge x.2)) hrest h

theorem merge_eq_mergeAll (a b : FormEdit) : a.merge b = a.mergeAll b.toList := by
  rw [merge, Std.ExtTreeMap.foldl_eq_foldl_toList]
  rfl

/-- What is merged names the fields of both edits. -/
theorem getElem?_merge (a b : FormEdit) (f : String) : (a.merge b)[f]? =
    match b[f]? with
    | none => a[f]?
    | some later => some (FieldEdit.merge (a.getD f []) later) := by
  rw [merge_eq_mergeAll]
  cases hb : b[f]? with
  | none =>
    refine getElem?_mergeAll_of_notMem a fun hmem => ?_
    rw [Std.ExtTreeMap.map_fst_toList_eq_keys, Std.ExtTreeMap.mem_keys] at hmem
    rw [Std.ExtTreeMap.mem_iff_isSome_getElem?, hb] at hmem
    cases hmem
  | some later =>
    refine getElem?_mergeAll a ?_ (Std.ExtTreeMap.mem_toList_iff_getElem?_eq_some.mpr hb)
    rw [Std.ExtTreeMap.map_fst_toList_eq_keys]
    exact Std.ExtTreeMap.nodup_keys

theorem getD_merge (a b : FormEdit) (f : String) :
    (a.merge b).getD f [] = FieldEdit.merge (a.getD f []) (b.getD f []) := by
  rw [Std.ExtTreeMap.getD_eq_getD_getElem?, getElem?_merge, Std.ExtTreeMap.getD_eq_getD_getElem? (t := b)]
  cases b[f]? with
  | none => rw [Option.getD_none, FieldEdit.merge_nil, Std.ExtTreeMap.getD_eq_getD_getElem?]
  | some later => rfl

theorem mem_merge (a b : FormEdit) (f : String) : f ∈ a.merge b ↔ f ∈ a ∨ f ∈ b := by
  simp only [Std.ExtTreeMap.mem_iff_isSome_getElem?, getElem?_merge]
  cases b[f]? <;> simp

/-- Edits that name the same fields, and say the same of each, are the same. -/
theorem eq_of_getD {a b : FormEdit} (hmem : ∀ f, f ∈ a ↔ f ∈ b) (hget : ∀ f, a.getD f [] = b.getD f []) : a = b := by
  refine Std.ExtTreeMap.ext_getElem? fun f => ?_
  have hmem := hmem f
  have hget := hget f
  rw [Std.ExtTreeMap.getD_eq_getD_getElem?, Std.ExtTreeMap.getD_eq_getD_getElem?] at hget
  rw [Std.ExtTreeMap.mem_iff_isSome_getElem?, Std.ExtTreeMap.mem_iff_isSome_getElem?] at hmem
  cases ha : a[f]? <;> cases hb : b[f]? <;> simp_all

theorem merge_assoc (a b c : FormEdit) : (a.merge b).merge c = a.merge (b.merge c) := by
  refine eq_of_getD (fun f => ?_) fun f => ?_
  · simp only [mem_merge, or_assoc]
  · simp only [getD_merge, FieldEdit.merge_assoc]

end FormEdit

theorem Store.values_stage_merge {η : Type} [EditHook η] {s : Store η} {a b : FormEdit} {f : String}
    (unhooked : s.hooks = []) (h : FieldEdit.Composable (a.getD f []) (b.getD f []) (s.length f)) :
    (s.stage (a.merge b)).2.values f = ((s.stage a).2.stage b).2.values f := by
  have hlater := values_stage_applyTo (hooks_stage_eq_nil unhooked a) b f
  rw [hlater, values_stage_applyTo unhooked, values_stage_applyTo unhooked, FormEdit.getD_merge,
    FieldEdit.applyTo_merge h]

/-- Merging is applying one edit after the other, for a field and for a form, where the earlier one takes no row away
    and the later one cuts off what was there before both; and it is associative, whatever the edits. -/
theorem merge_composes :
    (∀ (a b : FieldEdit) (values : List String), a.Composable b values.length →
      b.applyTo (a.applyTo values) = (a.merge b).applyTo values) ∧
    (∀ (η : Type) [EditHook η] (s : Store η) (a b : FormEdit), s.hooks = [] →
      (∀ f, FieldEdit.Composable (a.getD f []) (b.getD f []) (s.length f)) →
      ∀ f, (s.stage (a.merge b)).2.view.of f = ((s.stage a).2.stage b).2.view.of f) ∧
    (∀ a b c : FieldEdit, (a.merge b).merge c = a.merge (b.merge c)) ∧
    ∀ a b c : FormEdit, (a.merge b).merge c = a.merge (b.merge c) := by
  refine ⟨fun a b values h => (FieldEdit.applyTo_merge h).symm, fun η _ s a b unhooked h f => ?_,
    FieldEdit.merge_assoc, FormEdit.merge_assoc⟩
  rw [Store.view_of, Store.view_of]
  exact Store.values_stage_merge unhooked (h f)

/-! ### Colours mixed, then cut off -/

/-- The second colour becomes another one, a fourth one is added, and the note gets its first row. -/
def coloursMixed : FormEdit :=
  ((∅ : FormEdit).insert "colour" [.keep, .write "pink", .keep, .write "white"]).insert "note" [.write "soon"]

theorem merge_composes_coloursMixed :
    colourStore.hooks = [] ∧
    (∀ f, FieldEdit.Composable (coloursMixed.getD f []) (coloursCut.getD f []) (colourStore.length f)) ∧
    (colourStore.stage (coloursMixed.merge coloursCut)).2.view.of "note" = ["soon", "late"] ∧
    FieldEdit.Composable [.write "pink"] [.keep, .write "blue", .drop, .write "black"] 2 ∧
    FieldEdit.applyTo (FieldEdit.merge [.write "pink"] [.keep, .write "blue", .drop, .write "black"]) ["red", "green"] =
      ["pink", "blue"] := by
  have unhooked : colourStore.hooks = [] := rfl
  have hform : ∀ f, FieldEdit.Composable (coloursMixed.getD f []) (coloursCut.getD f []) (colourStore.length f) := by
    intro f
    by_cases hcolour : f = "colour"
    · subst hcolour
      exact ⟨by decide +kernel, by decide +kernel⟩
    · by_cases hnote : f = "note"
      · subst hnote
        exact ⟨by decide +kernel, by decide +kernel⟩
      · -- No other field is named.
        have hnone : coloursMixed.getD f [] = [] ∧ coloursCut.getD f [] = [] := by
          simp [coloursMixed, coloursCut, Std.ExtTreeMap.getD_insert, Ne.symm hcolour, Ne.symm hnote]
        rw [hnone.1, hnone.2]
        exact ⟨rfl, by simp [FieldEdit.firstDrop?]⟩
  have hfield : FieldEdit.Composable [.write "pink"] [.keep, .write "blue", .drop, .write "black"]
      ["red", "green"].length := ⟨by decide, by decide⟩
  obtain ⟨hfields, hforms, -, -⟩ := merge_composes
  exact ⟨unhooked, hform, (hforms Empty colourStore _ _ unhooked hform "note").trans (by decide +kernel), hfield,
    (hfields _ _ _ hfield).symm.trans (by decide)⟩

end FormSession
