import FormSession.Proofs.FieldEdit

/-! # Reduced edits

An edit is reduced for some values if every slot of it matters for them. What `normalize` leaves of an edit
is reduced for the values at hand, and so is what `restore` computes. A reduced edit tells the number of
values that it leaves (`Reduced.length_of_drops`, `Reduced.length_le`). -/

namespace FormSession.FieldEdit

/-- Every slot of the edit says something about the values: a row goes away only where there is one, a
    value is written only where it differs and before the first row that goes away, and the last slot does
    not keep its row. -/
structure Reduced (e : FieldEdit) (values : List String) : Prop where
  last : e.getLast? ≠ some .keep
  drop_lt : ∀ {i : Nat}, e[i]? = some Slot.drop → i < values.length
  write_ne : ∀ {i : Nat} {v : String}, e[i]? = some (Slot.write v) → values[i]? ≠ some v
  write_lt : ∀ {i j : Nat} {v : String}, e[i]? = some (Slot.write v) → e[j]? = some Slot.drop → i < j

/-! ### The number of values -/

theorem writtenLength_of_no_drops {e : FieldEdit} (hd : e.firstDrop? = none) (hl : e.getLast? ≠ some .keep) :
    e.writtenLength = e.length := by
  induction e with
  | nil => rfl
  | cons s e ih =>
    rw [firstDrop?_cons] at hd
    have hrest : s.isDrop = false → e.getLast? ≠ some .keep → writtenLength e = List.length e := fun hs =>
      ih (by simpa [hs] using hd)
    cases s with
    | drop => cases hd
    | write v =>
      cases e with
      | nil => rfl
      | cons t e => simp [writtenLength, hrest rfl (by simpa [List.getLast?_cons_cons] using hl)]
    | keep =>
      cases e with
      | nil => exact absurd rfl hl
      | cons t e =>
        rw [writtenLength, hrest rfl (by simpa [List.getLast?_cons_cons] using hl)]
        simp

namespace Reduced
variable {e : FieldEdit} {values : List String}

theorem length_of_drops (h : Reduced e values) {r : Nat} (hd : e.firstDrop? = some r) :
    (e.applyTo values).length = r := by
  have hlt := h.drop_lt (firstDrop?_eq_some hd).1
  rw [length_applyTo, hd]
  show min (max values.length e.writtenLength) r = r
  omega

theorem length_le (h : Reduced e values) (hd : e.firstDrop? = none) :
    e.length ≤ (e.applyTo values).length := by
  rw [length_applyTo, hd, writtenLength_of_no_drops hd h.last]
  exact Nat.le_max_right ..

end Reduced

/-! ### Trimming -/

theorem trim_cons (s : Slot) (e : FieldEdit) :
    trim (s :: e) = if trim e = [] ∧ s = .keep then [] else s :: trim e := by
  rw [trim]
  cases ht : trim e with
  | nil => cases s <;> simp [Slot.isKeep]
  | cons t rest => simp

theorem trim_prefix (e : FieldEdit) : e.trim <+: e := by
  induction e with
  | nil => exact List.prefix_refl _
  | cons s e ih =>
    rw [trim_cons]
    split
    · exact List.nil_prefix
    · exact List.cons_prefix_cons.mpr ⟨rfl, ih⟩

theorem getElem?_of_trim {e : FieldEdit} {i : Nat} {s : Slot} (h : e.trim[i]? = some s) : e[i]? = some s := by
  obtain ⟨rest, hrest⟩ := trim_prefix e
  rw [← hrest, List.getElem?_append_left (List.getElem?_eq_some_iff.mp h).1, h]

theorem getLast?_trim (e : FieldEdit) : e.trim.getLast? ≠ some .keep := by
  induction e with
  | nil => simp [trim]
  | cons s e ih =>
    rw [trim_cons]
    split
    · simp
    · rename_i hne
      cases ht : trim e with
      | nil =>
        rw [List.getLast?_singleton]
        rintro ⟨⟩
        exact hne ⟨ht, rfl⟩
      | cons t rest => rwa [List.getLast?_cons_cons, ← ht]

theorem slotAt_trim (e : FieldEdit) (i : Nat) : slotAt e.trim i = slotAt e i := by
  induction e generalizing i with
  | nil => rfl
  | cons s e ih =>
    rw [trim_cons]
    split
    · next hkept =>
      obtain ⟨hnil, rfl⟩ := hkept
      cases i with
      | zero => rfl
      | succ i => rw [slotAt_cons_succ, ← ih, hnil]; rfl
    · cases i with
      | zero => rfl
      | succ i => simp [ih]

theorem applyTo_trim (e : FieldEdit) (values : List String) : e.trim.applyTo values = e.applyTo values := by
  induction e generalizing values with
  | nil => rfl
  | cons s e ih =>
    rw [trim_cons]
    split
    · next hkept =>
      obtain ⟨hnil, rfl⟩ := hkept
      have hsame : ∀ values, applyTo e values = values := fun values => by rw [← ih, hnil]; rfl
      cases values <;> simp [applyTo, hsame]
    · cases s with
      | drop => rfl
      | write v => simp [applyTo, ih]
      | keep => cases values <;> simp [applyTo, ih]

/-! ### Normalizing -/

theorem relevant_drop {e : FieldEdit} {cut : Bool} {values : List String} {i : Nat}
    (h : (relevant cut e values)[i]? = some .drop) : i < values.length := by
  induction e generalizing cut values i with
  | nil => cases h
  | cons s e ih =>
    cases i with
    | zero =>
      cases s with
      | drop =>
        cases values with
        | nil => cases h
        | cons v values => exact Nat.succ_pos _
      | keep => cases h
      | write w =>
        simp only [relevant, List.getElem?_cons_zero, Option.some.injEq] at h
        split at h <;> cases h
    | succ i =>
      have htail : ∃ cut', (relevant cut' e values.tail)[i]? = some .drop := by
        cases s with
        | drop => exact ⟨true, by cases values <;> simpa [relevant] using h⟩
        | _ => exact ⟨cut, by simpa [relevant] using h⟩
      obtain ⟨cut', htail⟩ := htail
      have := ih htail
      rw [List.length_tail] at this
      omega

theorem relevant_write {e : FieldEdit} {cut : Bool} {values : List String} {i : Nat} {v : String}
    (h : (relevant cut e values)[i]? = some (.write v)) : cut = false ∧ values[i]? ≠ some v := by
  induction e generalizing cut values i with
  | nil => cases h
  | cons s e ih =>
    cases i with
    | zero =>
      cases s with
      | drop => cases values <;> cases h
      | keep => cases h
      | write w =>
        simp only [relevant, List.getElem?_cons_zero, Option.some.injEq] at h
        split at h
        · cases h
        · rename_i hne
          cases h
          simpa [List.head?_eq_getElem?] using hne
    | succ i =>
      cases s with
      | drop =>
        cases values with
        | nil => exact absurd (ih (by simpa [relevant] using h)).1 (by simp)
        | cons u values => exact absurd (ih (by simpa [relevant] using h)).1 (by simp)
      | keep =>
        have h : (relevant cut e values.tail)[i]? = some (.write v) := by simpa [relevant] using h
        simpa [List.getElem?_tail] using ih h
      | write w =>
        have h : (relevant cut e values.tail)[i]? = some (.write v) := by simpa [relevant] using h
        simpa [List.getElem?_tail] using ih h

theorem relevant_write_lt {e : FieldEdit} {cut : Bool} {values : List String} {i j : Nat} {v : String}
    (hw : (relevant cut e values)[i]? = some (.write v)) (hd : (relevant cut e values)[j]? = some .drop) : i < j := by
  induction e generalizing cut values i j with
  | nil => cases hw
  | cons s e ih =>
    cases i with
    | zero =>
      -- The first slot is a write, so the row that goes away comes later.
      cases j with
      | zero => rw [hw] at hd; cases hd
      | succ j => exact Nat.succ_pos j
    | succ i =>
      cases s with
      | drop =>
        have hw : (relevant true e values.tail)[i]? = some (.write v) := by
          cases values <;> simpa [relevant] using hw
        exact absurd (relevant_write hw).1 (by simp)
      | keep =>
        cases j with
        | zero => cases hd
        | succ j => exact Nat.succ_lt_succ (ih (by simpa [relevant] using hw) (by simpa [relevant] using hd))
      | write w =>
        cases j with
        | zero =>
          simp only [relevant, List.getElem?_cons_zero, Option.some.injEq] at hd
          split at hd <;> cases hd
        | succ j => exact Nat.succ_lt_succ (ih (by simpa [relevant] using hw) (by simpa [relevant] using hd))

theorem reduced_normalize (e : FieldEdit) (values : List String) : Reduced (e.normalize values) values where
  last := getLast?_trim _
  drop_lt h := relevant_drop (getElem?_of_trim h)
  write_ne h := (relevant_write (getElem?_of_trim h)).2
  write_lt hw hd := relevant_write_lt (getElem?_of_trim hw) (getElem?_of_trim hd)

/-- Past the end of the values, and after a row that goes away, nothing is left of an edit. -/
theorem applyTo_relevant_cut (e : FieldEdit) : (relevant true e []).applyTo [] = [] := by
  induction e with
  | nil => rfl
  | cons s e ih => cases s <;> simp [relevant, applyTo, ih]

theorem applyTo_relevant (e : FieldEdit) (values : List String) :
    (relevant false e values).applyTo values = e.applyTo values := by
  induction e generalizing values with
  | nil => rfl
  | cons s e ih =>
    cases s with
    | drop =>
      cases values with
      | nil => simp [relevant, applyTo, applyTo_relevant_cut]
      | cons v values => rfl
    | keep => cases values <;> simp [relevant, applyTo, ih]
    | write w =>
      simp only [relevant, Bool.false_or, applyTo]
      split
      · -- The value is there already, and so is the row.
        rename_i hhead
        obtain ⟨rest, rfl⟩ := List.head?_eq_some_iff.mp (beq_iff_eq.mp hhead)
        simp [applyTo, ih]
      · simp [applyTo, ih]

/-- What is left of an edit does what the edit does. -/
theorem applyTo_normalize (e : FieldEdit) (values : List String) :
    (e.normalize values).applyTo values = e.applyTo values := by
  rw [normalize, applyTo_trim, applyTo_relevant]

/-- What a slot does to a value: a write that changes nothing is left out. -/
def effective (value : Option String) : Slot → Slot
  | .write v => if value = some v then .keep else .write v
  | s => s

theorem slotAt_relevant {e : FieldEdit} {values : List String} {i : Nat} (hn : e.hasDrops = false) :
    slotAt (relevant false e values) i = effective values[i]? (e.slotAt i) := by
  induction e generalizing values i with
  | nil => rfl
  | cons s e ih =>
    obtain ⟨hs, hrest⟩ := hasDrops_cons hn
    cases s with
    | drop => exact absurd rfl hs
    | keep =>
      cases i with
      | zero => rfl
      | succ i =>
        have htail : slotAt (relevant false e values.tail) i = effective values.tail[i]? (slotAt e i) := ih hrest
        simpa [relevant, List.getElem?_tail] using htail
    | write w =>
      cases i with
      | zero =>
        simp only [relevant, Bool.false_or, slotAt_cons_zero, effective, List.head?_eq_getElem?, beq_iff_eq]
      | succ i =>
        have htail : slotAt (relevant false e values.tail) i = effective values.tail[i]? (slotAt e i) := ih hrest
        simpa [relevant, List.getElem?_tail] using htail

/-- What is left, row by row, of an edit that takes no row away. -/
theorem slotAt_normalize {e : FieldEdit} (hn : e.hasDrops = false) (values : List String) (i : Nat) :
    slotAt (e.normalize values) i = effective values[i]? (e.slotAt i) := by
  rw [normalize, slotAt_trim, slotAt_relevant hn]

/-- What an edit without rows that go away writes in place of another value stays when it is normalized. -/
theorem slotAt_normalize_of_write {e : FieldEdit} {values : List String} {i : Nat} {v : String}
    (hn : e.hasDrops = false) (hw : e.slotAt i = .write v) (hv : values[i]? ≠ some v) :
    slotAt (e.normalize values) i = .write v := by
  rw [slotAt_normalize hn, hw, effective, if_neg hv]

theorem hasDrops_normalize {e : FieldEdit} (hn : e.hasDrops = false) (values : List String) :
    (e.normalize values).hasDrops = false := by
  refine hasDrops_eq_false_iff.mpr fun i hslot => ?_
  rw [slotAt_normalize hn] at hslot
  cases hs : e.slotAt i with
  | keep => rw [hs] at hslot; cases hslot
  | write v =>
    rw [hs, effective] at hslot
    split at hslot <;> cases hslot
  | drop => exact hasDrops_eq_false_iff.mp hn i hs

/-- What is left of an edit that takes no row away writes what differs from the values. -/
theorem mem_writes_normalize {e : FieldEdit} {values : List String} {i : Nat} {v : String} (hn : e.hasDrops = false) :
    (i, v) ∈ (e.normalize values).writes ↔ (i, v) ∈ e.writes ∧ values[i]? ≠ some v := by
  rw [mem_writes (hasDrops_normalize hn values), mem_writes hn, slotAt_normalize hn]
  cases e.slotAt i with
  | write w =>
    rw [effective]
    by_cases hsame : values[i]? = some w
    · rw [if_pos hsame]
      refine iff_of_false (by simp) ?_
      rintro ⟨⟨⟩, hne⟩
      exact hne hsame
    · rw [if_neg hsame]
      refine ⟨?_, And.left⟩
      rintro ⟨⟩
      exact ⟨rfl, hsame⟩
  | keep => simp [effective]
  | drop => simp [effective]

/-! ### Going back to earlier values -/

theorem transition_drop {old new : List String} {i : Nat} (h : (transition old new)[i]? = some .drop) :
    new.length ≤ i ∧ i < old.length := by
  induction old generalizing new i with
  | nil =>
    exfalso
    induction new generalizing i with
    | nil => cases h
    | cons v new ih =>
      cases i with
      | zero => cases h
      | succ i => exact ih (by simpa [transition] using h)
  | cons u old ih =>
    cases new with
    | nil =>
      refine ⟨Nat.zero_le _, ?_⟩
      simpa [transition] using (List.getElem?_eq_some_iff.mp h).1
    | cons v new =>
      cases i with
      | zero =>
        simp only [transition, List.getElem?_cons_zero, Option.some.injEq] at h
        split at h <;> cases h
      | succ i => simpa using ih (by simpa [transition] using h)

theorem transition_write {old new : List String} {i : Nat} {v : String}
    (h : (transition old new)[i]? = some (.write v)) : new[i]? = some v ∧ old[i]? ≠ some v := by
  induction old generalizing new i with
  | nil =>
    -- Past the old values every new one is written.
    refine ⟨?_, by simp⟩
    induction new generalizing i with
    | nil => cases h
    | cons w new ih =>
      cases i with
      | zero => cases h; rfl
      | succ i => simpa using ih (by simpa [transition] using h)
  | cons u old ih =>
    cases new with
    | nil =>
      simp only [transition, List.getElem?_map] at h
      cases hold : (u :: old)[i]? <;> rw [hold] at h <;> cases h
    | cons w new =>
      cases i with
      | zero =>
        simp only [transition, List.getElem?_cons_zero, Option.some.injEq] at h
        split at h
        · cases h
        · rename_i hne
          cases h
          exact ⟨rfl, by simpa using hne⟩
      | succ i => simpa using ih (by simpa [transition] using h)

theorem applyTo_transition (old new : List String) : (transition old new).applyTo old = new := by
  induction old generalizing new with
  | nil =>
    induction new with
    | nil => rfl
    | cons v new ih => simpa [transition, applyTo] using ih
  | cons u old ih =>
    cases new with
    | nil => simp [transition, applyTo]
    | cons v new =>
      simp only [transition]
      split
      · rename_i heq
        simp [applyTo, ih, heq]
      · simp [applyTo, ih]

theorem applyTo_restore (values earlier : List String) : (restore values earlier).applyTo values = earlier := by
  rw [restore, applyTo_trim, applyTo_transition]

theorem reduced_restore (values earlier : List String) : Reduced (restore values earlier) values where
  last := getLast?_trim _
  drop_lt h := (transition_drop (getElem?_of_trim h)).2
  write_ne h := (transition_write (getElem?_of_trim h)).2
  write_lt hw hd := by
    have hlt := (List.getElem?_eq_some_iff.mp (transition_write (getElem?_of_trim hw)).1).1
    have hge := (transition_drop (getElem?_of_trim hd)).1
    omega

/-! ### Edits that change nothing -/

/-- A reduced edit that says something changes the values: its last slot takes away a row that is there, or
    writes another value than the one at hand. -/
theorem Reduced.applyTo_ne {e : FieldEdit} {values : List String} (h : Reduced e values) (he : e ≠ []) :
    e.applyTo values ≠ values := by
  intro hsame
  cases hd : e.firstDrop? with
  | some r =>
    have hlt := h.drop_lt (firstDrop?_eq_some hd).1
    have hlength := h.length_of_drops hd
    rw [hsame] at hlength
    omega
  | none =>
    have hn : e.hasDrops = false := firstDrop?_eq_none_iff.mp hd
    obtain ⟨s, hs⟩ := Option.ne_none_iff_exists'.mp (mt List.getLast?_eq_none_iff.mp he)
    have hlast := h.last
    rw [List.getLast?_eq_getElem?] at hs hlast
    cases s with
    | keep => exact hlast hs
    | drop => exact hasDrops_eq_false_iff.mp hn _ (slotAt_eq_of_getElem? hs)
    | write v =>
      have hwritten := getElem?_applyTo_of_write (cuts_eq_false hn _) (slotAt_eq_of_getElem? hs) values
      rw [hsame] at hwritten
      exact h.write_ne hs hwritten

end FormSession.FieldEdit
