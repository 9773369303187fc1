import FormSession.FieldEdit
import Mathlib.Data.List.Nodup

/-! # What an edit does to values

The values after an edit, row by row and in number (`length_applyTo`), and the edits that say only what
changes given values (`Reduced`): what `normalize` leaves of an edit, and what `restore` computes. -/

namespace FormSession

theorem Slot.isDrop_iff {s : Slot} : s.isDrop = true ↔ s = .drop := by cases s <;> simp [isDrop]

theorem Slot.value?_eq_some_iff {s : Slot} {v : String} : s.value? = some v ↔ s = .write v := by
  cases s <;> simp [value?]

namespace FieldEdit

/-! ### Slots -/

@[simp] theorem slotAt_nil (i : Nat) : slotAt [] i = .keep := rfl

@[simp] theorem slotAt_cons_zero (s : Slot) (e : FieldEdit) : slotAt (s :: e) 0 = s := rfl

@[simp] theorem slotAt_cons_succ (s : Slot) (e : FieldEdit) (i : Nat) : slotAt (s :: e) (i + 1) = slotAt e i := rfl

theorem slotAt_eq_of_getElem? {e : FieldEdit} {i : Nat} {s : Slot} (h : e[i]? = some s) : slotAt e i = s := by
  simp [slotAt, h]

theorem getElem?_of_slotAt {e : FieldEdit} {i : Nat} {s : Slot} (h : slotAt e i = s) (hs : s ≠ .keep) :
    e[i]? = some s := by
  unfold slotAt at h
  cases he : e[i]? with
  | none => rw [he] at h; exact absurd h.symm hs
  | some t => rw [he] at h; exact congrArg some h

theorem slotAt_put (e : FieldEdit) (i : Nat) (s : Slot) (j : Nat) :
    slotAt (e.put i s) j = if j = i then s else slotAt e j := by
  induction e generalizing i j with
  | nil =>
    induction i generalizing j with
    | zero => cases j <;> simp [put]
    | succ i ih => cases j <;> simp [put, ih]
  | cons t e ih => cases i <;> cases j <;> simp [put, ih]

/-! ### Writing one value after the other -/

theorem slotAt_writeEach_of_notMem {writes : List (Nat × String)} {i : Nat} (e : FieldEdit)
    (h : i ∉ writes.map (·.1)) : slotAt (e.writeEach writes) i = slotAt e i := by
  induction writes generalizing e with
  | nil => rfl
  | cons w rest ih =>
    obtain ⟨hw, hrest⟩ := List.ne_and_not_mem_of_not_mem_cons h
    have hput : slotAt (e.put w.1 (.write w.2)) i = slotAt e i := by rw [slotAt_put, if_neg hw]
    exact (ih (e.put w.1 (.write w.2)) hrest).trans hput

/-- A write stands if all writes at its row say the same. -/
theorem slotAt_writeEach_of_agree {writes : List (Nat × String)} {i : Nat} {v : String} (e : FieldEdit)
    (h : (i, v) ∈ writes) (agree : ∀ w, (i, w) ∈ writes → w = v) : slotAt (e.writeEach writes) i = .write v := by
  induction writes generalizing e with
  | nil => cases h
  | cons w rest ih =>
    by_cases hlater : i ∈ rest.map (·.1)
    · obtain ⟨⟨_, u⟩, hu, rfl⟩ := List.mem_map.mp hlater
      obtain rfl : u = v := agree u (List.mem_cons_of_mem _ hu)
      exact ih _ hu fun w hw => agree w (List.mem_cons_of_mem _ hw)
    · obtain rfl : (i, v) = w := (List.mem_cons.mp h).resolve_right fun hrest =>
        hlater (List.mem_map.mpr ⟨_, hrest, rfl⟩)
      have hput : slotAt (e.put i (.write v)) i = .write v := by rw [slotAt_put, if_pos rfl]
      exact (slotAt_writeEach_of_notMem _ hlater).trans hput

/-- Writes at different rows all stand. -/
theorem slotAt_writeEach {writes : List (Nat × String)} {i : Nat} {v : String} (e : FieldEdit)
    (hrows : (writes.map (·.1)).Nodup) (h : (i, v) ∈ writes) : slotAt (e.writeEach writes) i = .write v :=
  slotAt_writeEach_of_agree e h fun _ hw => congrArg Prod.snd (List.inj_on_of_nodup_map hrows hw h rfl)

theorem slotAt_writeEach_iff {writes : List (Nat × String)} {i : Nat} {v : String} (hrows : (writes.map (·.1)).Nodup) :
    slotAt (writeEach [] writes) i = .write v ↔ (i, v) ∈ writes := by
  constructor
  · intro hi
    by_cases hmem : i ∈ writes.map (·.1)
    · obtain ⟨⟨_, w⟩, hw, rfl⟩ := List.mem_map.mp hmem
      rw [slotAt_writeEach [] hrows hw] at hi
      cases hi
      exact hw
    · rw [slotAt_writeEach_of_notMem _ hmem, slotAt_nil] at hi
      cases hi
  · exact slotAt_writeEach [] hrows

/-- An edit that only writes takes no row away. -/
theorem slotAt_writeEach_ne_drop {writes : List (Nat × String)} {i : Nat} {e : FieldEdit} (h : slotAt e i ≠ .drop) :
    slotAt (e.writeEach writes) i ≠ .drop := by
  induction writes generalizing e with
  | nil => exact h
  | cons w rest ih =>
    have hput : slotAt (e.put w.1 (.write w.2)) i ≠ .drop := by
      rw [slotAt_put]
      split
      · simp
      · exact h
    exact ih hput

/-! ### Where an edit cuts -/

/-- The row, or one before it, goes away. -/
def cuts (e : FieldEdit) (i : Nat) : Bool := (e.take (i + 1)).any Slot.isDrop

@[simp] theorem cuts_nil (i : Nat) : cuts [] i = false := rfl

@[simp] theorem cuts_cons_zero (s : Slot) (e : FieldEdit) : cuts (s :: e) 0 = s.isDrop := by simp [cuts]

@[simp] theorem cuts_cons_succ (s : Slot) (e : FieldEdit) (i : Nat) :
    cuts (s :: e) (i + 1) = (s.isDrop || cuts e i) := by simp [cuts]

theorem firstDrop?_cons (s : Slot) (e : FieldEdit) :
    firstDrop? (s :: e) = if s.isDrop then some 0 else (firstDrop? e).map (· + 1) := by
  simp [firstDrop?, List.findIdx?_cons]

theorem cuts_of_drop {e : FieldEdit} {i j : Nat} (h : e[i]? = some .drop) (hij : i ≤ j) : e.cuts j = true := by
  have hmem : Slot.drop ∈ e.take (j + 1) := List.mem_of_getElem? (i := i) (by
    rw [List.getElem?_take_of_lt (by omega), h])
  exact List.any_eq_true.mpr ⟨_, hmem, rfl⟩

theorem firstDrop?_eq_some {e : FieldEdit} {r : Nat} (h : e.firstDrop? = some r) :
    e[r]? = some .drop ∧ ∀ i < r, e[i]? ≠ some .drop := by
  induction e generalizing r with
  | nil => simp [firstDrop?] at h
  | cons s e ih =>
    rw [firstDrop?_cons] at h
    cases hs : s.isDrop <;> simp only [hs, Bool.false_eq_true, ↓reduceIte] at h
    · obtain ⟨k, hk, rfl⟩ := Option.map_eq_some_iff.mp h
      obtain ⟨hget, hlt⟩ := ih hk
      refine ⟨by simpa using hget, fun i hi => ?_⟩
      cases i with
      | zero => rintro ⟨⟩; cases hs
      | succ i => simpa using hlt i (by omega)
    · cases h
      exact ⟨congrArg some (Slot.isDrop_iff.mp hs), fun i hi => absurd hi (Nat.not_lt_zero i)⟩

/-- The rows that an edit leaves are those before the first one that goes away. -/
theorem cuts_eq_false_iff {e : FieldEdit} {i : Nat} : e.cuts i = false ↔ ∀ r ∈ e.firstDrop?, i < r := by
  induction e generalizing i with
  | nil => simp [firstDrop?]
  | cons s e ih =>
    rw [firstDrop?_cons]
    cases hs : s.isDrop with
    | true => cases i <;> simp [hs]
    | false =>
      cases i with
      | zero => simp [hs]
      | succ i => simp [hs, ih]

theorem mem_dropped {e : FieldEdit} {i : Nat} : i ∈ e.dropped ↔ e[i]? = some .drop := by
  simp [dropped, List.mk_mem_zipIdx_iff_getElem?, Slot.isDrop_iff]

theorem firstDrop?_eq_none_iff {e : FieldEdit} : e.firstDrop? = none ↔ e.hasDrops = false := by
  rw [hasDrops, Option.isSome_eq_false_iff, Option.isNone_iff_eq_none]

theorem hasDrops_eq_false_iff {e : FieldEdit} : e.hasDrops = false ↔ ∀ i, e.slotAt i ≠ .drop := by
  rw [← firstDrop?_eq_none_iff]
  constructor
  · intro hnone i hs
    have hmem : Slot.drop ∈ e := List.mem_of_getElem? (getElem?_of_slotAt hs (by simp))
    have hsome : e.firstDrop?.isSome = true := by
      rw [firstDrop?, List.findIdx?_isSome, List.any_eq_true]
      exact ⟨.drop, hmem, rfl⟩
    rw [hnone] at hsome
    cases hsome
  · intro h
    cases hd : e.firstDrop? with
    | none => rfl
    | some r => exact absurd (slotAt_eq_of_getElem? (firstDrop?_eq_some hd).1) (h r)

theorem hasDrops_cons {s : Slot} {e : FieldEdit} (h : hasDrops (s :: e) = false) : s ≠ .drop ∧ hasDrops e = false := by
  have hslots := hasDrops_eq_false_iff.mp h
  exact ⟨hslots 0, hasDrops_eq_false_iff.mpr fun i => hslots (i + 1)⟩

theorem cuts_eq_false {e : FieldEdit} (hn : e.hasDrops = false) (i : Nat) : e.cuts i = false := by
  simp [cuts_eq_false_iff, firstDrop?_eq_none_iff.mpr hn]

theorem hasDrops_writeEach (writes : List (Nat × String)) : hasDrops (writeEach [] writes) = false :=
  hasDrops_eq_false_iff.mpr fun _ => slotAt_writeEach_ne_drop (by simp)

/-- What an edit writes, row by row: what it says before the first row that goes away. -/
theorem mem_writes_iff {e : FieldEdit} {i : Nat} {v : String} :
    (i, v) ∈ e.writes ↔ e.slotAt i = .write v ∧ ∀ r ∈ e.firstDrop?, i < r := by
  have hslot : (i, v) ∈ e.writes ↔ (e.take e.effectiveLength)[i]? = some (.write v) := by
    simp [writes, List.mk_mem_zipIdx_iff_getElem?, Slot.value?_eq_some_iff]
  have hwrite : e[i]? = some (.write v) ↔ e.slotAt i = .write v :=
    ⟨slotAt_eq_of_getElem?, fun h => getElem?_of_slotAt h (by simp)⟩
  rw [hslot, effectiveLength]
  cases e.firstDrop? with
  | none => simpa using hwrite
  | some r => simp [List.getElem?_take, hwrite, and_comm]

theorem mem_writes {e : FieldEdit} {i : Nat} {v : String} (hn : e.hasDrops = false) :
    (i, v) ∈ e.writes ↔ e.slotAt i = .write v := by
  simp [mem_writes_iff, firstDrop?_eq_none_iff.mpr hn]

theorem pairwise_zipIdx (e : FieldEdit) : e.zipIdx.Pairwise fun a b => a.2 < b.2 := by
  rw [← List.pairwise_map, List.zipIdx_map_snd]
  exact List.pairwise_lt_range'

/-- Values are written in ascending order of the rows. -/
theorem pairwise_writes (e : FieldEdit) : e.writes.Pairwise fun a b => a.1 < b.1 := by
  refine (pairwise_zipIdx _).filterMap _ fun a b hlt x hx y hy => ?_
  obtain ⟨v, -, rfl⟩ := Option.map_eq_some_iff.mp hx
  obtain ⟨w, -, rfl⟩ := Option.map_eq_some_iff.mp hy
  exact hlt

/-- The rows that go away are given in ascending order. -/
theorem pairwise_dropped (e : FieldEdit) : e.dropped.Pairwise (· < ·) := by
  refine (pairwise_zipIdx e).filterMap _ fun a b hlt i hi j hj => ?_
  obtain ⟨-, hi⟩ := Option.ite_none_right_eq_some.mp hi
  obtain ⟨-, hj⟩ := Option.ite_none_right_eq_some.mp hj
  rwa [Option.some.inj hi, Option.some.inj hj] at hlt

/-! ### The values, row by row -/

/-- A row that is kept where there is none is padded if a later one is written. -/
theorem applyTo_keep_nil {e : FieldEdit} (h : e.applyTo [] ≠ []) : applyTo (.keep :: e) [] = "" :: e.applyTo [] := by
  cases hrest : e.applyTo [] with
  | nil => exact absurd hrest h
  | cons v rest => simp only [applyTo, hrest]

theorem getElem?_applyTo_of_cuts {e : FieldEdit} {i : Nat} (h : e.cuts i = true) (values : List String) :
    (e.applyTo values)[i]? = none := by
  induction e generalizing i values with
  | nil => cases h
  | cons s e ih =>
    cases s with
    | drop => simp [applyTo]
    | write v =>
      cases i with
      | zero => cases h
      | succ i => simpa [applyTo] using ih (by simpa [Slot.isDrop] using h) values.tail
    | keep =>
      cases i with
      | zero => cases h
      | succ i =>
        have ih := ih (i := i) (by simpa [Slot.isDrop] using h)
        cases values with
        | cons v values => simpa [applyTo] using ih values
        | nil =>
          have h0 := ih []
          simp only [applyTo]
          split
          · rfl
          · simpa using h0

theorem getElem?_applyTo_of_write {e : FieldEdit} {i : Nat} {v : String} (hc : e.cuts i = false)
    (hw : e.slotAt i = .write v) (values : List String) : (e.applyTo values)[i]? = some v := by
  induction e generalizing i values with
  | nil => cases hw
  | cons s e ih =>
    cases s with
    | drop => cases i <;> simp [Slot.isDrop] at hc
    | write w =>
      cases i with
      | zero => cases hw; rfl
      | succ i => simpa [applyTo] using ih (by simpa [Slot.isDrop] using hc) (by simpa using hw) values.tail
    | keep =>
      cases i with
      | zero => cases hw
      | succ i =>
        have ih := ih (i := i) (by simpa [Slot.isDrop] using hc) (by simpa using hw)
        cases values with
        | cons v values => simpa [applyTo] using ih values
        | nil =>
          have h0 := ih []
          have hrest : applyTo e [] ≠ [] := fun hnil => by
            rw [hnil] at h0
            cases h0
          rw [applyTo_keep_nil hrest]
          simpa using h0

/-- A row that an edit keeps holds what it held, or the empty value where a later row is written past
    the end. -/
theorem getElem?_applyTo_of_keep {e : FieldEdit} {i : Nat} (hc : e.cuts i = false)
    (hk : e.slotAt i = .keep) (values : List String) :
    (e.applyTo values)[i]? = values[i]? ∨ (values[i]? = none ∧ (e.applyTo values)[i]? = some "") := by
  induction e generalizing i values with
  | nil => exact Or.inl rfl
  | cons s e ih =>
    cases s with
    | drop => cases i <;> simp [Slot.isDrop] at hc
    | write w =>
      cases i with
      | zero => cases hk
      | succ i => simpa [applyTo] using ih (by simpa [Slot.isDrop] using hc) (by simpa using hk) values.tail
    | keep =>
      cases values with
      | cons v values =>
        cases i with
        | zero => exact Or.inl rfl
        | succ i => simpa [applyTo] using ih (by simpa [Slot.isDrop] using hc) (by simpa using hk) values
      | nil =>
        simp only [applyTo]
        split
        · exact Or.inl rfl
        · rename_i hne
          cases i with
          | zero => exact Or.inr ⟨rfl, rfl⟩
          | succ i => simpa using ih (i := i) (by simpa [Slot.isDrop] using hc) (by simpa using hk) []

/-- A row that is there and that an edit keeps holds what it held. -/
theorem getElem?_applyTo_of_held {e : FieldEdit} {values : List String} {i : Nat} {v : String} (hc : e.cuts i = false)
    (hk : e.slotAt i = .keep) (hv : values[i]? = some v) : (e.applyTo values)[i]? = some v := by
  rcases getElem?_applyTo_of_keep hc hk values with hkeep | ⟨hnone, -⟩
  · rw [hkeep, hv]
  · rw [hnone] at hv
    cases hv

/-- Applying an edit once more changes nothing. -/
theorem applyTo_applyTo (e : FieldEdit) (values : List String) : e.applyTo (e.applyTo values) = e.applyTo values := by
  induction e generalizing values with
  | nil => rfl
  | cons s e ih =>
    cases s with
    | drop => rfl
    | write v => exact congrArg (v :: ·) (ih values.tail)
    | keep =>
      cases values with
      | cons v values => exact congrArg (v :: ·) (ih values)
      | nil =>
        by_cases hrest : applyTo e [] = []
        · simp only [applyTo, hrest]
        · rw [applyTo_keep_nil hrest]
          exact congrArg ("" :: ·) (ih [])

/-! ### The number of values -/

/-- One more than the last row written before the first that goes away; 0 if there is none. -/
def writtenLength : FieldEdit → Nat
  | [] => 0
  | .drop :: _ => 0
  | .write _ :: rest => writtenLength rest + 1
  | .keep :: rest => if writtenLength rest = 0 then 0 else writtenLength rest + 1

/-- Where there are no values, an edit leaves none exactly if it writes none. -/
theorem applyTo_nil_eq_nil_iff {e : FieldEdit} : e.applyTo [] = [] ↔ e.writtenLength = 0 := by
  induction e with
  | nil => simp [applyTo, writtenLength]
  | cons s e ih =>
    cases s with
    | drop => simp [applyTo, writtenLength]
    | write v => simp [applyTo, writtenLength]
    | keep =>
      rw [writtenLength]
      by_cases hrest : applyTo e [] = []
      · simp [applyTo, hrest, ih.mp hrest]
      · simp [applyTo_keep_nil hrest, mt ih.mpr hrest]

/-- The number of values after an edit: writes lengthen them, and the first row that goes away ends them. -/
theorem length_applyTo (e : FieldEdit) (values : List String) :
    (e.applyTo values).length = match e.firstDrop? with
      | some r => min (max values.length e.writtenLength) r
      | none => max values.length e.writtenLength := by
  induction e generalizing values with
  | nil => simp [applyTo, firstDrop?, writtenLength]
  | cons s e ih =>
    rw [firstDrop?_cons]
    cases s with
    | drop => simp [applyTo, Slot.isDrop]
    | write v =>
      simp only [applyTo, List.length_cons, ih, Slot.isDrop, Bool.false_eq_true, ↓reduceIte, writtenLength,
        List.length_tail]
      cases firstDrop? e <;> simp <;> omega
    | keep =>
      simp only [Slot.isDrop, Bool.false_eq_true, ↓reduceIte, writtenLength]
      cases values with
      | cons v values =>
        simp only [applyTo, List.length_cons, ih]
        cases firstDrop? e <;> simp <;> split <;> omega
      | nil =>
        -- A slot that keeps a row that is not there pads it, if a later slot writes.
        have hlength := ih []
        by_cases hrest : applyTo e [] = []
        · have hw := applyTo_nil_eq_nil_iff.mp hrest
          simp only [applyTo, hrest, hw]
          cases firstDrop? e <;> simp
        · have hw := mt applyTo_nil_eq_nil_iff.mpr hrest
          rw [applyTo_keep_nil hrest, List.length_cons, hlength, if_neg hw]
          cases firstDrop? e <;> simp

theorem length_applyTo_of_no_drops {e : FieldEdit} (hn : e.hasDrops = false) (values : List String) :
    (e.applyTo values).length = max values.length e.writtenLength := by
  rw [length_applyTo, firstDrop?_eq_none_iff.mpr hn]

/-- Only what is written before the first row that goes away lengthens values. -/
theorem writtenLength_le_iff_uncut {e : FieldEdit} {n : Nat} :
    e.writtenLength ≤ n ↔ ∀ i v, e.cuts i = false → e.slotAt i = .write v → i < n := by
  induction e generalizing n with
  | nil => simp [writtenLength]
  | cons s e ih =>
    have hlater : (∀ i v, cuts e i = false → slotAt e i = .write v → i + 1 < n) ↔ writtenLength e ≤ n - 1 := by
      simp only [ih, Nat.lt_sub_iff_add_lt]
    -- The first slot counts by itself, and the later ones unless it is a drop.
    have hslots : (∀ i v, cuts (s :: e) i = false → slotAt (s :: e) i = .write v → i < n) ↔
        (∀ v, s = .write v → 0 < n) ∧
          (s.isDrop = false → ∀ i v, cuts e i = false → slotAt e i = .write v → i + 1 < n) := by
      constructor
      · intro h
        refine ⟨fun v hs => h 0 v (by simp [hs, Slot.isDrop]) hs, fun hs i v hc hw => h (i + 1) v ?_ hw⟩
        rw [cuts_cons_succ, hs, hc, Bool.false_or]
      · rintro ⟨hfirst, hrest⟩ i v hc hw
        cases i with
        | zero => exact hfirst v hw
        | succ i =>
          rw [cuts_cons_succ, Bool.or_eq_false_iff] at hc
          exact hrest hc.1 i v hc.2 hw
    rw [hslots]
    cases s with
    | drop => simp [writtenLength, Slot.isDrop]
    | write v =>
      simp only [writtenLength, Slot.isDrop, Slot.write.injEq, forall_const, hlater, forall_eq']
      omega
    | keep =>
      simp only [writtenLength, Slot.isDrop, reduceCtorEq, false_implies, implies_true, true_and, forall_const, hlater]
      split <;> omega

theorem writtenLength_le_of_writes {e : FieldEdit} {n : Nat} (h : ∀ i v, e.slotAt i = .write v → i < n) :
    e.writtenLength ≤ n :=
  writtenLength_le_iff_uncut.mpr fun i v _ hw => h i v hw

theorem writtenLength_le_iff {e : FieldEdit} (hn : e.hasDrops = false) (n : Nat) :
    e.writtenLength ≤ n ↔ ∀ i v, e.slotAt i = .write v → i < n := by
  simp only [writtenLength_le_iff_uncut, cuts_eq_false hn, forall_const]

theorem writtenLength_writeEach_le {writes : List (Nat × String)} {n : Nat} (h : ∀ w ∈ writes, w.1 < n) :
    (writeEach [] writes).writtenLength ≤ n := by
  refine writtenLength_le_of_writes fun i v hi => ?_
  by_cases hmem : i ∈ writes.map (·.1)
  · obtain ⟨w, hw, rfl⟩ := List.mem_map.mp hmem
    exact h w hw
  · rw [slotAt_writeEach_of_notMem _ hmem, slotAt_nil] at hi
    cases hi

end FieldEdit

end FormSession
