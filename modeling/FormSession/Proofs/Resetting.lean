import FormSession.FieldRules
import FormSession.Proofs.History

/-! # Resets

A reset writes its resting value to each asked row that does not hold it, and says nothing of other rows
(`slotAt_reset`). Rows may be asked in any order, repeatedly, and past the values of their field. A write past the
values pads the rows before it, but the padded rows that are asked are written as well; so once a reset is staged
every asked row rests, and the same reset has nothing left to say (`reset_exact`). -/

namespace FormSession

/-- The row is to be reset. -/
def ResetRequest.Asks (request : ResetRequest) (f : String) (i : Nat) : Prop := i ∈ request.getD f []

instance (request : ResetRequest) (f : String) (i : Nat) : Decidable (request.Asks f i) :=
  inferInstanceAs (Decidable (i ∈ request.getD f []))

namespace FieldRules
variable {rules : FieldRules} {m : Classification} {values : String → List String} {request : ResetRequest}
  {f : String} {i : Nat}

/-! ### What a reset writes -/

/-- A reset writes the resting value to each asked row that does not hold it. -/
theorem mem_resetWrites {held : List String} {rows : List Nat} {v : String} : (i, v) ∈ rules.resetWrites m f held rows ↔
    i ∈ rows ∧ held[i]? ≠ some (rules.restingValue m f i) ∧ v = rules.restingValue m f i := by
  simp only [resetWrites, List.mem_filterMap, Option.ite_none_left_eq_some, Option.some.injEq, Prod.mk.injEq]
  constructor
  · rintro ⟨j, hj, hne, rfl, rfl⟩
    exact ⟨hj, hne, rfl⟩
  · rintro ⟨hi, hne, rfl⟩
    exact ⟨i, hi, hne, rfl, rfl⟩

theorem getElem?_reset (rules : FieldRules) (m : Classification) (values : String → List String)
    (request : ResetRequest) (f : String) : (rules.reset m values request)[f]? =
      if rules.resetWrites m f (values f) (request.getD f []) = [] then none
      else some (FieldEdit.writeEach [] (rules.resetWrites m f (values f) (request.getD f []))) := by
  rw [reset, Std.ExtTreeMap.getElem?_filterMap', Std.ExtTreeMap.getD_eq_getD_getElem?]
  cases request[f]? with
  | none => rfl
  | some rows =>
    rw [Option.bind_some, Option.getD_some]
    split
    · rename_i hnil
      rw [if_pos hnil]
    · rename_i hne
      rw [if_neg hne]

theorem getD_reset (rules : FieldRules) (m : Classification) (values : String → List String) (request : ResetRequest)
    (f : String) : (rules.reset m values request).getD f [] =
      FieldEdit.writeEach [] (rules.resetWrites m f (values f) (request.getD f [])) := by
  rw [Std.ExtTreeMap.getD_eq_getD_getElem?, getElem?_reset]
  split
  · rename_i hnil
    rw [hnil]
    rfl
  · rfl

theorem slotAt_reset (rules : FieldRules) (m : Classification) (values : String → List String)
    (request : ResetRequest) (f : String) (i : Nat) : FieldEdit.slotAt ((rules.reset m values request).getD f []) i =
      if request.Asks f i ∧ (values f)[i]? ≠ some (rules.restingValue m f i) then .write (rules.restingValue m f i)
      else .keep := by
  rw [getD_reset]
  split
  · rename_i hwritten
    have hwrite := mem_resetWrites.mpr ⟨hwritten.1, hwritten.2, rfl⟩
    exact FieldEdit.slotAt_writeEach_of_agree [] hwrite fun _ hw => (mem_resetWrites.mp hw).2.2
  · rename_i hnot
    refine FieldEdit.slotAt_writeEach_of_notMem [] fun hmem => ?_
    obtain ⟨⟨_, v⟩, hw, rfl⟩ := List.mem_map.mp hmem
    obtain ⟨hasked, hne, -⟩ := mem_resetWrites.mp hw
    exact hnot ⟨hasked, hne⟩

theorem hasDrops_reset (rules : FieldRules) (m : Classification) (values : String → List String)
    (request : ResetRequest) (f : String) : FieldEdit.hasDrops ((rules.reset m values request).getD f []) = false := by
  rw [getD_reset]
  exact FieldEdit.hasDrops_writeEach _

theorem mem_writes_reset {w : String} : (i, w) ∈ FieldEdit.writes ((rules.reset m values request).getD f []) ↔
    request.Asks f i ∧ (values f)[i]? ≠ some (rules.restingValue m f i) ∧ w = rules.restingValue m f i := by
  rw [FieldEdit.mem_writes (hasDrops_reset ..), slotAt_reset]
  split
  · rename_i hwritten
    rw [Slot.write.injEq]
    exact ⟨fun hw => ⟨hwritten.1, hwritten.2, hw.symm⟩, fun h => h.2.2.symm⟩
  · rename_i hnot
    refine iff_of_false (by simp) fun h => hnot ⟨h.1, h.2.1⟩

/-- A reset names the fields in which an asked row does not rest. -/
theorem mem_reset : f ∈ rules.reset m values request ↔
    ∃ i, request.Asks f i ∧ (values f)[i]? ≠ some (rules.restingValue m f i) := by
  rw [Std.ExtTreeMap.mem_iff_isSome_getElem?, getElem?_reset]
  constructor
  · intro hsome
    split at hsome
    · cases hsome
    · rename_i hne
      obtain ⟨⟨i, v⟩, hw⟩ := List.exists_mem_of_ne_nil _ hne
      obtain ⟨hasked, hi, -⟩ := mem_resetWrites.mp hw
      exact ⟨i, hasked, hi⟩
  · rintro ⟨i, hasked, hne⟩
    rw [if_neg (List.ne_nil_of_mem (mem_resetWrites.mpr ⟨hasked, hne, rfl⟩))]
    rfl

theorem reset_eq_empty_iff : rules.reset m values request = ∅ ↔
    ∀ f i, request.Asks f i → (values f)[i]? = some (rules.restingValue m f i) := by
  rw [Std.ExtTreeMap.eq_empty_iff_forall_not_mem]
  refine forall_congr' fun f => ?_
  rw [mem_reset]
  exact ⟨fun h i hasked => by_contra fun hne => h ⟨i, hasked, hne⟩, fun h ⟨i, hasked, hne⟩ => hne (h i hasked)⟩

/-! ### The values after a reset -/

theorem getElem?_reset_of_asks (hasked : request.Asks f i) :
    (FieldEdit.applyTo ((rules.reset m values request).getD f []) (values f))[i]? = some (rules.restingValue m f i) := by
  have hc := FieldEdit.cuts_eq_false (rules.hasDrops_reset m values request f) i
  have hslot := slotAt_reset rules m values request f i
  by_cases hrests : (values f)[i]? = some (rules.restingValue m f i)
  · rw [if_neg fun h => h.2 hrests] at hslot
    exact FieldEdit.getElem?_applyTo_of_held hc hslot hrests
  · rw [if_pos ⟨hasked, hrests⟩] at hslot
    exact FieldEdit.getElem?_applyTo_of_write hc hslot _

theorem getElem?_reset_of_not_asks {v : String} (hnot : ¬request.Asks f i) (hv : (values f)[i]? = some v) :
    (FieldEdit.applyTo ((rules.reset m values request).getD f []) (values f))[i]? = some v := by
  have hslot := slotAt_reset rules m values request f i
  rw [if_neg fun h => hnot h.1] at hslot
  exact FieldEdit.getElem?_applyTo_of_held (FieldEdit.cuts_eq_false (rules.hasDrops_reset m values request f) i) hslot hv

/-- A reset takes no row away and writes exactly the asked rows that do not rest, each to its resting value. Once it is
    staged every asked row rests, every other value stays, and the same reset is empty. -/
theorem reset_exact {η : Type} [EditHook η] {s : Store η} (unhooked : s.hooks = []) (rules : FieldRules)
    (m : Classification) (request : ResetRequest) :
    let e := rules.reset m s.values request
    let t := (s.stage e).2
    (∀ f, FieldEdit.hasDrops (e.getD f []) = false) ∧
    (∀ f, f ∈ e ↔ ∃ i, request.Asks f i ∧ s.value? f i ≠ some (rules.restingValue m f i)) ∧
    (∀ f i w, (i, w) ∈ FieldEdit.writes (e.getD f []) ↔
      request.Asks f i ∧ s.value? f i ≠ some (rules.restingValue m f i) ∧ w = rules.restingValue m f i) ∧
    (∀ f i, request.Asks f i → t.value? f i = some (rules.restingValue m f i)) ∧
    (∀ f i v, s.value? f i = some v → ¬request.Asks f i → t.value? f i = some v) ∧
    rules.reset m t.values request = ∅ := by
  intro e t
  have hvalues : ∀ f, t.values f = FieldEdit.applyTo (e.getD f []) (s.values f) :=
    Store.values_stage_applyTo unhooked e
  have hrests : ∀ f i, request.Asks f i → t.value? f i = some (rules.restingValue m f i) := fun f i hasked => by
    rw [Store.value?, hvalues]
    exact getElem?_reset_of_asks hasked
  refine ⟨rules.hasDrops_reset m s.values request, fun f => mem_reset, fun f i w => mem_writes_reset, hrests,
    fun f i v hv hnot => ?_, reset_eq_empty_iff.mpr hrests⟩
  rw [Store.value?, hvalues]
  exact getElem?_reset_of_not_asks hnot hv

end FieldRules

/-! ### Lockers given back -/

/-- A locker is free while nobody has it, and not applicable where it is closed. -/
def lockerRules : FieldRules where
  registry := (∅ : Registry).insert "locker" ⟨"free", .whenClass "closed", false⟩
  naValue := "N/A"

/-- One locker is taken, and the other one is not applicable. -/
def lockerStore : Store Empty := .ofCommitted ((∅ : FieldValues).insert "locker" ["Ada", "N/A"])

/-- Every other locker is closed. -/
def lockersClosed : Classification := (∅ : Classification).insert "closed" (.byRow [false, true, false, true])

/-- A locker that there is not yet is asked first and again, and so is a field without values. -/
def lockersAsked : ResetRequest := ((∅ : ResetRequest).insert "locker" [3, 0, 3, 1]).insert "note" [1]

theorem reset_exact_lockersAsked :
    let e := lockerRules.reset lockersClosed lockerStore.values lockersAsked
    let t := (lockerStore.stage e).2
    lockerStore.hooks = [] ∧ FieldEdit.writes (e.getD "locker" []) = [(0, "free"), (3, "N/A")] ∧
      t.value? "locker" 1 = some "N/A" ∧ t.value? "locker" 3 = some "N/A" ∧ t.values "note" = ["", ""] ∧
      lockerRules.reset lockersClosed t.values lockersAsked = ∅ := by
  have unhooked : lockerStore.hooks = [] := rfl
  obtain ⟨-, -, -, hrests, -, hagain⟩ := FieldRules.reset_exact unhooked lockerRules lockersClosed lockersAsked
  have hclosed : lockerRules.restingValue lockersClosed "locker" 1 = "N/A" := by decide +kernel
  have hlater : lockerRules.restingValue lockersClosed "locker" 3 = "N/A" := by decide +kernel
  refine ⟨unhooked, by decide +kernel, ?_, ?_, by decide +kernel, hagain⟩
  · rw [← hclosed]
    exact hrests "locker" 1 (by decide +kernel)
  · rw [← hlater]
    exact hrests "locker" 3 (by decide +kernel)

end FormSession
