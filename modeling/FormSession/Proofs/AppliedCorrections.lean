import FormSession.Proofs.Corrections
import FormSession.Proofs.Publishing
import FormSession.Proofs.RepeatedPasses
import FormSession.Proofs.RestingCorrections

/-! # Corrections that were applied

Once the corrections of a forced pass are staged, the same pass has nothing to correct (`corrections_settle`). They
lengthen a field only if it held no values, and not past the rows that the pass decided, so that the second pass decides
no row that the first one did not: no hidden row is new to it (`length_rows_corrected_le`). A row that it shows does not
hold the sentinel any more (`value_corrected_ne`): the row holds its default, or what it held, or the empty value if it
came to be because a later row was written. -/

namespace FormSession

/-- A verdict decides no more rows once some of those that it decided hold values. -/
theorem Verdict.length_decided_le_of_filled (v : Verdict) (rendered : Option Nat) {held filled : Nat}
    (longer : held ≤ filled) (within : filled ≤ max held (v.decided rendered held).length) :
    (v.decided rendered filled).length ≤ (v.decided rendered held).length := by
  rcases Nat.eq_zero_or_pos held with rfl | hheld
  · rcases Nat.eq_zero_or_pos filled with rfl | hfilled
    · exact Nat.le_refl _
    · rw [Nat.zero_max] at within
      exact Nat.le_trans (v.length_decided_le rendered hfilled) within
  · have hle := v.length_decided_le rendered hheld
    obtain rfl : filled = held := by omega
    exact Nat.le_refl _

/-- A row is not corrected to what it holds. -/
theorem Resolution.correction?_ne {rules : FieldRules} {field : String} {values : List String} {known i : Nat}
    {visible : Bool} {w : String} (h : correction? rules field values known i visible = some w) :
    values[i]? ≠ some w := by
  cases visible with
  | true =>
    obtain ⟨hvalue, hdefault, rfl⟩ := correction?_shown.mp h
    rw [hvalue]
    exact fun hsame => hdefault (Option.some.inj hsame).symm
  | false =>
    obtain ⟨-, -, hvalue, rfl⟩ := correction?_hidden.mp h
    exact hvalue

/-! ### What corrections write -/

namespace Visibility
variable {v : Visibility} {cx : PassContext} {force : Bool} {m : Classification} {f : String} {i : Nat} {w : String}
  {verdict : Verdict}

theorem corrections_ne (h : FieldEdit.slotAt ((v.pass cx force m).1.corrections.getD f []) i = .write w) :
    (cx.values f)[i]? ≠ some w := by
  obtain ⟨r, hr, rfl, hmem⟩ := slotAt_corrections.mp h
  obtain ⟨f, verdict, -, -, -, rfl⟩ := mem_resolutions.mp hr
  obtain ⟨visible, -, hneeds⟩ := Resolution.mem_corrections_iff.mp hmem
  exact Resolution.correction?_ne hneeds

/-- The corrections of a field write to rows that its verdict decides. -/
theorem lt_rows_of_correction (hm : m[f]? = some verdict)
    (h : FieldEdit.slotAt ((v.pass cx force m).1.corrections.getD f []) i = .write w) :
    i < (cx.rows f verdict).length := by
  obtain ⟨r, hr, hf, hmem⟩ := slotAt_corrections.mp h
  obtain ⟨verdict', hm', -, -, rfl⟩ := resolution_of_field hr hf
  obtain rfl : verdict' = verdict := Option.some.inj (hm'.symm.trans hm)
  exact Resolution.lt_of_mem_corrections hmem

/-- What a forced pass writes to a row that its verdict shows. -/
theorem correction_of_shown (hm : m[f]? = some verdict) (shown : verdict.matchesAt i = true)
    (h : FieldEdit.slotAt ((v.pass cx force m).1.corrections.getD f []) i = .write w) :
    (cx.values f)[i]? = some cx.rules.naValue ∧ (cx.rules.spec f).default ≠ cx.rules.naValue ∧
      w = (cx.rules.spec f).default := by
  obtain ⟨r, hr, hf, hmem⟩ := slotAt_corrections.mp h
  obtain ⟨verdict', hm', -, -, rfl⟩ := resolution_of_field hr hf
  obtain rfl : verdict' = verdict := Option.some.inj (hm'.symm.trans hm)
  obtain ⟨visible, hchange, hneeds⟩ := Resolution.mem_corrections_iff.mp hmem
  obtain rfl : visible = true :=
    (Verdict.matchesAt_of_decided (Resolution.mem_resolve_changes.mp hchange).1).trans shown
  obtain ⟨hvalue, hdefault, hw⟩ := correction?_shown.mp hneeds
  exact ⟨hvalue, hdefault, hw.symm⟩

/-- A forced pass gives a row its default that is shown while it holds the sentinel. -/
theorem slotAt_corrections_of_shown (hactive : f ∈ cx.active) (hm : m[f]? = some verdict)
    (hi : i < (cx.rows f verdict).length) (shown : verdict.matchesAt i = true)
    (sentinel : (cx.values f)[i]? = some cx.rules.naValue)
    (answer : (cx.rules.spec f).default ≠ cx.rules.naValue) :
    FieldEdit.slotAt ((v.pass cx true m).1.corrections.getD f []) i = .write (cx.rules.spec f).default := by
  have hrow : (cx.rows f verdict)[i]? = some true := by
    rw [List.getElem?_eq_getElem hi, ← shown, Verdict.matchesAt_of_decided (List.getElem?_eq_getElem hi)]
  refine slotAt_corrections.mpr ⟨_, mem_resolutions.mpr ⟨f, verdict, hm, hactive, Or.inl rfl, rfl⟩, rfl, ?_⟩
  exact Resolution.mem_resolve_corrections (Resolution.mem_resolve_changes.mpr ⟨hrow, Or.inl rfl⟩) sentinel answer

end Visibility

/-! ### Once they are staged -/

section Staged
variable {η : Type}

/-- The context with the values of a store. -/
def PassContext.over (cx : PassContext) (s : Store η) : PassContext :=
  { cx with values := s.values }

variable [EditHook η] {s : Store η} {v : Visibility} {cx : PassContext} {m : Classification} {f : String} {i : Nat}
  {verdict : Verdict}

/-- The store once the corrections of a forced pass are staged. -/
def Store.corrected (s : Store η) (v : Visibility) (cx : PassContext) (m : Classification) : Store η :=
  (s.stage (v.pass (cx.over s) true m).1.corrections).2

theorem length_rows_corrected_le (unhooked : s.hooks = []) (hm : m[f]? = some verdict) :
    ((cx.over (s.corrected v cx m)).rows f verdict).length ≤ ((cx.over s).rows f verdict).length := by
  have hlength : (s.corrected v cx m).length f =
      max (s.length f) (FieldEdit.writtenLength ((v.pass (cx.over s) true m).1.corrections.getD f [])) :=
    Store.length_stage unhooked Visibility.writesOnly_corrections f
  have hwritten : FieldEdit.writtenLength ((v.pass (cx.over s) true m).1.corrections.getD f []) ≤
      ((cx.over s).rows f verdict).length :=
    FieldEdit.writtenLength_le_of_writes fun _ _ hw => Visibility.lt_rows_of_correction hm hw
  have hlonger : s.length f ≤ (s.corrected v cx m).length f := by omega
  have hwithin : (s.corrected v cx m).length f ≤ max (s.length f) ((cx.over s).rows f verdict).length := by omega
  exact verdict.length_decided_le_of_filled (cx.rendered f) hlonger hwithin

/-- A row that was shown does not hold the sentinel once it is corrected, unless that is its default. -/
theorem value_corrected_ne (unhooked : s.hooks = []) (sentinel : cx.rules.naValue ≠ "") (hactive : f ∈ cx.active)
    (hm : m[f]? = some verdict) (hi : i < ((cx.over s).rows f verdict).length) (shown : verdict.matchesAt i = true)
    (answer : (cx.rules.spec f).default ≠ cx.rules.naValue) :
    ((s.corrected v cx m).values f)[i]? ≠ some cx.rules.naValue := by
  have hvalues : (s.corrected v cx m).values f =
      FieldEdit.applyTo ((v.pass (cx.over s) true m).1.corrections.getD f []) (s.values f) :=
    Store.values_stage_applyTo unhooked _ f
  have hdrops := Visibility.writesOnly_corrections.hasDrops_getD (e := (v.pass (cx.over s) true m).1.corrections) f
  rw [hvalues]
  cases hslot : FieldEdit.slotAt ((v.pass (cx.over s) true m).1.corrections.getD f []) i with
  | drop => exact absurd hslot (FieldEdit.hasDrops_eq_false_iff.mp hdrops i)
  | write w =>
    obtain ⟨-, -, rfl⟩ := Visibility.correction_of_shown hm shown hslot
    rw [FieldEdit.getElem?_applyTo_of_write (FieldEdit.cuts_eq_false hdrops i) hslot]
    exact fun hsame => answer (Option.some.inj hsame)
  | keep =>
    -- A row with the sentinel would have been written; one that is padded is empty.
    rcases FieldEdit.getElem?_applyTo_of_keep (FieldEdit.cuts_eq_false hdrops i) hslot (s.values f) with
      hkept | ⟨-, hpadded⟩
    · rw [hkept]
      intro hvalue
      have hwritten : FieldEdit.slotAt ((v.pass (cx.over s) true m).1.corrections.getD f []) i = .write _ :=
        Visibility.slotAt_corrections_of_shown hactive hm hi shown hvalue answer
      rw [hslot] at hwritten
      cases hwritten
    · rw [hpadded]
      exact fun hsame => sentinel (Option.some.inj hsame).symm

/-- The second pass corrects no row. -/
theorem corrections_corrected (unhooked : s.hooks = []) (sentinel : cx.rules.naValue ≠ "") :
    ((v.pass (cx.over s) true m).2.pass (cx.over (s.corrected v cx m)) true m).1.corrections = ∅ := by
  refine Std.ExtTreeMap.ext_getElem? fun f => ?_
  rw [Std.ExtTreeMap.getElem?_empty, Option.eq_none_iff_forall_ne_some]
  intro x hx
  obtain ⟨r, hr, rfl, hne, -⟩ := Visibility.exists_of_getElem?_pass_corrections hx
  obtain ⟨⟨i, w⟩, hmem⟩ := List.exists_mem_of_ne_nil _ hne
  obtain ⟨f, verdict, hm, hactive, -, rfl⟩ := Visibility.mem_resolutions.mp hr
  obtain ⟨visible, hchange, hneeds⟩ := Resolution.mem_corrections_iff.mp hmem
  have hrow := (Resolution.mem_resolve_changes.mp hchange).1
  have hle : ((cx.over (s.corrected v cx m)).rows f verdict).length ≤ ((cx.over s).rows f verdict).length :=
    length_rows_corrected_le unhooked hm
  have hi : i < ((cx.over s).rows f verdict).length :=
    Nat.lt_of_lt_of_le (List.getElem?_eq_some_iff.mp hrow).1 hle
  cases visible with
  | true =>
    obtain ⟨hvalue, hdefault, -⟩ := correction?_shown.mp hneeds
    exact value_corrected_ne unhooked sentinel hactive hm hi (Verdict.matchesAt_of_decided hrow).symm hdefault hvalue
  | false =>
    -- All rows that the first pass decided are known to the second one.
    obtain ⟨-, hnew, -⟩ := correction?_hidden.mp hneeds
    have hbefore : f ∈ (cx.over s).active := hactive
    have happlied := (Visibility.forced_pass_field v hbefore hm).1
    rw [Visibility.appliedRows_eq, happlied, Option.getD_some] at hnew
    exact absurd hi (Nat.not_lt.mpr hnew)

omit [EditHook η] in
/-- What is left of the corrections when they are staged names every field that they name. -/
theorem mem_normalize_corrections :
    f ∈ s.normalize (v.pass (cx.over s) true m).1.corrections ↔ f ∈ (v.pass (cx.over s) true m).1.corrections := by
  constructor
  · intro hf
    rw [Std.ExtTreeMap.mem_iff_isSome_getElem?, Store.getElem?_normalize] at hf
    rw [Std.ExtTreeMap.mem_iff_isSome_getElem?]
    exact Option.isSome_of_isSome_bind hf
  · intro hf
    -- Some row of the field is written, and the write differs from what the row holds.
    obtain ⟨i, w, hw⟩ := Visibility.mem_corrections_iff.mp hf
    have hdrops := Visibility.writesOnly_corrections.hasDrops_getD (e := (v.pass (cx.over s) true m).1.corrections) f
    have hkept : FieldEdit.slotAt ((s.normalize (v.pass (cx.over s) true m).1.corrections).getD f []) i = .write w := by
      rw [Store.getD_normalize]
      exact FieldEdit.slotAt_normalize_of_write hdrops hw (Visibility.corrections_ne hw)
    by_contra hnot
    rw [Std.ExtTreeMap.getD_eq_fallback hnot] at hkept
    cases hkept

/-- Corrections that are staged are told. -/
theorem corrections_published (unhooked : s.hooks = []) (hne : (v.pass (cx.over s) true m).1.corrections ≠ ∅) :
    ∃ u, (s.stage (v.pass (cx.over s) true m).1.corrections).1 = some u ∧
      ∀ f, f ∈ u.edit ↔ f ∈ (v.pass (cx.over s) true m).1.corrections := by
  have hcases := s.stage_cases (v.pass (cx.over s) true m).1.corrections
  rw [unhooked] at hcases
  rcases hcases with ⟨hnone, -⟩ | ⟨u, t, hstage, hedit, -⟩
  · refine absurd (Std.ExtTreeMap.eq_empty_iff_forall_not_mem.mpr fun f hf => ?_) hne
    have hf := mem_normalize_corrections.mpr hf
    rw [show s.normalize (v.pass (cx.over s) true m).1.corrections = ∅ from hnone] at hf
    exact Std.ExtTreeMap.not_mem_empty hf
  · refine ⟨u, by rw [hstage], fun f => ?_⟩
    rw [show u.edit = s.normalize (v.pass (cx.over s) true m).1.corrections from hedit]
    exact mem_normalize_corrections

variable (v cx m)

/-- Once the corrections of a forced pass are staged, a second forced pass corrects nothing. Each of them writes another
    value than the row holds; so if there are any, an update is published, and it names the corrected fields. -/
theorem corrections_settle (unhooked : s.hooks = []) (sentinel : cx.rules.naValue ≠ "") :
    let (first, v') := v.pass (cx.over s) true m
    let (update, t) := s.stage first.corrections
    (v'.pass (cx.over t) true m).1.corrections = ∅ ∧
      (∀ f i w, FieldEdit.slotAt (first.corrections.getD f []) i = .write w → s.value? f i ≠ some w) ∧
      (first.corrections ≠ ∅ → ∃ u, update = some u ∧ ∀ f, f ∈ u.edit ↔ f ∈ first.corrections) :=
  ⟨corrections_corrected unhooked sentinel, fun _ _ _ hw => Visibility.corrections_ne hw,
    corrections_published unhooked⟩

end Staged

/-! ### Guests who come later -/

/-- A guest list that is empty yet, two permits, one of them not applicable, and a badge whose default is the
    sentinel. -/
def receptionStore : Store Empty :=
  .ofCommitted (((∅ : FieldValues).insert "permit" ["N/A", "P-17"]).insert "badge" ["N/A"])

/-- The three fields of the reception, of which the badge has no other default than the sentinel. -/
def receptionContext : PassContext where
  active := .ofList ["badge", "guest", "permit"]
  values _ := []
  rules :=
    { registry := (((∅ : Registry).insert "guest" ⟨"", .onHide, false⟩).insert "permit" ⟨"none", .never, false⟩).insert
        "badge" ⟨"N/A", .onHide, false⟩
      naValue := "N/A" }
  rendered _ := none

/-- Guests are shown at every other row, and permits and badges at all of them. -/
def receptionRounds : Classification :=
  (((∅ : Classification).insert "guest" (.byRow [false, true, false, true])).insert "permit" (.uniform true)).insert
    "badge" (.uniform true)

/-- The third guest is hidden, so that the list comes to hold three rows, the second of them padded. The second pass
    decides these rows only, and shows the padded one as it is. -/
theorem corrections_settle_receptionRounds :
    let (first, v) := Visibility.empty.pass (receptionContext.over receptionStore) true receptionRounds
    let t := (receptionStore.stage first.corrections).2
    receptionStore.hooks = [] ∧ receptionContext.rules.naValue ≠ "" ∧
      first.corrections.toList = [("guest", [.write "N/A", .keep, .write "N/A"]), ("permit", [.write "none"])] ∧
      t.values "guest" = ["N/A", "", "N/A"] ∧ v.appliedRows "guest" = [false, true, false, true] ∧
      (v.pass (receptionContext.over t) true receptionRounds).1.queue =
        [⟨"badge", [0], []⟩, ⟨"guest", [1], [0, 2]⟩, ⟨"permit", [0, 1], []⟩] ∧
      (v.pass (receptionContext.over t) true receptionRounds).1.corrections = ∅ := by
  have unhooked : receptionStore.hooks = [] := rfl
  have sentinel : receptionContext.rules.naValue ≠ "" := by decide
  obtain ⟨hnothing, -, -⟩ := corrections_settle Visibility.empty receptionContext receptionRounds unhooked sentinel
  exact ⟨unhooked, sentinel, by decide +kernel, by decide +kernel, by decide +kernel, by decide +kernel, hnothing⟩

end FormSession
