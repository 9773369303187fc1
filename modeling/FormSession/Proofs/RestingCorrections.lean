import FormSession.Proofs.HiddenRows
import FormSession.Proofs.Overwriting

/-! # Corrections and resting values

A pass writes to rows that it tells, and by what it tells of them: a row that is shown while it holds the sentinel gets
its default, a row that is hidden and new gets the sentinel (`slotAt_corrections_told`). The resting value of a row
comes from the policy of its field instead. The two differ where the policy names a class that says otherwise than the
field itself (`corrections_rest_iff`); and where a field can never be not applicable, a sentinel that was entered there
is still replaced once its row is shown (`corrections_never_iff`). -/

namespace FormSession

/-- What a pass writes to a row, from what it tells of the row's field. -/
inductive Visibility.Corrects (v : Visibility) (cx : PassContext) (change : FieldChange) (i : Nat) : String → Prop
  | shown (told : i ∈ change.shown) (sentinel : (cx.values change.field)[i]? = some cx.rules.naValue)
    (answer : (cx.rules.spec change.field).default ≠ cx.rules.naValue) :
    Corrects v cx change i (cx.rules.spec change.field).default
  | hidden (told : i ∈ change.hidden) (applicable : (cx.rules.spec change.field).na.isApplicable)
    (new : (v.appliedRows change.field).length ≤ i)
    (answered : (cx.values change.field)[i]? ≠ some cx.rules.naValue) :
    Corrects v cx change i cx.rules.naValue

/-! ### Resting values -/

section Resting
variable {m : Classification} {f : String} {i : Nat}

theorem NaPolicy.holdsAt_onHide {verdict : Verdict} (hm : m[f]? = some verdict) :
    NaPolicy.onHide.holdsAt f i m = !m.matchesAt f i := by
  simp [holdsAt, Classification.matchesAt, hm]

/-- A row that a class makes not applicable holds what it would hold by its own visibility, unless both say the same. -/
theorem rest_by_class_iff {shown classed : Bool} {answer sentinel : String} :
    (if shown then answer else sentinel) = (if classed then sentinel else answer) ↔
      (classed = shown → answer = sentinel) := by
  cases shown <;> cases classed <;> simp [eq_comm]

end Resting

namespace Visibility
variable {v : Visibility} {cx : PassContext} {force : Bool} {m : Classification} {f : String} {i : Nat} {w : String}
  {r : Resolution} {change : FieldChange}

/-! ### What a pass writes -/

theorem mem_corrections_told (hr : r ∈ v.resolutions cx force m) :
    (i, w) ∈ r.corrections ↔ v.Corrects cx r.toChange i w := by
  obtain ⟨f, verdict, -, -, -, rfl⟩ := mem_resolutions.mp hr
  rw [Resolution.mem_corrections_iff]
  constructor
  · rintro ⟨_ | _, hchange, hw⟩
    · obtain ⟨happlicable, hnew, hvalue, rfl⟩ := correction?_hidden.mp hw
      exact .hidden (Resolution.mem_hidden.mpr hchange) happlicable hnew hvalue
    · obtain ⟨hvalue, hdefault, rfl⟩ := correction?_shown.mp hw
      exact .shown (Resolution.mem_shown.mpr hchange) hvalue hdefault
  · rintro (⟨htold, hvalue, hdefault⟩ | ⟨htold, happlicable, hnew, hvalue⟩)
    · exact ⟨true, Resolution.mem_shown.mp htold, correction?_shown.mpr ⟨hvalue, hdefault, rfl⟩⟩
    · exact ⟨false, Resolution.mem_hidden.mp htold, correction?_hidden.mpr ⟨happlicable, hnew, hvalue, rfl⟩⟩

theorem slotAt_corrections_told : FieldEdit.slotAt ((v.pass cx force m).1.corrections.getD f []) i = .write w ↔
    ∃ change ∈ (v.pass cx force m).1.queue, change.field = f ∧ v.Corrects cx change i w := by
  rw [slotAt_corrections]
  constructor
  · rintro ⟨r, hr, rfl, hmem⟩
    have hchanges := changes_ne_nil hr (List.ne_nil_of_mem hmem)
    exact ⟨r.toChange, mem_pass_queue.mpr ⟨r, hr, hchanges, rfl⟩, rfl, (mem_corrections_told hr).mp hmem⟩
  · rintro ⟨_, hqueue, rfl, hw⟩
    obtain ⟨r, hr, -, rfl⟩ := mem_pass_queue.mp hqueue
    exact ⟨r, hr, rfl, (mem_corrections_told hr).mpr hw⟩

/-- A field that is never not applicable gets nothing but its default, and that where a sentinel is shown. -/
theorem slotAt_corrections_never (policy : (cx.rules.spec f).na = .never) :
    FieldEdit.slotAt ((v.pass cx force m).1.corrections.getD f []) i = .write w ↔
      (cx.rules.spec f).default ≠ cx.rules.naValue ∧ w = (cx.rules.spec f).default ∧
        (cx.values f)[i]? = some cx.rules.naValue ∧
        ∃ change ∈ (v.pass cx force m).1.queue, change.field = f ∧ i ∈ change.shown := by
  rw [slotAt_corrections_told]
  constructor
  · rintro ⟨change, hchange, rfl, hw⟩
    cases hw with
    | shown told sentinel answer => exact ⟨answer, rfl, sentinel, change, hchange, rfl, told⟩
    | hidden _ applicable => simp [policy, NaPolicy.isApplicable] at applicable
  · rintro ⟨answer, rfl, sentinel, change, hchange, rfl, told⟩
    exact ⟨change, hchange, rfl, .shown told sentinel answer⟩

theorem mem_corrections_iff : f ∈ (v.pass cx force m).1.corrections ↔
    ∃ i w, FieldEdit.slotAt ((v.pass cx force m).1.corrections.getD f []) i = .write w := by
  constructor
  · intro hf
    obtain ⟨x, hx⟩ := Option.isSome_iff_exists.mp (Std.ExtTreeMap.mem_iff_isSome_getElem?.mp hf)
    obtain ⟨r, hr, rfl, hne, -⟩ := exists_of_getElem?_pass_corrections hx
    obtain ⟨⟨i, w⟩, hmem⟩ := List.exists_mem_of_ne_nil _ hne
    exact ⟨i, w, slotAt_corrections.mpr ⟨r, hr, rfl, hmem⟩⟩
  · rintro ⟨i, w, hw⟩
    by_contra hf
    rw [Std.ExtTreeMap.getD_eq_fallback hf] at hw
    cases hw

/-! ### What a pass tells -/

theorem verdict_of_told (hchange : change ∈ (v.pass cx force m).1.queue) : ∃ verdict, m[change.field]? = some verdict := by
  obtain ⟨r, hr, -, rfl⟩ := mem_pass_queue.mp hchange
  obtain ⟨f, verdict, hm, -, -, rfl⟩ := mem_resolutions.mp hr
  exact ⟨verdict, hm⟩

theorem matchesAt_of_change {visible : Bool} (hr : r ∈ v.resolutions cx force m) (hchange : (i, visible) ∈ r.changes) :
    m.matchesAt r.field i = visible := by
  obtain ⟨f, verdict, hm, -, -, rfl⟩ := mem_resolutions.mp hr
  have hrow := Verdict.matchesAt_of_decided (Resolution.mem_resolve_changes.mp hchange).1
  rw [hrow]
  show (m[f]?).any (·.matchesAt i) = _
  rw [hm, Option.any_some]

theorem matchesAt_of_shown (hchange : change ∈ (v.pass cx force m).1.queue) (hi : i ∈ change.shown) :
    m.matchesAt change.field i = true := by
  obtain ⟨r, hr, -, rfl⟩ := mem_pass_queue.mp hchange
  exact matchesAt_of_change hr (Resolution.mem_shown.mp hi)

theorem matchesAt_of_hidden (hchange : change ∈ (v.pass cx force m).1.queue) (hi : i ∈ change.hidden) :
    m.matchesAt change.field i = false := by
  obtain ⟨r, hr, -, rfl⟩ := mem_pass_queue.mp hchange
  exact matchesAt_of_change hr (Resolution.mem_hidden.mp hi)

/-- What a pass writes to a row is the default of a field that is shown there, and the sentinel of one that is not. -/
theorem Corrects.eq_ite (h : v.Corrects cx change i w) (hchange : change ∈ (v.pass cx force m).1.queue) :
    w = if m.matchesAt change.field i then (cx.rules.spec change.field).default else cx.rules.naValue := by
  cases h with
  | shown told => rw [if_pos (matchesAt_of_shown hchange told)]
  | hidden told => rw [matchesAt_of_hidden hchange told, if_neg Bool.false_ne_true]

end Visibility

/-! ### Against the resting value -/

section Rest
variable (v : Visibility) (cx : PassContext) (force : Bool) (m : Classification) {f : String}

/-- What a pass writes to a row is the default if the field matches there, and else the sentinel. It is the resting
    value of the row, unless the policy names a class that matches where the field does, or neither does, and the
    default is not the sentinel. -/
theorem corrections_rest_iff {i : Nat} {w : String}
    (written : FieldEdit.slotAt ((v.pass cx force m).1.corrections.getD f []) i = .write w) :
    w = (if m.matchesAt f i then (cx.rules.spec f).default else cx.rules.naValue) ∧
      (w = cx.rules.restingValue m f i ↔ ∀ c, (cx.rules.spec f).na = .whenClass c →
        m.matchesAt c i = m.matchesAt f i → (cx.rules.spec f).default = cx.rules.naValue) := by
  obtain ⟨change, hchange, rfl, hw⟩ := Visibility.slotAt_corrections_told.mp written
  have hvalue := hw.eq_ite hchange
  refine ⟨hvalue, ?_⟩
  rw [FieldRules.restingValue]
  cases hpolicy : (cx.rules.spec change.field).na with
  | never =>
    cases hw with
    | shown => simp [NaPolicy.holdsAt]
    | hidden _ applicable => simp [hpolicy, NaPolicy.isApplicable] at applicable
  | onHide =>
    obtain ⟨verdict, hm⟩ := Visibility.verdict_of_told hchange
    rw [hvalue]
    cases hmatch : m.matchesAt change.field i <;> simp [NaPolicy.holdsAt_onHide hm, hmatch]
  | whenClass c =>
    rw [hvalue]
    simp only [NaPolicy.holdsAt, NaPolicy.whenClass.injEq, forall_eq']
    exact rest_by_class_iff

end Rest

/-! ### A permit that some are exempt from -/

/-- A field that holds one answer. -/
def permitContext : PassContext where
  active := .ofList ["permit"]
  values field := if field = "permit" then ["P-17"] else []
  rules := { registry := (∅ : Registry).insert "permit" ⟨"none", .whenClass "exempt", false⟩, naValue := "N/A" }
  rendered _ := none

/-- The permit is to be hidden. -/
def permitHidden : Classification := (∅ : Classification).insert "permit" (.uniform false)

theorem corrections_rest_iff_permitExempt :
    "N/A" = permitContext.rules.restingValue (permitHidden.insert "exempt" (.uniform true)) "permit" 0 := by
  have hwritten : FieldEdit.slotAt ((Visibility.empty.pass permitContext false
      (permitHidden.insert "exempt" (.uniform true))).1.corrections.getD "permit" []) 0 = .write "N/A" := by
    decide +kernel
  refine (corrections_rest_iff _ _ _ _ hwritten).2.mpr fun c hc hmatch => ?_
  have hpolicy : (permitContext.rules.spec "permit").na = .whenClass "exempt" := by decide +kernel
  obtain rfl : "exempt" = c := by
    rw [hpolicy] at hc
    exact NaPolicy.whenClass.inj hc
  revert hmatch
  decide +kernel

/-- Hidden for another reason than the exemption, the permit gets the sentinel all the same; reset, it would get its
    default. -/
theorem hidden_permit_not_applicable :
    FieldEdit.slotAt ((Visibility.empty.pass permitContext false permitHidden).1.corrections.getD "permit" []) 0 =
        .write "N/A" ∧
      permitContext.rules.restingValue permitHidden "permit" 0 = "none" := by
  decide +kernel

section Never
variable (v : Visibility) (cx : PassContext) (force : Bool) (m : Classification) {f : String}

/-- A field that is never not applicable is written to where it is shown while it holds the sentinel, unless its
    default is the sentinel; and nowhere else. -/
theorem corrections_never_iff (policy : (cx.rules.spec f).na = .never) :
    (f ∈ (v.pass cx force m).1.corrections ↔ (cx.rules.spec f).default ≠ cx.rules.naValue ∧
      ∃ change ∈ (v.pass cx force m).1.queue, change.field = f ∧
        ∃ i ∈ change.shown, (cx.values f)[i]? = some cx.rules.naValue) ∧
    ∀ i w, FieldEdit.slotAt ((v.pass cx force m).1.corrections.getD f []) i = .write w ↔
      (cx.rules.spec f).default ≠ cx.rules.naValue ∧ w = (cx.rules.spec f).default ∧
        (cx.values f)[i]? = some cx.rules.naValue ∧
        ∃ change ∈ (v.pass cx force m).1.queue, change.field = f ∧ i ∈ change.shown := by
  have hwritten : ∀ i w, FieldEdit.slotAt ((v.pass cx force m).1.corrections.getD f []) i = .write w ↔ _ :=
    fun _ _ => Visibility.slotAt_corrections_never policy
  refine ⟨Visibility.mem_corrections_iff.trans ⟨?_, ?_⟩, hwritten⟩
  · rintro ⟨i, w, hw⟩
    obtain ⟨answer, -, sentinel, change, hchange, hfield, told⟩ := (hwritten i w).mp hw
    exact ⟨answer, change, hchange, hfield, i, told, sentinel⟩
  · rintro ⟨answer, change, hchange, hfield, i, told, sentinel⟩
    exact ⟨i, _, (hwritten i _).mpr ⟨answer, rfl, sentinel, change, hchange, hfield, told⟩⟩

end Never

/-! ### A remark that happens to be the sentinel -/

/-- A field without a declaration. -/
def remarkContext : PassContext where
  active := .ofList ["remark"]
  values field := if field = "remark" then ["N/A"] else []
  rules := { registry := ∅, naValue := "N/A" }
  rendered _ := none

/-- The remark is to be shown. -/
def remarkShown : Classification := (∅ : Classification).insert "remark" (.uniform true)

theorem corrections_never_iff_remarkShown :
    ∃ change ∈ (Visibility.empty.pass remarkContext false remarkShown).1.queue, change.field = "remark" ∧
      ∃ i ∈ change.shown, (remarkContext.values "remark")[i]? = some "N/A" := by
  have hpolicy : (remarkContext.rules.spec "remark").na = .never := by decide +kernel
  have hmentioned : "remark" ∈ (Visibility.empty.pass remarkContext false remarkShown).1.corrections := by
    decide +kernel
  exact ((corrections_never_iff Visibility.empty remarkContext false remarkShown hpolicy).1.mp hmentioned).2

/-- What was entered gives way to the empty value as soon as the remark is shown. -/
theorem shown_remark_lost :
    (remarkContext.rules.spec "remark").na = .never ∧
      "remark" ∈ (Visibility.empty.pass remarkContext false remarkShown).1.corrections ∧
      FieldEdit.slotAt ((Visibility.empty.pass remarkContext false remarkShown).1.corrections.getD "remark" []) 0 =
        .write "" := by
  decide +kernel

end FormSession
