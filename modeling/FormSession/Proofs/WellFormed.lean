import FormSession.Schema.Validation
import Mathlib.Data.List.Nodup
import Mathlib.Data.List.Pairwise

/-! # Well-formed schemas

A schema has no problems exactly if it is well-formed (`problems_eq_nil_iff`): what each problem tells
apart is said here of the schema as a whole. -/

namespace FormSession.Schema

/-- The rows of a group keep within bounds that do not cross. -/
def BoundsAgree (g : RowGroup) : Prop := g.maxRows = 0 ∨ g.minRows ≤ g.maxRows

/-- What a schema that can be used looks like. -/
structure WellFormed (s : Schema) : Prop where
  naValue : s.settings.naValue ≠ ""
  batches : 0 < s.settings.maxBatches
  stepIds : ∀ step ∈ s.steps, step.id ≠ ""
  stepsDistinct : (s.steps.map (·.id)).Nodup
  initialStep : ∀ id, s.settings.initialStep = some id → ∃ step ∈ s.steps, step.id = id
  groupsDistinct : (s.groups.map (·.id)).Nodup
  groupFields : ∀ g ∈ s.groups, g.fields ≠ []
  groupSteps : ∀ g ∈ s.groups, ∃ step ∈ s.steps, step.id = g.step
  groupBounds : ∀ g ∈ s.groups, BoundsAgree g
  fieldsDistinct : (s.groups.flatMap (·.fields)).Nodup

variable {s : Schema}

theorem settingsProblems_eq_nil_iff {c : Settings} :
    settingsProblems c = [] ↔ c.naValue ≠ "" ∧ 0 < c.maxBatches := by
  simp only [settingsProblems, List.append_eq_nil_iff, ite_eq_right_iff, reduceCtorEq, imp_false, ne_eq]
  exact and_congr_right fun _ => Nat.pos_iff_ne_zero.symm

theorem stepProblems_eq_nil_iff {seen : List String} {steps : List Step} :
    stepProblems seen steps = [] ↔
      (∀ step ∈ steps, step.id ≠ "") ∧ (steps.map (·.id)).Nodup ∧ ∀ step ∈ steps, step.id ∉ seen := by
  induction steps generalizing seen with
  | nil => simp [stepProblems]
  | cons step rest ih =>
    simp only [stepProblems]
    split
    · rename_i he
      simp [he]
    · rename_i he
      split
      · rename_i hs
        simp [hs]
      · rename_i hs
        rw [ih]
        simp only [List.mem_cons, forall_eq_or_imp, List.map_cons, List.nodup_cons, List.mem_map, not_exists,
          not_and, not_or]
        exact ⟨fun ⟨h1, h2, h3⟩ => ⟨⟨he, h1⟩, ⟨fun x hx => (h3 x hx).1, h2⟩, hs, fun x hx => (h3 x hx).2⟩,
          fun ⟨⟨_, h1⟩, ⟨h2, h3⟩, _, h4⟩ => ⟨h1, h3, fun x hx => ⟨h2 x hx, h4 x hx⟩⟩⟩

theorem fieldProblems_eq_nil_iff {group : String} {taken fields : List String} :
    fieldProblems group taken fields = [] ↔ fields.Nodup ∧ ∀ f ∈ fields, f ∉ taken := by
  induction fields generalizing taken with
  | nil => simp [fieldProblems]
  | cons field rest ih =>
    simp only [fieldProblems]
    split
    · rename_i ht
      simp [ht]
    · rename_i ht
      rw [ih]
      simp only [List.mem_cons, not_or, List.nodup_cons, forall_eq_or_imp]
      exact ⟨fun ⟨h1, h2⟩ => ⟨⟨fun hm => (h2 field hm).1 rfl, h1⟩, ht, fun f hf => (h2 f hf).2⟩,
        fun ⟨⟨h1, h2⟩, _, h3⟩ => ⟨h2, fun f hf => ⟨fun he => h1 (he ▸ hf), h3 f hf⟩⟩⟩

theorem namesStep_iff (hne : ∀ step ∈ s.steps, step.id ≠ "") {id : String} :
    s.namesStep id = true ↔ ∃ step ∈ s.steps, step.id = id := by
  simp only [namesStep, hasStep, Bool.and_eq_true, decide_eq_true_eq, List.any_eq_true, beq_iff_eq]
  exact ⟨fun h => h.2, fun ⟨step, hs, he⟩ => ⟨he ▸ hne step hs, step, hs, he⟩⟩

theorem initialStepProblems_eq_nil_iff (hne : ∀ step ∈ s.steps, step.id ≠ "") :
    s.initialStepProblems = [] ↔ ∀ id, s.settings.initialStep = some id → ∃ step ∈ s.steps, step.id = id := by
  simp only [initialStepProblems]
  split
  · rename_i id hid
    simp [hid, namesStep_iff hne]
  · rename_i hid
    simp [hid]

theorem groupProblems_eq_nil_iff (hne : ∀ step ∈ s.steps, step.id ≠ "") {g : RowGroup} :
    s.groupProblems g = [] ↔ g.fields ≠ [] ∧ (∃ step ∈ s.steps, step.id = g.step) ∧ BoundsAgree g := by
  simp only [groupProblems, List.append_eq_nil_iff, ite_eq_right_iff, ite_eq_left_iff, reduceCtorEq, imp_false,
    Decidable.not_not, namesStep_iff hne, BoundsAgree, and_assoc]
  refine and_congr_right fun _ => and_congr_right fun _ => ?_
  omega

theorem groupsProblems_eq_nil_iff {seen taken : List String} {groups : List RowGroup} :
    s.groupsProblems seen taken groups = [] ↔
      (groups.map (·.id)).Nodup ∧ (∀ g ∈ groups, g.id ∉ seen) ∧ (∀ g ∈ groups, s.groupProblems g = []) ∧
        (groups.flatMap (·.fields)).Nodup ∧ ∀ f ∈ groups.flatMap (·.fields), f ∉ taken := by
  induction groups generalizing seen taken with
  | nil => simp [groupsProblems]
  | cons g rest ih =>
    rw [List.forall_mem_cons, List.forall_mem_cons]
    simp only [groupsProblems, List.append_eq_nil_iff, ite_eq_right_iff, reduceCtorEq, imp_false, ih,
      fieldProblems_eq_nil_iff, List.mem_cons, not_or, List.mem_append, List.map_cons,
      List.nodup_cons, List.flatMap_cons, List.nodup_append, List.mem_map, not_exists, not_and]
    constructor
    · rintro ⟨⟨⟨hseen, hg⟩, hf, htaken⟩, hids, hrest, hgs, hfs, hfg⟩
      exact ⟨⟨fun x hx => (hrest x hx).1, hids⟩, ⟨hseen, fun x hx => (hrest x hx).2⟩, ⟨hg, hgs⟩,
        ⟨hf, hfs, fun a ha b hb hab => (hfg b hb).1 (hab ▸ ha)⟩,
        fun f hf' => hf'.elim (htaken f) fun hm => (hfg f hm).2⟩
    · rintro ⟨⟨hne, hids⟩, ⟨hseen, hseen'⟩, ⟨hg, hgs⟩, ⟨hf, hfs, hfg⟩, htaken⟩
      exact ⟨⟨⟨hseen, hg⟩, hf, fun f hf' => htaken f (Or.inl hf')⟩, hids,
        fun x hx => ⟨hne x hx, hseen' x hx⟩, hgs, hfs,
        fun f hm => ⟨fun hf' => hfg f hf' f hm rfl, htaken f (Or.inr hm)⟩⟩

/-- A schema can be used exactly if it is well-formed. -/
theorem problems_eq_nil_iff : s.problems = [] ↔ s.WellFormed := by
  simp only [problems, List.append_eq_nil_iff, settingsProblems_eq_nil_iff, stepProblems_eq_nil_iff,
    groupsProblems_eq_nil_iff]
  constructor
  · rintro ⟨⟨⟨⟨hna, hb⟩, hids, hsteps, -⟩, hinit⟩, hgroups, -, hg, hfields, -⟩
    exact ⟨hna, hb, hids, hsteps, (initialStepProblems_eq_nil_iff hids).mp hinit, hgroups,
      fun g hm => ((groupProblems_eq_nil_iff hids).mp (hg g hm)).1,
      fun g hm => ((groupProblems_eq_nil_iff hids).mp (hg g hm)).2.1,
      fun g hm => ((groupProblems_eq_nil_iff hids).mp (hg g hm)).2.2, hfields⟩
  · intro h
    exact ⟨⟨⟨⟨h.naValue, h.batches⟩, h.stepIds, h.stepsDistinct, by simp⟩,
        (initialStepProblems_eq_nil_iff h.stepIds).mpr h.initialStep⟩, h.groupsDistinct, by simp,
      fun g hm => (groupProblems_eq_nil_iff h.stepIds).mpr ⟨h.groupFields g hm, h.groupSteps g hm, h.groupBounds g hm⟩,
      h.fieldsDistinct, by simp⟩

theorem validated_eq_ok_iff {t : Schema} : s.validated = .ok t ↔ s.WellFormed ∧ t = s := by
  rw [← problems_eq_nil_iff, validated]
  split
  · rename_i hnone
    simp [hnone, eq_comm]
  · rename_i hsome
    exact iff_of_false (by simp) fun h => hsome h.1

namespace WellFormed
variable {g : RowGroup}

/-- In a well-formed schema a group is found by its id. -/
theorem group?_of_mem (h : s.WellFormed) (hg : g ∈ s.groups) : s.group? g.id = some g := by
  have hsome : (s.group? g.id).isSome := List.find?_isSome.mpr ⟨g, hg, beq_self_eq_true _⟩
  obtain ⟨g', hg'⟩ := Option.isSome_iff_exists.mp hsome
  have hid : g'.id = g.id := by simpa using List.find?_some hg'
  rw [hg', List.inj_on_of_nodup_map h.groupsDistinct (List.mem_of_find?_eq_some hg') hg hid]

theorem fields_nodup (h : s.WellFormed) (hg : g ∈ s.groups) : g.fields.Nodup :=
  (List.nodup_flatMap.mp h.fieldsDistinct).1 g hg

/-- A field belongs to one group. -/
theorem group_unique (h : s.WellFormed) {g g' : RowGroup} {f : String} (hg : g ∈ s.groups) (hg' : g' ∈ s.groups)
    (hf : f ∈ g.fields) (hf' : f ∈ g'.fields) : g = g' := by
  by_contra hne
  have hdisjoint := (List.nodup_flatMap.mp h.fieldsDistinct).2
  have hsymm : Std.Symm (Function.onFun List.Disjoint fun x : RowGroup => x.fields) := ⟨fun _ _ hxy _ ha hb => hxy hb ha⟩
  exact hdisjoint.forall hg hg' hne hf hf'

end WellFormed

variable {g : RowGroup}

/-- The group that a field belongs to lists the field. -/
theorem groupOf?_eq_some {f : String} (hf : s.groupOf? f = some g) : g ∈ s.groups ∧ f ∈ g.fields :=
  ⟨List.mem_of_find?_eq_some hf, by simpa using List.find?_some hf⟩

theorem group?_eq_some {id : String} (hg : s.group? id = some g) : g ∈ s.groups ∧ g.id = id :=
  ⟨List.mem_of_find?_eq_some hg, by simpa using List.find?_some hg⟩

end FormSession.Schema
