import FormSession.Proofs.StoreChange
import FormSession.Rows.Target

/-! # Targets of published changes

A target is read off an edit and the number of values after it, with no look at the values before. For a reduced
edit that is enough: a row goes away in it only where there was one, and its last slot changes something, so the
target asks for as many rows as there are values, and names rows that went away exactly if the values became fewer
(`leads_ofEdit`). What a store publishes is reduced, whatever its hooks made of the edit it was given
(`published_target_leads`). -/

namespace FormSession

namespace RowTarget
variable {e : FieldEdit} {values : List String}

/-- The target takes rows that follow one number of values to another one. -/
structure Leads (target : RowTarget) (before after : Nat) : Prop where
  desired : target.desired = after
  reset : target.reset = false
  removed_bounds : ∀ i ∈ target.removed, after ≤ i ∧ i < before
  removed_ascending : target.removed.Pairwise (· < ·)
  removed_ne_nil_iff : target.removed ≠ [] ↔ after < before

theorem ofEdit_of_drops {r : Nat} (hr : e.firstDrop? = some r) (held : Nat) : ofEdit e held = ⟨r, e.dropped, false⟩ := by
  simp [ofEdit, FieldEdit.hasDrops, FieldEdit.effectiveLength, hr]

/-- A reduced edit that takes no row away asks for as many rows as there are values after it. -/
theorem ofEdit_of_writes (hn : e.hasDrops = false) (h : e.Reduced values) :
    ofEdit e (e.applyTo values).length = .ofLength (e.applyTo values).length := by
  rw [ofEdit, hn, if_neg Bool.false_ne_true, Nat.max_eq_left (h.length_le (FieldEdit.firstDrop?_eq_none_iff.mpr hn))]

theorem leads_ofEdit (h : e.Reduced values) :
    (ofEdit e (e.applyTo values).length).Leads values.length (e.applyTo values).length := by
  cases hd : e.firstDrop? with
  | none =>
    have hgrown : values.length ≤ (e.applyTo values).length := by
      rw [FieldEdit.length_applyTo, hd]
      exact Nat.le_max_left ..
    rw [ofEdit_of_writes (FieldEdit.firstDrop?_eq_none_iff.mp hd) h]
    refine ⟨rfl, rfl, ?_, List.Pairwise.nil, fun hne => absurd rfl hne, fun hlt => by omega⟩
    exact fun i hi => by cases hi
  | some r =>
    obtain ⟨hfirst, hbefore⟩ := FieldEdit.firstDrop?_eq_some hd
    rw [ofEdit_of_drops hd, h.length_of_drops hd]
    refine ⟨rfl, rfl, fun i hi => ?_, e.pairwise_dropped, fun _ => h.drop_lt hfirst, fun _ => ?_⟩
    · have hdrop := FieldEdit.mem_dropped.mp hi
      exact ⟨Nat.le_of_not_lt fun hlt => hbefore i hlt hdrop, h.drop_lt hdrop⟩
    · exact List.ne_nil_of_mem (FieldEdit.mem_dropped.mpr hfirst)

end RowTarget

namespace Store
variable {η : Type} {s t : Store η}

theorem Leads.target_leads {edit : FormEdit} (h : s.Leads edit t) {f : String} {e : FieldEdit}
    (he : edit[f]? = some e) : (RowTarget.ofEdit e (t.length f)).Leads (s.length f) (t.length f) := by
  rw [length, h.values_of_some he]
  exact RowTarget.leads_ofEdit (h.reduced he)

/-- The target of a published edit takes the rows from as many values as the field had to as many as it has. -/
theorem published_target_leads [EditHook η] {c : StoreChange} {u : Update} {f : String} {e : FieldEdit}
    (h : s.change c = (some u, t)) (he : u.edit[f]? = some e) :
    (RowTarget.ofEdit e (t.length f)).Leads (s.length f) (t.length f) :=
  (leads_of_change h).target_leads he

end Store

/-! ### A field that holds no more than two values -/

/-- A hook that cuts a field off after a number of values. -/
structure CapHook where
  field : String
  most : Nat

instance : EditHook CapHook where
  revise h e := (e.drop h.field h.most, h)

/-- Three berths, from before the hook came. -/
def berthStore : Store CapHook :=
  (Store.ofCommitted ((∅ : FieldValues).insert "berth" ["upper", "middle", "lower"])).addHook ⟨"berth", 2⟩

/-- A fifth berth is written. -/
def berthCapped : Option Update × Store CapHook :=
  berthStore.change (.stage ((∅ : FormEdit).write "berth" 4 "cot"))

/-- The hook makes it an edit that takes the third berth away. -/
theorem published_target_leads_berthCapped : ∃ u : Update, berthCapped.1 = some u ∧
    u.edit["berth"]? = some [.keep, .keep, .drop] ∧ berthStore.length "berth" = 3 ∧ berthCapped.2.length "berth" = 2 ∧
      (RowTarget.ofEdit [.keep, .keep, .drop] 2).Leads 3 2 := by
  obtain ⟨u, hupdate, hedit⟩ : ∃ u : Update, berthCapped.1 = some u ∧ u.edit["berth"]? = some [.keep, .keep, .drop] :=
    ⟨⟨1, (∅ : FormEdit).insert "berth" [.keep, .keep, .drop]⟩, by decide +kernel, by decide +kernel⟩
  have hbefore : berthStore.length "berth" = 3 := by decide +kernel
  have hafter : berthCapped.2.length "berth" = 2 := by decide +kernel
  have hleads : (RowTarget.ofEdit _ (berthCapped.2.length "berth")).Leads _ (berthCapped.2.length "berth") :=
    Store.published_target_leads (Prod.ext hupdate rfl) hedit
  rw [hbefore, hafter] at hleads
  exact ⟨u, hupdate, hedit, hbefore, hafter, hleads⟩

end FormSession
