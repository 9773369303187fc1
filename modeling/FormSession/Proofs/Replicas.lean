import FormSession.Proofs.History

/-! # Replicas of the values

A subscription is handed every update that the store publishes while it is held, once and in order, and the
versions of the updates count up. Whoever copies the merged view when subscribing, and follows each update
handed over, has the values of the store at any time after that (`replica_follows`). This rests on the
subscriptions having different ids, and on the published edit leading from the values before it to those
after it, whether an edit was staged or what was staged was dropped. -/

namespace FormSession

/-- What a replica of the values holds after an update. -/
def FieldValues.follow (data : FieldValues) (u : Update) : FieldValues :=
  data ∪ u.edit.map fun field e => e.applyTo (data.of field)

/-- What can be asked of a store. -/
inductive StoreOperation (η : Type) where
  | change (c : StoreChange)
  | commit
  | addHook (h : η)
  | subscribe
  | unsubscribe (id : Nat)

/-- An update, and the subscriptions that it is handed to, in order. -/
structure Publication where
  recipients : List Nat
  update : Update
  deriving DecidableEq

/-- The updates that a subscription is handed, each as often as it is. -/
def received (id : Nat) (publications : List Publication) : List Update :=
  publications.flatMap fun p => List.replicate (p.recipients.count id) p.update

namespace Store
variable {η : Type} [EditHook η]

/-- Carries an operation out: the update that it publishes, if any, and the store after it. -/
def perform (s : Store η) : StoreOperation η → Option Update × Store η
  | .change c => s.change c
  | .commit => (none, s.commit.2)
  | .addHook h => (none, s.addHook h)
  | .subscribe => (none, s.subscribe.2)
  | .unsubscribe id => (none, s.unsubscribe id)

/-- Carries operations out in order: what they publish, and the store after them. -/
def performAll (s : Store η) : List (StoreOperation η) → List Publication × Store η
  | [] => ([], s)
  | op :: rest =>
    let (update, t) := s.perform op
    let (publications, t) := t.performAll rest
    ((update.map fun u => ⟨s.recipients, u⟩).toList ++ publications, t)

variable {s t : Store η} {op : StoreOperation η} {o : Option Update} {id : Nat}

/-! ### Versions and subscriptions -/

/-- The subscriptions have different ids, all of them given out before. -/
structure Numbered (s : Store η) : Prop where
  distinct : (s.subscriptions.map (·.id)).Nodup
  given : ∀ x ∈ s.subscriptions, x.id < s.subscribed

/-- A subscription is held. -/
def Holds (s : Store η) (id : Nat) : Prop := ⟨id, true⟩ ∈ s.subscriptions

omit [EditHook η] in
theorem Numbered.of_sublist (hs : s.Numbered) (hsub : t.subscriptions.Sublist s.subscriptions)
    (hgiven : t.subscribed = s.subscribed) : t.Numbered where
  distinct := (hsub.map _).nodup hs.distinct
  given x hx := hgiven ▸ hs.given x (hsub.subset hx)

theorem Numbered.perform (hs : s.Numbered) (h : s.perform op = (o, t)) : t.Numbered := by
  cases op with
  | change c =>
    obtain ⟨hgiven, hrest⟩ := publication_of_change h
    cases o with
    | none => exact hs.of_sublist (hrest.2 ▸ List.Sublist.refl _) hgiven
    | some u => exact hs.of_sublist (hrest.2.2 ▸ List.filter_sublist) hgiven
  | commit => cases h; exact hs.of_sublist (.refl _) rfl
  | addHook => cases h; exact hs.of_sublist (.refl _) rfl
  | subscribe =>
    cases h
    -- The new id is the number of subscriptions made so far, and all ids given are below it.
    have hnew : s.subscribed ∉ s.subscriptions.map (·.id) := fun hmem => by
      obtain ⟨x, hx, hid⟩ := List.mem_map.mp hmem
      exact absurd (hs.given x hx) (by omega)
    refine ⟨?_, fun x hx => ?_⟩
    · simpa [Store.subscribe, List.nodup_append, hs.distinct] using hnew
    · rcases List.mem_append.mp hx with hx | hx
      · exact Nat.lt_succ_of_lt (hs.given x hx)
      · rw [List.mem_singleton.mp hx]
        exact Nat.lt_succ_self _
  | unsubscribe i =>
    cases h
    have hids : ((s.unsubscribe i).subscriptions).map (·.id) = s.subscriptions.map (·.id) := by
      rw [Store.unsubscribe, List.map_map]
      refine List.map_congr_left fun x _ => ?_
      simp only [Function.comp_apply]
      split <;> rfl
    refine ⟨hids ▸ hs.distinct, fun x hx => ?_⟩
    have hmem : x.id ∈ s.subscriptions.map (·.id) := hids ▸ List.mem_map_of_mem hx
    obtain ⟨y, hy, hid⟩ := List.mem_map.mp hmem
    exact hid ▸ hs.given y hy

/-- A subscription is held from the operation that makes it to the one that lets it go. -/
theorem holds_perform (h : s.perform op = (o, t)) :
    t.Holds id ↔ (s.Holds id ∧ op ≠ .unsubscribe id) ∨ (op = .subscribe ∧ id = s.subscribed) := by
  cases op with
  | change c =>
    obtain ⟨-, hrest⟩ := publication_of_change h
    cases o with
    | none => simp [Holds, hrest.2]
    | some u => simp [Holds, hrest.2.2]
  | commit => cases h; simp [Holds, Store.commit]
  | addHook => cases h; simp [Holds, Store.addHook]
  | subscribe => cases h; simp [Holds, Store.subscribe]
  | unsubscribe i =>
    cases h
    simp only [Holds, Store.unsubscribe, List.mem_map, ne_eq, StoreOperation.unsubscribe.injEq, reduceCtorEq,
      false_and, or_false]
    constructor
    · rintro ⟨x, hx, hkept⟩
      split at hkept
      · cases hkept
      · rename_i hne
        subst hkept
        exact ⟨hx, fun hi => hne hi.symm⟩
    · rintro ⟨hheld, hne⟩
      exact ⟨_, hheld, if_neg fun hi => hne hi.symm⟩

omit [EditHook η] in
theorem mem_recipients : id ∈ s.recipients ↔ s.Holds id := by
  simp only [recipients, Holds, List.mem_map, List.mem_filter]
  constructor
  · rintro ⟨⟨i, held⟩, ⟨hx, hheld⟩, rfl⟩
    cases hheld
    exact hx
  · intro hheld
    exact ⟨_, ⟨hheld, rfl⟩, rfl⟩

omit [EditHook η] in
theorem count_recipients (hs : s.Numbered) (hheld : s.Holds id) : s.recipients.count id = 1 := by
  have hnodup : s.recipients.Nodup := (List.filter_sublist.map _).nodup hs.distinct
  rw [hnodup.count, if_pos (mem_recipients.mpr hheld)]

/-! ### Values -/

omit [EditHook η] in
/-- A replica that follows an update has the values after it, if it had those before. -/
theorem follow_of {data : FieldValues} {u : Update} (hl : s.Leads u.edit t) (hdata : ∀ f, data.of f = s.values f)
    (f : String) : (data.follow u).of f = t.values f := by
  rw [hl.values, ← hdata]
  simp only [FieldValues.follow, FieldValues.of, Std.ExtTreeMap.getD_eq_getD_getElem?, Std.ExtTreeMap.getElem?_union,
    Std.ExtTreeMap.getElem?_map]
  cases u.edit[f]? with
  | none => cases data[f]? <;> rfl
  | some e => rfl

theorem unpublished (h : s.perform op = (none, t)) : (∀ f, t.values f = s.values f) ∧ t.version = s.version := by
  cases op with
  | change c => exact ⟨values_of_change_none h, (publication_of_change h).2.1⟩
  | commit => cases h; exact ⟨values_commit s, rfl⟩
  | addHook => cases h; exact ⟨fun _ => rfl, rfl⟩
  | subscribe => cases h; exact ⟨fun _ => rfl, rfl⟩
  | unsubscribe => cases h; exact ⟨fun _ => rfl, rfl⟩

theorem published {u : Update} (h : s.perform op = (some u, t)) :
    s.Leads u.edit t ∧ u.version = s.version + 1 ∧ t.version = s.version + 1 := by
  cases op with
  | change c => exact ⟨leads_of_change h, (publication_of_change h).2.1, (publication_of_change h).2.2.1⟩
  | commit => cases h
  | addHook => cases h
  | subscribe => cases h
  | unsubscribe => cases h

/-! ### Runs -/

omit [EditHook η] in
theorem numbered_ofCommitted (data : FieldValues) : (ofCommitted data : Store η).Numbered :=
  ⟨List.nodup_nil, fun _ hx => by cases hx⟩

theorem Numbered.performAll (hs : s.Numbered) (ops : List (StoreOperation η)) : (s.performAll ops).2.Numbered := by
  induction ops generalizing s with
  | nil => exact hs
  | cons op rest ih =>
    have hstep : s.perform op = ((s.perform op).1, (s.perform op).2) := rfl
    exact ih (hs.perform hstep)

theorem performAll_cons (h : s.perform op = (o, t)) (rest : List (StoreOperation η)) : s.performAll (op :: rest) =
    ((o.map fun u => (⟨s.recipients, u⟩ : Publication)).toList ++ (t.performAll rest).1, (t.performAll rest).2) := by
  rw [Store.performAll, h]

theorem holds_performAll {ops : List (StoreOperation η)} (hheld : s.Holds id) (hops : .unsubscribe id ∉ ops) :
    (s.performAll ops).2.Holds id := by
  induction ops generalizing s with
  | nil => exact hheld
  | cons op rest ih =>
    obtain ⟨hop, hrest⟩ := List.ne_and_not_mem_of_not_mem_cons hops
    have hstep : s.perform op = ((s.perform op).1, (s.perform op).2) := rfl
    exact ih ((holds_perform hstep).mpr (Or.inl ⟨hheld, Ne.symm hop⟩)) hrest

/-- While a subscription is held it is handed every update once, and a replica that follows them stays right. -/
theorem follow_performAll {data : FieldValues} {ops : List (StoreOperation η)} (hs : s.Numbered) (hheld : s.Holds id)
    (hdata : ∀ f, data.of f = s.values f) (hops : .unsubscribe id ∉ ops) :
    let (publications, t) := s.performAll ops
    received id publications = publications.map (·.update) ∧
      publications.map (·.update.version) = List.range' (s.version + 1) publications.length ∧
      ∀ f, ((publications.map (·.update)).foldl FieldValues.follow data).of f = t.values f := by
  induction ops generalizing s data with
  | nil => exact ⟨rfl, rfl, hdata⟩
  | cons op rest ih =>
    obtain ⟨hop, hrest⟩ := List.ne_and_not_mem_of_not_mem_cons hops
    rcases hstep : s.perform op with ⟨o, t⟩
    have hheld' : t.Holds id := (holds_perform hstep).mpr (Or.inl ⟨hheld, Ne.symm hop⟩)
    rw [performAll_cons hstep]
    cases o with
    | none =>
      obtain ⟨hvalues, hversion⟩ := unpublished hstep
      obtain ⟨hall, hversions, hreplica⟩ :=
        ih (hs.perform hstep) hheld' (fun f => (hdata f).trans (hvalues f).symm) hrest
      exact ⟨hall, hversion ▸ hversions, hreplica⟩
    | some u =>
      -- Ids are distinct, so that the update is handed out once to each subscription that is held.
      obtain ⟨hleads, hnext, hversion⟩ := published hstep
      obtain ⟨hall, hversions, hreplica⟩ := ih (hs.perform hstep) hheld' (follow_of hleads hdata) hrest
      refine ⟨?_, ?_, hreplica⟩
      · have hone : received id (⟨s.recipients, u⟩ :: (t.performAll rest).1) =
            List.replicate (s.recipients.count id) u ++ received id (t.performAll rest).1 := rfl
        show received id (⟨s.recipients, u⟩ :: (t.performAll rest).1) = u :: (t.performAll rest).1.map (·.update)
        rw [hone, hall, count_recipients hs hheld]
        rfl
      · show u.version :: (t.performAll rest).1.map (·.update.version) = _
        rw [hversions, hversion, hnext]
        rfl

theorem received_of_letGo {ops : List (StoreOperation η)} (hgiven : id < s.subscribed) (hgone : ¬ s.Holds id) :
    received id (s.performAll ops).1 = [] := by
  induction ops generalizing s with
  | nil => rfl
  | cons op rest ih =>
    rcases hstep : s.perform op with ⟨o, t⟩
    have hgone' : ¬ t.Holds id := by
      rw [holds_perform hstep]
      rintro (⟨hheld, -⟩ | ⟨-, hid⟩)
      · exact hgone hheld
      · omega
    have hgiven' : id < t.subscribed := by
      cases op with
      | change c => exact (publication_of_change hstep).1 ▸ hgiven
      | subscribe => cases hstep; exact Nat.lt_succ_of_lt hgiven
      | _ => cases hstep; exact hgiven
    have hrest := ih hgiven' hgone'
    rw [performAll_cons hstep]
    cases o with
    | none => exact hrest
    | some u =>
      have hnone : s.recipients.count id = 0 := List.count_eq_zero.mpr fun hmem => hgone (mem_recipients.mp hmem)
      simpa [received, hnone] using hrest

/-- A replica taken when subscribing has the values of the store as long as the subscription is held, for every
    update is handed over once, and in the order of the versions; then nothing is handed over any more. A commit
    publishes nothing. -/
theorem replica_follows {data : FieldValues} {before after : List (StoreOperation η)}
    (held : .unsubscribe ((ofCommitted data : Store η).performAll before).2.subscribe.1 ∉ after) :
    let s := ((ofCommitted data : Store η).performAll before).2
    let (id, subscribed) := s.subscribe
    let (publications, t) := subscribed.performAll after
    received id publications = publications.map (·.update) ∧
      publications.map (·.update.version) = List.range' (s.version + 1) publications.length ∧
      (∀ f, ((received id publications).foldl FieldValues.follow s.view).of f = t.values f) ∧
      (∀ later, received id ((t.unsubscribe id).performAll later).1 = []) ∧
      (t.performAll [.commit]).1 = [] ∧ (t.performAll [.commit]).2.version = t.version := by
  have hs : ((ofCommitted data : Store η).performAll before).2.Numbered := (numbered_ofCommitted data).performAll before
  generalize ((ofCommitted data : Store η).performAll before).2 = s at hs held
  have hsubscribe : s.perform .subscribe = (none, s.subscribe.2) := rfl
  have hnumbered : s.subscribe.2.Numbered := hs.perform hsubscribe
  have hheld : s.subscribe.2.Holds s.subscribed := (holds_perform hsubscribe).mpr (Or.inr ⟨rfl, rfl⟩)
  have hview : ∀ f, s.view.of f = s.subscribe.2.values f := s.view_of
  obtain ⟨hall, hversions, hreplica⟩ := follow_performAll hnumbered hheld hview held
  have hreceived : ∀ f,
      ((received s.subscribed (s.subscribe.2.performAll after).1).foldl FieldValues.follow s.view).of f =
        (s.subscribe.2.performAll after).2.values f := by
    rw [hall]
    exact hreplica
  -- An id that was let go is never given again, as the numbers go on rising.
  refine ⟨hall, hversions, hreceived, fun later => ?_, rfl, rfl⟩
  have hstill : (s.subscribe.2.performAll after).2.Holds s.subscribed := holds_performAll hheld held
  have hgiven : s.subscribed < (s.subscribe.2.performAll after).2.subscribed :=
    (hnumbered.performAll after).given _ hstill
  have hletGo : (s.subscribe.2.performAll after).2.perform (.unsubscribe s.subscribed) =
      (none, (s.subscribe.2.performAll after).2.unsubscribe s.subscribed) := rfl
  have hgone : ¬ ((s.subscribe.2.performAll after).2.unsubscribe s.subscribed).Holds s.subscribed := by
    rw [holds_perform hletGo]
    simp
  exact received_of_letGo hgiven hgone

end Store

/-! ### An answer added and dropped -/

/-- An answer is added, another subscription is let go, and the answer is dropped. -/
def answerDropped : List (StoreOperation Empty) :=
  [.change (.stage ((∅ : FormEdit).insert "x" [.keep, .write "b"])), .unsubscribe 0, .change .revert]

theorem replica_follows_answerDropped :
    let s := ((Store.ofCommitted ((∅ : FieldValues).insert "x" ["a"]) : Store Empty).performAll [.subscribe]).2
    let (publications, t) := s.subscribe.2.performAll answerDropped
    received 1 publications = publications.map (·.update) ∧ publications.map (·.update.version) = [1, 2] ∧
      ∀ f, ((received 1 publications).foldl FieldValues.follow s.view).of f = t.values f := by
  have held : .unsubscribe ((Store.ofCommitted ((∅ : FieldValues).insert "x" ["a"]) : Store Empty).performAll
      [.subscribe]).2.subscribe.1 ∉ answerDropped := by
    show StoreOperation.unsubscribe 1 ∉ answerDropped
    simp [answerDropped]
  obtain ⟨hall, hversions, hreplica, -⟩ := Store.replica_follows held
  refine ⟨hall, hversions.trans ?_, hreplica⟩
  decide +kernel

end FormSession
