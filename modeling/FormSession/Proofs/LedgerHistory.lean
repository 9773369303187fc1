import FormSession.Proofs.Ledger
import Mathlib.Data.List.Induction
import Mathlib.Data.List.Sort

/-! # The ledger against its history

The ledger after any calls, from the calls alone. A row is listed if some call hid it and no call since showed it,
took it away or cleared the ledger; rows taken away before it moved it down (`follow`). The first such call is the
one that gave the row its number, the next one at that time (`numberedBy_after`). Numbers are handed out once and in
order, so they tell rows apart, and which of two was hidden first (`ledger_keeps_order`). -/

namespace FormSession

/-- What is asked of a ledger. -/
inductive LedgerCall where
  | hide (field : String) (index : Nat)
  | reveal (field : String) (index : Nat)
  | removeRow (field : String) (index : Nat)
  | clear
  deriving DecidableEq, Repr

namespace Ledger
variable {l : Ledger} {c : LedgerCall} {calls : List LedgerCall} {f g : String} {i j k n s t : Nat}

/-! ### One call -/

/-- The ledger after a call. -/
def call (l : Ledger) : LedgerCall → Ledger
  | .hide f i => l.hide f i
  | .reveal f i => l.reveal f i
  | .removeRow f i => l.removeRow f i
  | .clear => l.clear

/-- Where a row of a field that is listed before a call is listed after it. -/
def follow (f : String) (i : Nat) : LedgerCall → Option Nat
  | .hide _ _ => some i
  | .reveal g k => if g = f ∧ k = i then none else some i
  | .removeRow g k => if g = f then if i = k then none else some (moveDown k i) else some i
  | .clear => none

theorem follow_removeRow : follow f j (.removeRow f k) = some i ↔ j = moveBack k i := by
  by_cases hj : j = k
  · subst hj
    simp [follow, (moveBack_ne j i).symm]
  · simp [follow, hj, moveDown_eq_iff hj]

/-- Different rows of a field are listed at different places after a call. -/
theorem follow_inj (hi : follow f i c = some k) (hj : follow f j c = some k) : i = j := by
  cases c with
  | hide g m => exact (Option.some.inj hi).trans (Option.some.inj hj).symm
  | clear => cases hi
  | reveal g m =>
    simp only [follow, Option.ite_none_left_eq_some, Option.some.injEq] at hi hj
    exact hi.2.trans hj.2.symm
  | removeRow g m =>
    by_cases hg : g = f
    · subst hg
      exact (follow_removeRow.mp hi).trans (follow_removeRow.mp hj).symm
    · simp only [follow, hg, if_false, Option.some.injEq] at hi hj
      exact hi.trans hj.symm

/-- A row is listed after a call with the number it had, or it is hidden by the call and gets the next one. -/
theorem order?_call : (l.call c).order? f i = some n ↔
    (∃ j, l.order? f j = some n ∧ follow f j c = some i) ∨ (c = .hide f i ∧ l.contains f i = false ∧ n = l.nextOrder) := by
  cases c with
  | hide g k =>
    simp only [call, order?_hide, follow, Option.some.injEq, exists_eq_right, LedgerCall.hide.injEq]
    split
    · rename_i hnew
      obtain ⟨rfl, rfl, hnot⟩ := hnew
      have hnone : l.order? g k = none := by simpa [contains_eq_isSome] using hnot
      simp [hnone, hnot, eq_comm]
    · rename_i hold
      have hnot : ¬((g = f ∧ k = i) ∧ l.contains f i = false ∧ n = l.nextOrder) := by
        rintro ⟨⟨rfl, rfl⟩, hnot, -⟩
        exact hold ⟨rfl, rfl, hnot⟩
      simp [hnot]
  | reveal g k =>
    simp [call, order?_reveal, follow, and_comm]
  | removeRow g k =>
    simp only [call, order?_removeRow, reduceCtorEq, false_and, or_false]
    by_cases hg : g = f
    · subst hg
      simp [follow_removeRow]
    · simp [follow, hg]
  | clear => simp [call, follow, order?, rows, clear]

theorem Tidy.call (h : l.Tidy) (c : LedgerCall) : (l.call c).Tidy := by
  cases c with
  | hide f i => exact h.mark f i false
  | reveal f i => exact h.mark f i true
  | removeRow f i => exact h.setRows f _
  | clear => exact Tidy.clear l

theorem nextOrder_hide (h : l.contains f i = false) : (l.hide f i).nextOrder = l.nextOrder + 1 := by
  simp [hide, h]

theorem nextOrder_le_call (l : Ledger) (c : LedgerCall) : l.nextOrder ≤ (l.call c).nextOrder := by
  cases c with
  | hide f i =>
    cases h : l.contains f i with
    | true => exact Nat.le_of_eq (congrArg nextOrder (hide_of_listed h)).symm
    | false => exact Nat.le_of_lt (Nat.lt_of_succ_le (nextOrder_hide h).ge)
  | reveal f i => exact Nat.le_refl _
  | removeRow f i => exact Nat.le_refl _
  | clear => exact Nat.le_refl _

/-! ### All calls -/

/-- The ledger after some calls, if it was empty before. -/
def after (calls : List LedgerCall) : Ledger := calls.foldl call empty

theorem after_concat (calls : List LedgerCall) (c : LedgerCall) : after (calls ++ [c]) = (after calls).call c := by
  simp [after]

theorem tidy_after (calls : List LedgerCall) : (after calls).Tidy := by
  induction calls using List.reverseRecOn with
  | nil => exact tidy_empty
  | append_singleton calls c ih =>
    rw [after_concat]
    exact ih.call c

theorem nextOrder_le_append (calls more : List LedgerCall) :
    (after calls).nextOrder ≤ (after (calls ++ more)).nextOrder := by
  induction more using List.reverseRecOn with
  | nil => simp
  | append_singleton more c ih =>
    rw [← List.append_assoc, after_concat]
    exact Nat.le_trans ih (nextOrder_le_call _ c)

/-- The number that was to be given next before a call. -/
def numberAt (calls : List LedgerCall) (t : Nat) : Nat := (after (calls.take t)).nextOrder

theorem numberAt_mono (calls : List LedgerCall) (h : s ≤ t) : numberAt calls s ≤ numberAt calls t := by
  obtain ⟨more, hmore⟩ := List.take_prefix_take_left h
  rw [numberAt, numberAt, ← hmore]
  exact nextOrder_le_append _ more

theorem numberAt_le (calls : List LedgerCall) (t : Nat) : numberAt calls t ≤ (after calls).nextOrder := by
  have hall := nextOrder_le_append (calls.take t) (calls.drop t)
  rwa [List.take_append_drop] at hall

theorem numberAt_length (calls more : List LedgerCall) :
    numberAt (calls ++ more) calls.length = (after calls).nextOrder := by
  rw [numberAt, List.take_left]

theorem numberAt_concat (h : t ≤ calls.length) : numberAt (calls ++ [c]) t = numberAt calls t := by
  rw [numberAt, numberAt, List.take_append_of_le_length h]

/-! ### The call that a listed row goes back to -/

/-- Where the row that a call hides is listed after all calls, unless it was shown or taken away since. -/
def place? (calls : List LedgerCall) (t : Nat) (f : String) : Option Nat :=
  match calls[t]? with
  | some (.hide g j) => if g = f then (calls.drop (t + 1)).foldlM (follow f) j else none
  | _ => none

/-- A call hides the row of a field that is at a place after all calls. -/
def Hides (calls : List LedgerCall) (t : Nat) (f : String) (i : Nat) : Prop := place? calls t f = some i

instance : Decidable (Hides calls t f i) := inferInstanceAs (Decidable (_ = _))

/-- The row has been hidden since a call: no earlier one hides it. -/
def HiddenSince (calls : List LedgerCall) (t : Nat) (f : String) (i : Nat) : Prop :=
  Hides calls t f i ∧ ∀ s < t, ¬Hides calls s f i

instance : Decidable (HiddenSince calls t f i) := inferInstanceAs (Decidable (_ ∧ _))

theorem hides_iff : Hides calls t f i ↔
    ∃ j, calls[t]? = some (.hide f j) ∧ (calls.drop (t + 1)).foldlM (follow f) j = some i := by
  rw [Hides, place?]
  split
  · rename_i g j hcall
    constructor
    · intro h
      obtain ⟨rfl, h⟩ := Option.ite_none_right_eq_some.mp h
      exact ⟨j, hcall, h⟩
    · rintro ⟨j', hj', h⟩
      rw [hcall] at hj'
      cases hj'
      rwa [if_pos rfl]
  · rename_i hother
    refine iff_of_false (by simp) ?_
    rintro ⟨j, hj, -⟩
    exact hother f j hj

theorem Hides.lt_length (h : Hides calls t f i) : t < calls.length := by
  obtain ⟨j, hj, -⟩ := hides_iff.mp h
  exact (List.getElem?_eq_some_iff.mp hj).1

theorem not_hides_nil : ¬Hides [] t f i := fun h => absurd h.lt_length (Nat.not_lt_zero t)

/-- One call hides one row. -/
theorem Hides.unique (hf : Hides calls t f i) (hg : Hides calls t g k) : f = g ∧ i = k := by
  obtain ⟨j, hj, hi⟩ := hides_iff.mp hf
  obtain ⟨j', hj', hk⟩ := hides_iff.mp hg
  rw [hj] at hj'
  cases hj'
  exact ⟨rfl, Option.some.inj (hi.symm.trans hk)⟩

theorem hides_concat : Hides (calls ++ [c]) t f i ↔
    (∃ j, Hides calls t f j ∧ follow f j c = some i) ∨ (c = .hide f i ∧ t = calls.length) := by
  rcases Nat.lt_trichotomy t calls.length with ht | rfl | ht
  · have hdrop : (calls ++ [c]).drop (t + 1) = calls.drop (t + 1) ++ [c] := List.drop_append_of_le_length ht
    simp only [hides_iff, List.getElem?_append_left ht, hdrop, List.foldlM_append, List.foldlM_cons, List.foldlM_nil,
      bind_pure, Option.bind_eq_bind, Option.bind_eq_some_iff, Nat.ne_of_lt ht, and_false, or_false]
    constructor
    · rintro ⟨j, hj, m, hm, hi⟩
      exact ⟨m, ⟨j, hj, hm⟩, hi⟩
    · rintro ⟨m, ⟨j, hj, hm⟩, hi⟩
      exact ⟨j, hj, m, hm, hi⟩
  · simp [hides_iff, eq_comm]
  · have hnone : ∀ j, ¬Hides calls t f j := fun j h => Nat.lt_asymm ht h.lt_length
    have hpast : ¬Hides (calls ++ [c]) t f i := fun h => by
      have hlt := h.lt_length
      rw [List.length_append, List.length_singleton] at hlt
      omega
    simp [hnone, hpast, Nat.ne_of_gt ht]

theorem hiddenSince_concat : HiddenSince (calls ++ [c]) t f i ↔
    (∃ j, HiddenSince calls t f j ∧ follow f j c = some i) ∨
      (c = .hide f i ∧ (∀ s, ¬Hides calls s f i) ∧ t = calls.length) := by
  constructor
  · rintro ⟨hhides, hfirst⟩
    rcases hides_concat.mp hhides with ⟨j, hj, hfollow⟩ | ⟨rfl, rfl⟩
    · exact Or.inl ⟨j, ⟨hj, fun s hs h => hfirst s hs (hides_concat.mpr (Or.inl ⟨j, h, hfollow⟩))⟩, hfollow⟩
    · exact Or.inr ⟨rfl, fun s h => hfirst s h.lt_length (hides_concat.mpr (Or.inl ⟨i, h, rfl⟩)), rfl⟩
  · rintro (⟨j, ⟨hj, hfirst⟩, hfollow⟩ | ⟨rfl, hnone, rfl⟩)
    · refine ⟨hides_concat.mpr (Or.inl ⟨j, hj, hfollow⟩), fun s hs h => ?_⟩
      -- Rows do not come to lie together, so an earlier call that hides the row hid the same one before.
      rcases hides_concat.mp h with ⟨j', hj', hfollow'⟩ | ⟨-, rfl⟩
      · exact hfirst s hs (follow_inj hfollow' hfollow ▸ hj')
      · exact absurd hj.lt_length (Nat.not_lt.mpr (Nat.le_of_lt hs))
    · refine ⟨hides_concat.mpr (Or.inr ⟨rfl, rfl⟩), fun s hs h => ?_⟩
      rcases hides_concat.mp h with ⟨j, hj, hfollow⟩ | ⟨-, rfl⟩
      · exact hnone s (Option.some.inj hfollow ▸ hj)
      · exact Nat.lt_irrefl _ hs

theorem exists_hiddenSince (h : Hides calls s f i) : ∃ t, HiddenSince calls t f i :=
  have hsome : ∃ t, Hides calls t f i := ⟨s, h⟩
  ⟨Nat.find hsome, Nat.find_spec hsome, fun _ hs => Nat.find_min hsome hs⟩

/-! ### The numbers of listed rows -/

/-- The ledger lists the rows that have been hidden since some call, each with the number that was next then. -/
def NumberedBy (l : Ledger) (calls : List LedgerCall) : Prop :=
  ∀ f i n, l.order? f i = some n ↔ ∃ t, HiddenSince calls t f i ∧ n = numberAt calls t

theorem NumberedBy.contains_eq_false_iff (h : l.NumberedBy calls) :
    l.contains f i = false ↔ ∀ s, ¬Hides calls s f i := by
  rw [← Bool.not_eq_true, contains_iff_order?]
  simp only [h f i]
  constructor
  · rintro hnot s hs
    obtain ⟨t, ht⟩ := exists_hiddenSince hs
    exact hnot ⟨_, t, ht, rfl⟩
  · rintro hnot ⟨_, t, ht, -⟩
    exact hnot t ht.1

/-- One call more does the same to the ledger and to its history: a row is followed, or a new one is hidden. -/
theorem NumberedBy.concat (h : (after calls).NumberedBy calls) (c : LedgerCall) :
    (after (calls ++ [c])).NumberedBy (calls ++ [c]) := by
  intro f i n
  rw [after_concat, order?_call, h.contains_eq_false_iff]
  simp only [h f _ n, hiddenSince_concat]
  constructor
  · rintro (⟨j, ⟨t, ht, rfl⟩, hfollow⟩ | ⟨rfl, hnew, rfl⟩)
    · exact ⟨t, Or.inl ⟨j, ht, hfollow⟩, (numberAt_concat (Nat.le_of_lt ht.1.lt_length)).symm⟩
    · exact ⟨calls.length, Or.inr ⟨rfl, hnew, rfl⟩, (numberAt_length ..).symm⟩
  · rintro ⟨t, ⟨j, hj, hfollow⟩ | ⟨rfl, hnew, rfl⟩, rfl⟩
    · exact Or.inl ⟨j, ⟨t, hj, numberAt_concat (Nat.le_of_lt hj.1.lt_length)⟩, hfollow⟩
    · exact Or.inr ⟨rfl, hnew, numberAt_length ..⟩

theorem numberedBy_after (calls : List LedgerCall) : (after calls).NumberedBy calls := by
  induction calls using List.reverseRecOn with
  | nil =>
    have hnone : ∀ t f i, ¬HiddenSince [] t f i := fun t f i h => not_hides_nil h.1
    simp [NumberedBy, hnone, after, empty, order?, rows]
  | append_singleton calls c ih => exact ih.concat c

/-- A call that a row has been hidden since gives its number away. -/
theorem numberAt_lt_succ (h : HiddenSince calls t f i) : numberAt calls t < numberAt calls (t + 1) := by
  induction calls using List.reverseRecOn generalizing i with
  | nil => exact absurd h.1 not_hides_nil
  | append_singleton calls c ih =>
    rcases hiddenSince_concat.mp h with ⟨j, hj, -⟩ | ⟨rfl, hnew, rfl⟩
    · have ht := hj.1.lt_length
      rw [numberAt_concat (Nat.le_of_lt ht), numberAt_concat ht]
      exact ih hj
    · have hall : numberAt (calls ++ [.hide f i]) (calls.length + 1) = ((after calls).hide f i).nextOrder := by
        rw [numberAt, List.take_of_length_le (by simp), after_concat]
        rfl
      rw [numberAt_length, hall, nextOrder_hide ((numberedBy_after calls).contains_eq_false_iff.mpr hnew)]
      exact Nat.lt_succ_self _

theorem numberAt_lt (h : HiddenSince calls s f i) (hst : s < t) : numberAt calls s < numberAt calls t :=
  Nat.lt_of_lt_of_le (numberAt_lt_succ h) (numberAt_mono calls hst)

theorem order?_of_hiddenSince (h : HiddenSince calls t f i) : (after calls).order? f i = some (numberAt calls t) :=
  (numberedBy_after calls f i _).mpr ⟨t, h, rfl⟩

/-- No two rows have the same number. -/
theorem order?_inj (hf : (after calls).order? f i = some n) (hg : (after calls).order? g k = some n) :
    f = g ∧ i = k := by
  obtain ⟨s, hs, rfl⟩ := (numberedBy_after calls f i n).mp hf
  obtain ⟨t, ht, hsame⟩ := (numberedBy_after calls g k _).mp hg
  rcases Nat.lt_trichotomy s t with hlt | rfl | hgt
  · exact absurd hsame (Nat.ne_of_lt (numberAt_lt hs hlt))
  · exact hs.1.unique ht.1
  · exact absurd hsame (Nat.ne_of_gt (numberAt_lt ht hgt))

theorem order?_lt (h : (after calls).order? f i = some n) : n < (after calls).nextOrder := by
  obtain ⟨t, ht, rfl⟩ := (numberedBy_after calls f i n).mp h
  exact Nat.lt_of_lt_of_le (numberAt_lt_succ ht) (numberAt_le calls (t + 1))

/-! ### A row that goes away -/

theorem pairwise_indexes (l : Ledger) (f : String) : (l.indexes f).Pairwise (· < ·) := by
  have hkeys : (l.indexes f).Pairwise fun a b => compare a b = .lt := Std.ExtTreeMap.ordered_keys
  exact hkeys.imp Nat.compare_eq_lt.mp

theorem mem_indexes : i ∈ l.indexes f ↔ l.contains f i = true := by
  rw [indexes, Std.ExtTreeMap.mem_keys, contains, Std.ExtTreeMap.contains_iff_mem]

/-- One ledger is another one after a row of a field went away: its place is given to the row after it, and so on to
    the last, all with their numbers. -/
structure WithoutRow (l' l : Ledger) (f : String) (k : Nat) : Prop where
  nextOrder : l'.nextOrder = l.nextOrder
  before : ∀ i < k, l'.order? f i = l.order? f i
  past : ∀ i, k ≤ i → l'.order? f i = l.order? f (i + 1)
  indexes : l'.indexes f = ((l.indexes f).filter (· ≠ k)).map (moveDown k)
  others : ∀ g, g ≠ f → l'.fields[g]? = l.fields[g]?

theorem moveDown_lt_moveDown (hij : i < j) (hi : i ≠ k) (hj : j ≠ k) : moveDown k i < moveDown k j := by
  rw [moveDown, moveDown]
  split <;> split <;> omega

theorem indexes_removeRow (l : Ledger) (f : String) (k : Nat) :
    (l.removeRow f k).indexes f = ((l.indexes f).filter (· ≠ k)).map (moveDown k) := by
  have hmoved : (((l.indexes f).filter (· ≠ k)).map (moveDown k)).Pairwise (· < ·) := by
    rw [List.pairwise_map, List.pairwise_filter]
    refine (l.pairwise_indexes f).imp fun hlt hi hj => ?_
    exact moveDown_lt_moveDown hlt (by simpa using hi) (by simpa using hj)
  refine ((l.removeRow f k).pairwise_indexes f).eq_of_mem_iff hmoved fun i => ?_
  rw [mem_indexes, contains_eq_isSome, order?_removeRow, if_pos rfl, ← contains_eq_isSome, List.mem_map]
  simp only [List.mem_filter, mem_indexes, decide_eq_true_eq]
  constructor
  · exact fun h => ⟨moveBack k i, ⟨h, moveBack_ne k i⟩, (moveDown_eq_iff (moveBack_ne k i)).mpr rfl⟩
  · rintro ⟨j, ⟨hj, hne⟩, hi⟩
    rwa [← (moveDown_eq_iff hne).mp hi]

theorem withoutRow_removeRow (l : Ledger) (f : String) (k : Nat) : (l.removeRow f k).WithoutRow l f k where
  nextOrder := rfl
  before i hi := by rw [order?_removeRow, if_pos rfl, moveBack, if_pos hi]
  past i hi := by rw [order?_removeRow, if_pos rfl, moveBack, if_neg (Nat.not_lt.mpr hi)]
  indexes := l.indexes_removeRow f k
  others g hg := by
    rw [removeRow, setRows]
    dsimp only
    split <;> simp [Std.ExtTreeMap.getElem?_erase, Std.ExtTreeMap.getElem?_insert, hg.symm]

end Ledger

/-- After any calls, the ledger lists no field without rows; it lists the rows that have been hidden since some call,
    each with the number that was to be given next then. No number is given twice or goes down, of two rows the one
    hidden earlier has the smaller one, a row taken away leaves its place to those after it, and to hide a row that is
    listed changes nothing. -/
theorem ledger_keeps_order (calls : List LedgerCall) :
    let l := Ledger.after calls
    l.Tidy ∧
      (∀ f i n, l.order? f i = some n ↔
        ∃ t, Ledger.HiddenSince calls t f i ∧ n = (Ledger.after (calls.take t)).nextOrder) ∧
      (∀ f i g k n, l.order? f i = some n → l.order? g k = some n → f = g ∧ i = k) ∧
      (∀ f i n, l.order? f i = some n → n < l.nextOrder) ∧
      (∀ more, l.nextOrder ≤ (Ledger.after (calls ++ more)).nextOrder) ∧
      (∀ f k, (l.removeRow f k).WithoutRow l f k) ∧
      (∀ f i, l.contains f i = true → l.hide f i = l) ∧
      ∀ s t f i g k, Ledger.HiddenSince calls s f i → Ledger.HiddenSince calls t g k → s < t →
        ∃ m n, l.order? f i = some m ∧ l.order? g k = some n ∧ m < n := by
  refine ⟨Ledger.tidy_after calls, Ledger.numberedBy_after calls, fun _ _ _ _ _ => Ledger.order?_inj,
    fun _ _ _ => Ledger.order?_lt, Ledger.nextOrder_le_append calls, Ledger.withoutRow_removeRow _,
    fun _ _ => Ledger.hide_of_listed, fun s t f i g k hs ht hst => ?_⟩
  exact ⟨_, _, Ledger.order?_of_hiddenSince hs, Ledger.order?_of_hiddenSince ht, Ledger.numberAt_lt hs hst⟩

/-! ### Hidden seats that move down -/

/-- Seats are hidden after the ledger was cleared, one of them twice, and the rows before them go away. -/
def seatCalls : List LedgerCall :=
  [.hide "name" 0, .clear, .hide "seat" 2, .hide "meal" 0, .hide "seat" 4, .hide "seat" 2, .removeRow "seat" 1,
    .hide "seat" 0, .removeRow "seat" 2]

theorem ledger_keeps_order_seatsMoved :
    let l := Ledger.after seatCalls
    l.indexes "seat" = [0, 1, 2] ∧ Ledger.HiddenSince seatCalls 2 "seat" 1 ∧ Ledger.HiddenSince seatCalls 4 "seat" 2 ∧
      l.order? "seat" 1 = some 1 ∧ (∃ m n, l.order? "seat" 1 = some m ∧ l.order? "seat" 2 = some n ∧ m < n) ∧
      (l.removeRow "seat" 1).WithoutRow l "seat" 1 := by
  obtain ⟨-, hnumbers, -, -, -, hremoved, -, hordered⟩ := ledger_keeps_order seatCalls
  have hsecond : Ledger.HiddenSince seatCalls 2 "seat" 1 := by decide +kernel
  have hthird : Ledger.HiddenSince seatCalls 4 "seat" 2 := by decide +kernel
  refine ⟨by decide +kernel, hsecond, hthird, (hnumbers "seat" 1 1).mpr ⟨2, hsecond, by decide +kernel⟩,
    hordered 2 4 "seat" 1 "seat" 2 hsecond hthird (by decide), hremoved "seat" 1⟩

end FormSession
