import FormSession.Proofs.History
import Mathlib.Control.Monad.Basic

/-! # Work that is put off

The receiver of events and the passes hand over edits that are to be written later. Each of them is passed to
the store once, in the order they were handed over, or still waits, or was given up (`deferred_accounted`).
Edits are given up where a classification is asked for while a pass is being told: those asked for with the
same event, and those left of the running batch. -/

namespace FormSession

/-! ### What was handed over, written and given up -/

namespace Deed

/-- The edit that the receiver hands over. -/
def asked? : Deed → Option FormEdit
  | asked e => some e
  | _ => none

/-- The edit that the receiver or a pass hands over. -/
def handed? : Deed → Option FormEdit
  | asked e | corrected e => some e
  | _ => none

/-- The edit that is passed to the store. -/
def written? : Deed → Option FormEdit
  | written e => some e
  | _ => none

/-- The edit that is given up. -/
def lost? : Deed → Option FormEdit
  | lost e => some e
  | _ => none

variable {read : Deed → Option FormEdit} {deed : FormEdit → Deed}

/-- What finds the edit of each deed of a kind finds all of them, in order. -/
theorem filterMap_map_some (finds : ∀ e, read (deed e) = some e) (es : List FormEdit) :
    (es.map deed).filterMap read = es := by
  simp [List.filterMap_map, finds]

/-- What passes over the deeds of a kind finds nothing among them. -/
theorem filterMap_map_none (skips : ∀ e, read (deed e) = none) (es : List FormEdit) :
    (es.map deed).filterMap read = [] := by
  simp [List.filterMap_map, skips]

theorem filterMap_ofPass (skips : ∀ e, read (corrected e) = none) (p : Pass) : (ofPass p).filterMap read = [] := by
  rw [ofPass]
  split
  · rfl
  · exact filterMap_map_none skips [p.corrections]

end Deed

/-- The edits that wait, in order. -/
def TaskQueue.edits (q : TaskQueue Task) : List FormEdit := Task.edits (q.waiting.map (·.task))

/-- Every edit handed over was passed to the store, or is left, or was given up; and those that were passed or
    are left come in the order in which they were handed over. -/
structure Accounted (deeds : List Deed) (left : List FormEdit) : Prop where
  ordered : (deeds.filterMap Deed.written? ++ left).Sublist (deeds.filterMap Deed.handed?)
  complete : (deeds.filterMap Deed.written? ++ left ++ deeds.filterMap Deed.lost?).Perm (deeds.filterMap Deed.handed?)

namespace Accounted
variable {deeds ds : List Deed} {left left' kept gone : List FormEdit} {e : FormEdit}

/-- An account goes on where what was left and what comes in is what is passed, left and given up. -/
theorem extend (h : Accounted deeds left)
    (ordered : (ds.filterMap Deed.written? ++ left').Sublist (left ++ ds.filterMap Deed.handed?))
    (complete : (ds.filterMap Deed.written? ++ left' ++ ds.filterMap Deed.lost?).Perm
      (left ++ ds.filterMap Deed.handed?)) :
    Accounted (deeds ++ ds) left' where
  ordered := by
    rw [List.filterMap_append, List.filterMap_append, List.append_assoc]
    have hlater : (deeds.filterMap Deed.written? ++ (ds.filterMap Deed.written? ++ left')).Sublist
        (deeds.filterMap Deed.written? ++ left ++ ds.filterMap Deed.handed?) := by
      rw [List.append_assoc _ left]
      exact ordered.append_left _
    exact hlater.trans (h.ordered.append_right _)
  complete := by
    rw [List.perm_iff_count]
    intro e
    have hbefore := h.complete.count_eq e
    have hlater := complete.count_eq e
    simp only [List.filterMap_append, List.count_append] at hbefore hlater ⊢
    omega

theorem hand (h : Accounted deeds left) (es : List FormEdit) {deed : FormEdit → Deed}
    (hdeed : deed = .asked ∨ deed = .corrected) : Accounted (deeds ++ es.map deed) (left ++ es) := by
  have handed : (es.map deed).filterMap Deed.handed? = es := by
    rcases hdeed with rfl | rfl <;> exact Deed.filterMap_map_some (fun _ => rfl) es
  have written : (es.map deed).filterMap Deed.written? = [] := by
    rcases hdeed with rfl | rfl <;> exact Deed.filterMap_map_none (fun _ => rfl) es
  have lost : (es.map deed).filterMap Deed.lost? = [] := by
    rcases hdeed with rfl | rfl <;> exact Deed.filterMap_map_none (fun _ => rfl) es
  refine h.extend ?_ ?_
  · rw [handed, written]
    exact .refl _
  · rw [handed, written, lost, List.append_nil]
    exact .refl _

theorem write (h : Accounted deeds (e :: left)) : Accounted (deeds ++ [.written e]) left := by
  refine h.extend ?_ ?_
  · exact (List.append_nil (e :: left)).symm ▸ .refl _
  · exact .refl _

theorem lose (h : Accounted deeds left) (hkept : kept.Sublist left) (hgone : (kept ++ gone).Perm left) :
    Accounted (deeds ++ gone.map .lost) kept := by
  have handed : (gone.map Deed.lost).filterMap Deed.handed? = [] := Deed.filterMap_map_none (fun _ => rfl) gone
  have written : (gone.map Deed.lost).filterMap Deed.written? = [] := Deed.filterMap_map_none (fun _ => rfl) gone
  have lost : (gone.map Deed.lost).filterMap Deed.lost? = gone := Deed.filterMap_map_some (fun _ => rfl) gone
  refine h.extend ?_ ?_
  · rwa [handed, written, List.nil_append, List.append_nil]
  · rwa [handed, written, lost, List.nil_append, List.append_nil]

theorem clear (h : Accounted deeds left) : Accounted (deeds ++ [.cleared]) left := by
  refine h.extend ?_ ?_
  · exact (List.append_nil left).symm ▸ .refl _
  · exact .refl _

/-- Nothing was given up exactly if what was passed and what is left are all the edits handed over, in their
    order. -/
theorem nothing_lost_iff (h : Accounted deeds left) :
    deeds.filterMap Deed.handed? = deeds.filterMap Deed.written? ++ left ↔ deeds.filterMap Deed.lost? = [] := by
  have hlength := h.complete.length_eq
  rw [List.length_append] at hlength
  constructor
  · intro heq
    rw [heq] at hlength
    exact List.eq_nil_of_length_eq_zero (by omega)
  · intro hlost
    rw [hlost, List.length_nil, Nat.add_zero] at hlength
    exact (h.ordered.eq_of_length hlength).symm

end Accounted

/-! ### The queue -/

namespace TaskQueue

/-- What waits under a key is a classification. -/
def KeysClassify (q : TaskQueue Task) : Prop := ∀ x ∈ q.waiting, x.key ≠ none → x.task = .classify

variable {q : TaskQueue Task}

theorem edits_add (q : TaskQueue Task) (task : Task) : (q.add task).edits = q.edits ++ Task.edits [task] := by
  simp [edits, add, Task.edits]

theorem KeysClassify.add (h : q.KeysClassify) (task : Task) : (q.add task).KeysClassify := by
  intro x hx hkey
  rcases List.mem_append.mp hx with hx | hx
  · exact h x hx hkey
  · rw [List.mem_singleton.mp hx] at hkey
    exact absurd rfl hkey

theorem mem_replaceKeyed {key : String} {task : Task} {entries : List (QueueEntry Task)} {x : QueueEntry Task}
    (h : x ∈ replaceKeyed key task entries) : x ∈ entries ∨ x.task = task := by
  induction entries with
  | nil => exact Or.inl h
  | cons y rest ih =>
    rw [replaceKeyed] at h
    split at h
    · rcases List.mem_cons.mp h with rfl | h
      · exact Or.inr rfl
      · exact Or.inl (List.mem_cons_of_mem _ h)
    · rcases List.mem_cons.mp h with rfl | h
      · exact Or.inl List.mem_cons_self
      · exact (ih h).imp_left (List.mem_cons_of_mem _)

theorem edits_replaceKeyed {entries : List (QueueEntry Task)} (h : ∀ x ∈ entries, x.key ≠ none → x.task = .classify)
    (key : String) :
    Task.edits ((replaceKeyed key .classify entries).map (·.task)) = Task.edits (entries.map (·.task)) := by
  induction entries with
  | nil => rfl
  | cons x rest ih =>
    obtain ⟨hx, hrest⟩ := List.forall_mem_cons.mp h
    rw [replaceKeyed]
    split
    · rename_i hkey
      have htask : x.task = .classify := hx (by simp [hkey])
      simp [Task.edits, htask]
    · have ih := ih hrest
      simp only [Task.edits, List.map_cons, List.filterMap_cons] at ih ⊢
      rw [ih]

theorem edits_addKeyed (h : q.KeysClassify) (key : String) : (q.addKeyed key .classify).edits = q.edits := by
  rw [addKeyed]
  split
  · exact edits_replaceKeyed h key
  · simp [edits, Task.edits, Task.edit?]

theorem KeysClassify.addKeyed (h : q.KeysClassify) (key : String) : (q.addKeyed key .classify).KeysClassify := by
  intro x hx hkey
  rw [TaskQueue.addKeyed] at hx
  split at hx
  · rcases mem_replaceKeyed hx with hx | hx
    · exact h x hx hkey
    · exact hx
  · rcases List.mem_append.mp hx with hx | hx
    · exact h x hx hkey
    · rw [List.mem_singleton.mp hx]

theorem addAll (h : q.KeysClassify) (es : List FormEdit) :
    (es.foldl (fun q e => q.add (.write e)) q).KeysClassify ∧
      (es.foldl (fun q e => q.add (.write e)) q).edits = q.edits ++ es := by
  induction es generalizing q with
  | nil => exact ⟨h, (List.append_nil _).symm⟩
  | cons e rest ih =>
    obtain ⟨hkeys, hedits⟩ := ih (h.add (.write e))
    refine ⟨hkeys, ?_⟩
    rw [List.foldl_cons, hedits, edits_add, List.append_assoc]
    rfl

/-- What the receiver asks for with an event comes to wait after what waits already. -/
theorem accepted (h : q.KeysClassify) (requests : List Request) : (q.accept requests).KeysClassify ∧
    (q.accept requests).edits = q.edits ++ requests.filterMap Request.edit? := by
  obtain ⟨hkeys, hedits⟩ := addAll h (requests.filterMap Request.edit?)
  rw [accept]
  split
  · exact ⟨hkeys.addKeyed _, (edits_addKeyed hkeys _).trans hedits⟩
  · exact ⟨hkeys, hedits⟩

theorem queued (h : q.KeysClassify) (t : Told) : (t.queued q).KeysClassify ∧ (t.queued q).edits = q.edits ++ t.edits := by
  induction t generalizing q with
  | nil => exact ⟨h, (List.append_nil _).symm⟩
  | cons x rest ih =>
    obtain ⟨hkeys, hedits⟩ := accepted h x.2
    obtain ⟨hkeys', hedits'⟩ := ih hkeys
    refine ⟨hkeys', hedits'.trans ?_⟩
    rw [hedits, List.append_assoc]
    rfl

theorem taken {batch : Batch Task} {queue : TaskQueue Task} (h : q.takeBatch? = some (batch, queue)) :
    Task.edits batch.tasks = q.edits ∧ queue.KeysClassify ∧ queue.edits = [] := by
  rw [takeBatch?] at h
  split at h
  · cases h
  · cases h
    exact ⟨rfl, by simp [KeysClassify], rfl⟩

end TaskQueue

theorem Told.edits_append (t u : Told) : Told.edits (t ++ u) = t.edits ++ u.edits := List.flatMap_append

/-! ### Turns -/

/-- The edits that the receiver asks for at a moment. -/
def Moment.edits : Moment → List FormEdit
  | .effect (.told _ _ requests) => requests.filterMap Request.edit?
  | _ => []

/-- Waiting work may be given up at the moment: a classification is asked for during a pass, or all that waits is
    dropped. -/
def Moment.givesUp : Moment → Bool
  | .effect (.told _ .applying requests) => decide (.classify ∈ requests)
  | .dropped => true
  | _ => false

section Turns
variable {η : Type} [EditHook η] {form : Form} {b b' : List Task} {s s' : Session η} {ms : List Moment} {ds : List Deed}

/-- The edits that were handed over are accounted for, those of the running batch being left as those that wait. -/
structure Deferred (b : List Task) (s : Session η) (deeds : List Deed) : Prop where
  keys : s.queue.KeysClassify
  accounted : Accounted deeds (Task.edits b ++ s.queue.edits)

variable {c : StoreChange} {deeds : List Deed}

omit [EditHook η] in
theorem Serves.accounted {left : List FormEdit} (serves : Serves c b b' ds)
    (h : Accounted deeds (Task.edits b ++ left)) : Accounted (deeds ++ ds) (Task.edits b' ++ left) := by
  cases serves with
  | host => simpa using h
  | task e => exact h.write

omit [EditHook η] in
theorem Deferred.told {t : Told} (h : Deferred b s deeds) (hq : s'.queue = t.queued s.queue) :
    Deferred b s' (deeds ++ Deed.ofTold t) := by
  obtain ⟨hkeys, hedits⟩ := TaskQueue.queued h.keys t
  refine ⟨hq ▸ hkeys, ?_⟩
  rw [hq, hedits, ← List.append_assoc]
  exact h.accounted.hand _ (Or.inl rfl)

omit [EditHook η] in
theorem Deferred.corrected {p : Pass} (h : Deferred b s deeds) (hq : s'.queue = s.queue.corrected p) :
    Deferred b s' (deeds ++ Deed.ofPass p) := by
  rw [TaskQueue.corrected] at hq
  rw [Deed.ofPass]
  split at hq
  · rename_i hnone
    rw [if_pos hnone, List.append_nil]
    exact ⟨hq ▸ h.keys, hq ▸ h.accounted⟩
  · rename_i hsome
    rw [if_neg hsome]
    refine ⟨hq ▸ h.keys.add _, ?_⟩
    rw [hq, TaskQueue.edits_add, ← List.append_assoc]
    exact h.accounted.hand [p.corrections] (Or.inr rfl)

theorem Turn.deferred (h : Turn form b s ms ds b' s') (hd : Deferred b s deeds) : Deferred b' s' (deeds ++ ds) := by
  have same : ∀ {s' : Session η}, s'.queue = s.queue → Deferred b s' (deeds ++ []) := fun hq => by
    rw [List.append_nil]
    exact ⟨hq ▸ hd.keys, hq ▸ hd.accounted⟩
  cases h with
  -- The first task of the batch is written or the host writes; what the events bring then comes to wait.
  | unchanged c change serves => exact ⟨hd.keys, serves.accounted hd.accounted⟩
  | changed c change serves =>
    have hserved : Deferred b' s (deeds ++ _) := ⟨hd.keys, serves.accounted hd.accounted⟩
    rw [← List.append_assoc]
    exact hserved.told rfl
  | seeded => exact hd.told rfl
  | entered => exact hd.told rfl
  | rebuilt => exact hd.told rfl
  | @passed _ _ t m force =>
    have htold : Deferred b { s with queue := t.queued s.queue } (deeds ++ Deed.ofTold t) := hd.told rfl
    rw [← List.append_assoc]
    exact htold.corrected rfl
  | @refused _ _ t last rest m force =>
    -- What is asked for with the last event comes to wait like the rest, and is then given up.
    obtain ⟨hkeys, hedits⟩ := TaskQueue.queued hd.keys t
    have hhanded := hd.accounted.hand (Told.edits (t ++ [last])) (Or.inl rfl)
    refine ⟨hkeys, ?_⟩
    rw [← List.append_assoc]
    show Accounted _ (t.queued s.queue).edits
    rw [hedits]
    rw [Deed.ofTold]
    rw [Told.edits_append] at hhanded ⊢
    refine hhanded.lose ((List.sublist_append_right ..).append (List.sublist_append_left ..)) ?_
    have hmove : (s.queue.edits ++ t.edits ++ Told.edits [last] ++ Task.edits b).Perm
        (Task.edits b ++ (s.queue.edits ++ t.edits ++ Told.edits [last])) := List.perm_append_comm
    simpa only [List.append_assoc] using hmove
  | began =>
    rw [List.append_nil]
    exact ⟨hd.keys, hd.accounted⟩
  | cleared => exact ⟨hd.keys, hd.accounted.clear⟩
  | displayed => exact same rfl
  | took taken =>
    obtain ⟨htasks, hkeys, hnone⟩ := TaskQueue.taken taken
    refine ⟨hkeys, ?_⟩
    rw [htasks, hnone, List.append_nil, List.append_nil]
    exact hd.accounted
  | dropped taken =>
    obtain ⟨htasks, -, -⟩ := TaskQueue.taken taken
    refine ⟨fun x hx => by simp [TaskQueue.clear] at hx, ?_⟩
    rw [htasks]
    exact hd.accounted.lose (List.nil_sublist _) (.refl _)
  | committed => exact same rfl

/-! ### The trace -/

omit [EditHook η] in
theorem Told.edits_moments (t : Told) (phase : Phase) : (t.moments phase).flatMap Moment.edits = t.edits := by
  simp [Told.moments, Told.edits, List.flatMap_map, Moment.edits]

omit [EditHook η] in
theorem Session.edits_resolvedAt (s : Session η) (m : Classification) (force : Bool) :
    (s.resolvedAt form m force).flatMap Moment.edits = [] := by
  simp [Session.resolvedAt, List.flatMap_map, Moment.edits]

omit [EditHook η] in
theorem Serves.only_writes (serves : Serves c b b' ds) : ds.filterMap Deed.asked? = [] ∧ ds.filterMap Deed.lost? = [] := by
  cases serves <;> exact ⟨rfl, rfl⟩

theorem Turn.asked (h : Turn form b s ms ds b' s') : ds.filterMap Deed.asked? = ms.flatMap Moment.edits := by
  have found : ∀ t : Told, (Deed.ofTold t).filterMap Deed.asked? = t.edits := fun t =>
    Deed.filterMap_map_some (fun _ => rfl) t.edits
  cases h with
  | unchanged c change serves => exact serves.only_writes.1
  | changed c change serves =>
    rw [List.filterMap_append, serves.only_writes.1, found, List.flatMap_cons, Told.edits_moments]
    rfl
  | seeded => rw [found, Told.edits_moments]
  | entered => rw [found, Told.edits_moments]
  | rebuilt => rw [found, Told.edits_moments]
  | passed =>
    rw [List.filterMap_append, found, Deed.filterMap_ofPass fun _ => rfl, List.append_nil, List.flatMap_append,
      Session.edits_resolvedAt, Told.edits_moments, List.nil_append]
  | refused =>
    rw [List.filterMap_append, found, Deed.filterMap_map_none fun _ => rfl, List.append_nil, List.flatMap_append,
      Session.edits_resolvedAt, Told.edits_moments, List.nil_append]
  | began => rfl
  | cleared => rfl
  | displayed => rfl
  | took => rfl
  | dropped => exact Deed.filterMap_map_none (fun _ => rfl) _
  | committed => rfl

/-- In a turn in which no classification is asked for during a pass, and nothing is dropped, no edit is given up. -/
theorem Turn.nothing_lost (h : Turn form b s ms ds b' s') (hms : ∀ m ∈ ms, m.givesUp = false) :
    ds.filterMap Deed.lost? = [] := by
  have told : ∀ t : Told, (Deed.ofTold t).filterMap Deed.lost? = [] := fun t =>
    Deed.filterMap_map_none (fun _ => rfl) t.edits
  cases h with
  | unchanged c change serves => exact serves.only_writes.2
  | changed c change serves => rw [List.filterMap_append, serves.only_writes.2, told, List.append_nil]
  | seeded => exact told _
  | entered => exact told _
  | rebuilt => exact told _
  | passed => rw [List.filterMap_append, told, Deed.filterMap_ofPass fun _ => rfl, List.append_nil]
  | @refused _ _ t last rest m force told accepted recursion =>
    have hlast : Moment.givesUp (.effect (.told last.1 .applying last.2)) = false :=
      hms _ (List.mem_append_right _ (by simp [Told.moments]))
    simp [Moment.givesUp, recursion] at hlast
  | began => rfl
  | cleared => rfl
  | displayed => rfl
  | took => rfl
  | dropped => cases hms .dropped List.mem_cons_self
  | committed => rfl

/-! ### Courses -/

variable {trace : List Moment} {store : Store η}

theorem Course.deferred (h : Course form (.new form store) trace deeds s) : Deferred [] s deeds :=
  h.keep (P := fun b s _ deeds => Deferred b s deeds) (fun ht _ _ hd => ht.deferred hd)
    (fun _ hd => ⟨hd.keys, hd.accounted⟩)
    ⟨by simp [Session.new, TaskQueue.KeysClassify, TaskQueue.empty], ⟨.refl _, .refl _⟩⟩

theorem Course.asked (h : Course form (.new form store) trace deeds s) :
    deeds.filterMap Deed.asked? = trace.flatMap Moment.edits :=
  h.keep (P := fun _ _ trace deeds => deeds.filterMap Deed.asked? = trace.flatMap Moment.edits)
    (fun ht _ _ hd => by rw [List.filterMap_append, List.flatMap_append, hd, ht.asked]) (fun _ hd => hd) rfl

theorem Course.nothing_lost (h : Course form (.new form store) trace deeds s) (hms : ∀ m ∈ trace, m.givesUp = false) :
    deeds.filterMap Deed.lost? = [] := by
  refine h.keep (P := fun _ _ trace deeds => (∀ m ∈ trace, m.givesUp = false) → deeds.filterMap Deed.lost? = [])
    (fun ht trace deeds hd hms => ?_) (fun _ hd => hd) (fun _ => rfl) hms
  have hbefore := hd fun m hm => hms m (List.mem_append_left _ hm)
  have hturn := ht.nothing_lost fun m hm => hms m (List.mem_append_right _ hm)
  rw [List.filterMap_append, hbefore, hturn, List.append_nil]

end Turns

/-! ### A batch that is given up -/

/-- A receiver that asks for the next item of a script with each event. -/
structure ScriptedSink where
  script : List (List Request)

instance : Sink ScriptedSink where
  receive s _ _ := (s.script.headD [], ⟨s.script.tail⟩)

/-- A form in which a field is shown while another one is filled. -/
def relayForm : Form where
  schema := { Schema.empty with steps := [⟨"s", ["x", "y"]⟩] }
  valid := by decide
  classify values := (∅ : Classification).insert "y" (.byRow ((values.of "x").map (· ≠ "")))

/-- The first field is not filled yet, and the second one is. -/
def relayStore : Store Empty :=
  .ofCommitted (((∅ : FieldValues).insert "x" [""]).insert "y" ["q"])

/-- The write that shows the second field. -/
def fillX : FormEdit := (∅ : FormEdit).insert "x" [.write "a"]

/-- A write to a field that nothing depends on. -/
def fillZ : FormEdit := (∅ : FormEdit).insert "z" [.write "b"]

/-- The start hides a field, and two writes are asked for when it has settled. -/
def relayStarted : Except SessionError Reply × Run Empty ScriptedSink :=
  Operation.start.perform relayForm (.new relayForm relayStore) ⟨[[], [.write fillX, .write fillZ]]⟩

/-- The first write shows the field, and a classification is asked for with that. -/
def relayFlushed : Except SessionError Reply × Run Empty ScriptedSink :=
  Operation.flush.perform relayForm relayStarted.2.session ⟨[[.classify]]⟩

end FormSession
