import FormSession.FieldRules
import FormSession.Visibility.Ledger

/-! # Visibility passes

A pass compares a classification with what was last applied, and tells for each displayed field which
rows to show and which to hide. A field whose verdict is the one last applied is passed over, and so is a
row that is shown or hidden already; a forced pass passes over nothing. Showing a row that holds the
sentinel for not applicable calls for its default, and hiding a row that was not known before may call
for the sentinel: these corrections are told apart from the rows to show and hide, and are applied later. -/

namespace FormSession

/-- What a pass looks up. -/
structure PassContext where
  active : NameSet
  values : String → List String
  rules : FieldRules
  /-- The number of rows shown for a field, if it belongs to a displayed group. -/
  rendered : String → Option Nat

/-- The rows of a field to show and to hide. -/
structure FieldChange where
  field : String
  shown : List Nat
  hidden : List Nat
  deriving DecidableEq, Repr

/-- What a pass calls for. -/
structure Pass where
  /-- The fields with rows to show or to hide, in ascending order of their names. -/
  queue : List FieldChange
  /-- Values to write once all of the queue is told. -/
  corrections : FormEdit

namespace Pass

/-- The number of rows that a pass shows. -/
def shownCount (p : Pass) : Nat :=
  p.queue.foldl (fun n change => n + change.shown.length) 0

/-- The number of rows that a pass hides. -/
def hiddenCount (p : Pass) : Nat :=
  p.queue.foldl (fun n change => n + change.hidden.length) 0

end Pass

/-! ### One field -/

/-- What a pass finds for one field. -/
structure Resolution where
  field : String
  /-- The number of values of the field. -/
  held : Nat
  vector : List Bool
  /-- The rows to show or to hide, ascending. -/
  changes : List (Nat × Bool)
  corrections : List (Nat × String)

namespace Resolution

/-- The rows to show or to hide: those whose visibility differs from before, or all of them. -/
def changesOf (force : Bool) (previous vector : List Bool) : List (Nat × Bool) :=
  vector.zipIdx.filterMap fun (visible, i) =>
    if force || previous[i]? != some visible then some (i, visible) else none

/-- The value that a row needs when it is shown or hidden; `known` rows were known before. -/
def correction? (rules : FieldRules) (field : String) (values : List String) (known : Nat) (index : Nat)
    (visible : Bool) : Option String :=
  let spec := rules.spec field
  if visible then
    if values[index]? = some rules.naValue ∧ spec.default ≠ rules.naValue then some spec.default else none
  else if spec.na.isApplicable ∧ known ≤ index ∧ values[index]? ≠ some rules.naValue then some rules.naValue
  else none

/-- What a pass finds for a field with the given verdict, when `previous` was applied to it before. -/
def resolve (cx : PassContext) (force : Bool) (previous : List Bool) (field : String) (v : Verdict) :
    Resolution :=
  let values := cx.values field
  let vector := v.decided (cx.rendered field) values.length
  let changes := changesOf force previous vector
  { field, held := values.length, vector, changes
    corrections := changes.filterMap fun (i, visible) =>
      (correction? cx.rules field values previous.length i visible).map (i, ·) }

/-- What is told of a field that was resolved. -/
def toChange (r : Resolution) : FieldChange where
  field := r.field
  shown := (r.changes.filter (·.2)).map (·.1)
  hidden := (r.changes.filter (!·.2)).map (·.1)

end Resolution

/-! ### All fields -/

/-- What the display was last told: the classification applied last, the visibility of each row of each
    field, and the hidden rows. -/
structure Visibility where
  cache : Classification
  applied : NameMap (List Bool)
  ledger : Ledger
  deriving DecidableEq

namespace Visibility

/-- Nothing is known of the display. -/
def empty : Visibility :=
  ⟨∅, ∅, .empty⟩

/-- The visibility last applied to the rows of a field. -/
def appliedRows (v : Visibility) (field : String) : List Bool :=
  v.applied.getD field []

/-- The verdicts that a pass has to resolve: those of displayed fields that are not the ones applied last,
    or all of them. -/
def unsettled (v : Visibility) (cx : PassContext) (force : Bool) (m : Classification) :
    List (String × Verdict) :=
  m.toList.filter fun (field, verdict) =>
    cx.active.contains field && (force || v.cache[field]? != some verdict)

/-- The fields that a pass resolves, in ascending order. -/
def resolutions (v : Visibility) (cx : PassContext) (force : Bool) (m : Classification) :
    List Resolution :=
  (v.unsettled cx force m).map fun (field, verdict) =>
    Resolution.resolve cx force (v.appliedRows field) field verdict

/-- Takes over what a pass found for a field: its rows are applied, and those shown or hidden are marked. -/
def settle (v : Visibility) (r : Resolution) : Visibility :=
  { v with
    applied := v.applied.insert r.field r.vector
    ledger := r.changes.foldl (fun l (i, visible) => l.mark r.field i visible) v.ledger }

/-- A pass: what it calls for, and what the display was told after it. -/
def pass (v : Visibility) (cx : PassContext) (force : Bool) (m : Classification) : Pass × Visibility :=
  let found := v.resolutions cx force m
  ({ queue := (found.filter (!·.changes.isEmpty)).map (·.toChange)
     corrections := found.foldl (fun e r =>
       if r.corrections.isEmpty then e else e.insert r.field (FieldEdit.writeEach [] r.corrections)) ∅ },
    { found.foldl settle v with cache := m })

/-! ### Between passes -/

/-- Forgets the verdicts last applied to some fields, so that the next pass resolves them again. -/
def invalidate (v : Visibility) (fields : List String) : Visibility :=
  { v with cache := v.cache.filter fun field _ => !fields.contains field }

/-- Forgets the verdicts and the visibility last applied to some fields, so that the next pass takes all
    their rows as new. Their hidden rows stay listed. -/
def forget (v : Visibility) (fields : List String) : Visibility :=
  { v.invalidate fields with applied := v.applied.filter fun field _ => !fields.contains field }

/-- Follows the removal of a row of a field: the rows after it move down by one. -/
def removeRow (v : Visibility) (field : String) (index : Nat) : Visibility :=
  { v with
    applied := v.applied.modify field (·.eraseIdx index)
    ledger := v.ledger.removeRow field index }

/-- The hidden rows that are to be reset: those of displayed fields that are not retained, as far as
    the fields hold such rows. -/
def resettable (v : Visibility) (active : NameSet) (values : String → List String) (registry : Registry) :
    ResetRequest :=
  v.ledger.fields.filterMap fun field rows =>
    if active.contains field && !(registry.spec field).retain then
      match rows.keys.filter (· < (values field).length) with
      | [] => none
      | held => some held
    else none

/-- Starts a new list of hidden rows. -/
def clearHidden (v : Visibility) : Visibility :=
  { v with ledger := v.ledger.clear }

/-- Forgets all that was told; the numbers of hidden rows go on. -/
def resetTracking (v : Visibility) : Visibility :=
  ⟨∅, ∅, v.ledger.clear⟩

end Visibility

end FormSession
