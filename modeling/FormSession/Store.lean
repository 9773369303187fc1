import FormSession.FormEdit
import FormSession.Document.Basic
import FormSession.Text.Quoted

/-! # The value store

The store of a form holds the values of each field in two layers: what was committed, and what was staged
since. A staged list of values hides the committed one of the same field. An edit goes through the hooks
of the store, is reduced to what changes the values, and is staged and published as an update;
`commit` moves the staged layer into the committed one, and `revert` drops it. -/

namespace FormSession

/-- The values by field. -/
abbrev FieldValues := NameMap (List String)

namespace FieldValues

/-- The values of a field; a field without an entry has none. -/
def of (data : FieldValues) (field : String) : List String :=
  data.getD field []

/-- The fields that have values. -/
def filled (data : FieldValues) : FieldValues :=
  data.filter fun _ values => !values.isEmpty

/-- The values that a document writes. -/
def ofDoc? : Doc → Option FieldValues :=
  Doc.map? (Doc.list? Doc.text?)

/-- The values in one line. -/
def summary (data : FieldValues) : String :=
  Text.accountOfEntries (data.toList.map fun (field, values) => (field, Text.account (values.map Text.quote)))

end FieldValues

/-- A hook may revise an edit before it reaches the store, and may change itself at that. -/
class EditHook (η : Type) where
  revise : η → FormEdit → FormEdit × η

/-- Runs hooks in order, each on what the one before left. -/
def runHooks {η : Type} [EditHook η] : List η → FormEdit → FormEdit × List η
  | [], e => (e, [])
  | h :: rest, e =>
    let (e, h) := EditHook.revise h e
    let (e, rest) := runHooks rest e
    (e, h :: rest)

/-- A published change of the values: the version it leads to, and what changed. -/
structure Update where
  version : Nat
  edit : FormEdit
  deriving DecidableEq

/-- A subscription to the updates of a store. It ends when its holder lets it go. -/
structure Subscription where
  id : Nat
  held : Bool
  deriving DecidableEq, Repr

/-- A store of values, with the hooks of kind `η` that revise its edits. -/
structure Store (η : Type) where
  committed : FieldValues
  staged : FieldValues
  /-- The number of updates published so far. -/
  version : Nat
  hooks : List η
  /-- The subscriptions in order, those let go since the last update included. -/
  subscriptions : List Subscription
  /-- The number of subscriptions made so far. -/
  subscribed : Nat

namespace Store

variable {η : Type}

/-- The store in which nothing is staged. -/
def ofCommitted (data : FieldValues) : Store η :=
  ⟨data, ∅, 0, [], [], 0⟩

/-! ### Reading -/

/-- The merged view: what a commit would leave. -/
def view (s : Store η) : FieldValues :=
  s.committed ∪ s.staged

/-- The values of a field: the staged ones, or else the committed ones. -/
def values (s : Store η) (field : String) : List String :=
  s.staged.getD field (s.committed.of field)

theorem view_of (s : Store η) (field : String) : s.view.of field = s.values field := by
  simp only [FieldValues.of, view, values, Std.ExtTreeMap.getD_eq_getD_getElem?,
    Std.ExtTreeMap.getElem?_union]
  cases s.staged[field]? <;> simp

/-- The committed values of a field. -/
def committedValues (s : Store η) (field : String) : List String :=
  s.committed.of field

/-- The number of values of a field. -/
def length (s : Store η) (field : String) : Nat :=
  (s.values field).length

/-- The value of a row. -/
def value? (s : Store η) (field : String) (index : Nat) : Option String :=
  (s.values field)[index]?

/-- Something is staged. -/
def isDirty (s : Store η) : Bool :=
  !s.staged.isEmpty

/-- The store in one line. -/
def summary (s : Store η) : String :=
  Text.accountOfParts "Bucket"
    [("committed_fields", toString s.committed.size), ("staged_fields", toString s.staged.size),
      ("version", toString s.version), ("hooks", toString s.hooks.length),
      ("subscriber_count", toString s.subscriptions.length)] false

/-! ### Hooks and subscriptions -/

/-- Adds a hook after the others. -/
def addHook (s : Store η) (hook : η) : Store η :=
  { s with hooks := s.hooks ++ [hook] }

/-- Makes a subscription; its id is the number of those made before. -/
def subscribe (s : Store η) : Nat × Store η :=
  (s.subscribed, { s with
    subscriptions := s.subscriptions ++ [⟨s.subscribed, true⟩]
    subscribed := s.subscribed + 1 })

/-- Lets a subscription go. -/
def unsubscribe (s : Store η) (id : Nat) : Store η :=
  { s with subscriptions := s.subscriptions.map fun x => if x.id = id then { x with held := false } else x }

/-- The subscriptions that an update reaches, in order. -/
def recipients (s : Store η) : List Nat :=
  (s.subscriptions.filter (·.held)).map (·.id)

/-- Publishes a change: the version goes up by one, and subscriptions that were let go are forgotten. -/
def publish (s : Store η) (edit : FormEdit) : Update × Store η :=
  (⟨s.version + 1, edit⟩, { s with
    version := s.version + 1
    subscriptions := s.subscriptions.filter (·.held) })

/-! ### Writing -/

/-- An edit reduced to what changes the values: the fields in which something changes, each with its
    reduced edit. -/
def normalize (s : Store η) (edit : FormEdit) : FormEdit :=
  edit.filterMap fun field e => (e.normalize (s.values field)).nonempty?

/-- Stages the fields of an edit with the values after it. -/
def stageEdit (s : Store η) (edit : FormEdit) : Store η :=
  { s with staged := s.staged ∪ edit.map fun field e => e.applyTo (s.values field) }

/-- Stages an edit. Nothing is published if it changes nothing. -/
def stage [EditHook η] (s : Store η) (edit : FormEdit) : Option Update × Store η :=
  let (edit, hooks) := runHooks s.hooks edit
  let s := { s with hooks }
  let change := s.normalize edit
  if change.isEmpty then (none, s)
  else
    let (update, s) := (s.stageEdit change).publish change
    (some update, s)

/-- Moves the staged values into the committed layer, and tells their fields. A field staged without
    values is no longer committed. -/
def commit (s : Store η) : List String × Store η :=
  (s.staged.keys, { s with committed := (s.committed \ s.staged) ∪ s.staged.filled, staged := ∅ })

/-- The edit that takes the merged view back to the committed one. -/
def restoring (s : Store η) : FormEdit :=
  s.staged.filterMap fun field values => (FieldEdit.restore values (s.committedValues field)).nonempty?

/-- Drops the staged values. Nothing is published if that changes no value. -/
def revert (s : Store η) : Option Update × Store η :=
  let change := s.restoring
  let s := { s with staged := ∅ }
  if change.isEmpty then (none, s)
  else
    let (update, s) := s.publish change
    (some update, s)

end Store

end FormSession
