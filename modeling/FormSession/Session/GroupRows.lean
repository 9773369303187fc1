import FormSession.Session.Steps

/-! # Rows of a group

A row is added to a group by writing the defaults of its fields past the values of the length field, and
removed by moving the values of the later rows up. Both respect the bounds of the group. -/

namespace FormSession

namespace FieldEdit

/-- Takes one row out of the values: the later ones move up by one. -/
def eraseRow (index : Nat) (values : List String) : FieldEdit :=
  List.replicate index .keep ++ writeAll (values.drop (index + 1)) ++ [.drop]

end FieldEdit

namespace FormEdit

/-- The edit that writes the defaults of some fields at a row. -/
def newRow (registry : Registry) (fields : List String) (index : Nat) : FormEdit :=
  fields.foldl (fun e field => write e field index (registry.spec field).default) ∅

/-- Takes one row out of the values of some fields; shorter fields stay as they are. -/
def eraseRow (values : String → List String) (fields : List String) (index : Nat) : FormEdit :=
  fields.foldl (fun e field =>
    if index < (values field).length then e.insert field (FieldEdit.eraseRow index (values field)) else e) ∅

end FormEdit

namespace Action

variable {η σ : Type}

/-- The group with an id; it is an error if there is none. -/
def group (form : Form) (id : String) : Action η σ RowGroup :=
  match form.schema.group? id with
  | some g => return g
  | none => throw (.unknownGroup id)

/-- The number of values of the length field of a group. -/
def groupLength (g : RowGroup) (s : Session η) : Nat :=
  match g.lengthField? with
  | some field => s.store.length field
  | none => 0

/-- Writes an edit to the fields of a group, if the session allows it. Tells whether it was written. -/
def editRows [EditHook η] [Sink σ] (form : Form) (id : String) (allowed : RowGroup → Session η → Bool)
    (edit : RowGroup → Session η → FormEdit) : Action η σ Bool := do
  let g ← group form id
  let s ← session
  if allowed g s then
    let _ ← write form (edit g s)
    return true
  else return false

/-- Adds a row of defaults to a group, unless the group has its greatest number of rows. Tells whether
    a row was added. -/
def addRow [EditHook η] [Sink σ] (form : Form) (id : String) : Action η σ Bool :=
  editRows form id (fun g s => s.trackers[id]?.any (·.bounds.canGrow (groupLength g s)))
    fun g s => FormEdit.newRow form.schema.registry g.fields (groupLength g s)

/-- Removes a row of a group, unless there is no such row or the group has its least number of rows.
    Tells whether a row was removed. -/
def removeRow [EditHook η] [Sink σ] (form : Form) (id : String) (index : Nat) : Action η σ Bool :=
  editRows form id
    (fun g s => index < groupLength g s && s.trackers[id]?.any (·.bounds.canShrink (groupLength g s)))
    fun g s => FormEdit.eraseRow s.store.values g.fields index

/-- Tears down the rows of a group and builds them anew. -/
def resetGroup [Sink σ] (form : Form) (id : String) : Action η σ Unit := do
  let g ← group form id
  let s ← session
  match s.trackers[id]? with
  | none => throw (.unknownGroup id)
  | some t =>
    let (ops, t) := t.reset (groupLength g s)
    update fun s => { s with trackers := s.trackers.insert id t }
    tellRows form id ops
    classify form

end Action

end FormSession
