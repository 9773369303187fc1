/-! # Edits of one field

A field holds a list of values, one per row. An edit of the field says row by row what happens: the
row is kept, gets a value, or goes away. The first row that goes away ends the field, so slots after
it have no effect on the values.

Edits are applied to values (`applyTo`), laid over each other (`merge`), reduced to what changes the
values at hand (`normalize`), and computed from two lists of values (`restore`). -/

namespace FormSession

/-- What an edit does at one row of a field. -/
inductive Slot where
  /-- The row stays as it is, present or not. -/
  | keep
  | write (value : String)
  /-- The row and every later one go away. -/
  | drop
  deriving DecidableEq, Repr

namespace Slot

/-- The slot drops the value. -/
def isDrop : Slot → Bool
  | drop => true
  | _ => false

/-- The slot has no effect. -/
def isKeep : Slot → Bool
  | keep => true
  | _ => false

/-- The value that a slot writes. -/
def value? : Slot → Option String
  | write v => some v
  | _ => none

/-- A later slot laid over an earlier one: it wins unless it keeps the row. -/
def overlay (later earlier : Slot) : Slot :=
  match later with
  | keep => earlier
  | s => s

end Slot

/-- The slots of one field, one per row. Rows past the end are kept. -/
abbrev FieldEdit := List Slot

namespace FieldEdit

/-! ### Building -/

/-- Puts a slot at a row, and keeps the rows between the end of the edit and it. -/
def put : FieldEdit → Nat → Slot → FieldEdit
  | [], 0, s => [s]
  | [], i + 1, s => .keep :: put [] i s
  | _ :: rest, 0, s => s :: rest
  | t :: rest, i + 1, s => t :: put rest i s

/-- Writes a value to a row. -/
def write (e : FieldEdit) (index : Nat) (value : String) : FieldEdit :=
  e.put index (.write value)

/-- Takes a row away. -/
def drop (e : FieldEdit) (index : Nat) : FieldEdit :=
  e.put index .drop

/-- Takes away every row from one index up to, but not including, another. -/
def dropRange (e : FieldEdit) (start stop : Nat) : FieldEdit :=
  (List.range' start (stop - start)).foldl drop e

/-- The edit that writes a whole list of values from the first row on. -/
def writeAll (values : List String) : FieldEdit :=
  values.map .write

/-- Writes one value after the other. -/
def writeEach (e : FieldEdit) (writes : List (Nat × String)) : FieldEdit :=
  writes.foldl (fun e (index, value) => e.write index value) e

/-- Leaves out the rows at the end that are kept. -/
def trim : FieldEdit → FieldEdit
  | [] => []
  | s :: rest =>
    match trim rest with
    | [] => if s.isKeep then [] else [s]
    | kept => s :: kept

/-- Lays a later edit over an earlier one, row by row. Rows that the later edit keeps at its end do
    not lengthen the earlier one. -/
def merge : FieldEdit → FieldEdit → FieldEdit
  | earlier, [] => earlier
  | [], later => trim later
  | s :: earlier, t :: later => t.overlay s :: merge earlier later

/-! ### Reading -/

/-- The slot of a row; a row past the slots is kept. -/
def slotAt (e : FieldEdit) (index : Nat) : Slot :=
  e[index]?.getD .keep

/-- The edit changes nothing, whatever the values. -/
def isNoop (e : FieldEdit) : Bool :=
  e.all Slot.isKeep

/-- The first row that goes away. -/
def firstDrop? (e : FieldEdit) : Option Nat :=
  e.findIdx? Slot.isDrop

/-- Some row goes away. -/
def hasDrops (e : FieldEdit) : Bool :=
  e.firstDrop?.isSome

/-- The number of rows that the edit speaks of before the first one that goes away. -/
def effectiveLength (e : FieldEdit) : Nat :=
  e.firstDrop?.getD e.length

/-- Every row that goes away, ascending. -/
def dropped (e : FieldEdit) : List Nat :=
  e.zipIdx.filterMap fun (s, i) => if s.isDrop then some i else none

/-- Every value written before the first row that goes away, with its row, ascending. -/
def writes (e : FieldEdit) : List (Nat × String) :=
  (e.take e.effectiveLength).zipIdx.filterMap fun (s, i) => s.value?.map (i, ·)

/-! ### Values -/

/-- The values after the edit. A value written past the end is preceded by empty ones. -/
def applyTo : FieldEdit → List String → List String
  | [], values => values
  | .drop :: _, _ => []
  | .write v :: rest, values => v :: applyTo rest values.tail
  | .keep :: rest, v :: values => v :: applyTo rest values
  | .keep :: rest, [] =>
    match applyTo rest [] with
    | [] => []
    | padded => "" :: padded

/-- The edit, unless it has no slots. -/
def nonempty? (e : FieldEdit) : Option FieldEdit :=
  if e = [] then none else some e

/-- The slots that matter for the given values, row by row: a row goes away only where there is one, and
    a value is written only where it differs and before the first row that goes away. -/
def relevant (cut : Bool) : FieldEdit → List String → FieldEdit
  | [], _ => []
  | .drop :: rest, _ :: values => .drop :: relevant true rest values
  | .drop :: rest, [] => .keep :: relevant true rest []
  | .write v :: rest, values =>
    (if cut || values.head? == some v then .keep else .write v) :: relevant cut rest values.tail
  | .keep :: rest, values => .keep :: relevant cut rest values.tail

/-- The edit reduced to what changes the given values. Rows that go away after the first one stay in it
    where there are such rows: they tell which rows went away. -/
def normalize (e : FieldEdit) (values : List String) : FieldEdit :=
  trim (relevant false e values)

/-- Row by row, what takes the first list of values to the second. -/
def transition : List String → List String → FieldEdit
  | old, [] => old.map fun _ => .drop
  | [], v :: new => .write v :: transition [] new
  | u :: old, v :: new => (if u = v then .keep else .write v) :: transition old new

/-- The edit that takes values back to earlier ones: it writes where they differ and takes surplus rows
    away. -/
def restore (values earlier : List String) : FieldEdit :=
  trim (transition values earlier)

end FieldEdit

end FormSession
