import FormSession.Names

/-! # The ledger of hidden rows

The ledger lists the rows of each field that were hidden since it was cleared last, each with a number
that tells the order in which rows were hidden. The numbers go on rising when the ledger is cleared. -/

namespace FormSession

/-- The hidden rows of one field, each with its number. -/
abbrev HiddenRows := Std.ExtTreeMap Nat Nat

/-- The hidden rows by field. -/
structure Ledger where
  fields : NameMap HiddenRows
  /-- The number that the row hidden next gets. -/
  nextOrder : Nat
  deriving DecidableEq

namespace Ledger

/-- The ledger without hidden rows. -/
def empty : Ledger :=
  ⟨∅, 0⟩

/-- The hidden rows of a field. -/
def rows (l : Ledger) (field : String) : HiddenRows :=
  l.fields.getD field ∅

/-- Lists the given hidden rows for a field; a field without any is not listed. -/
def setRows (l : Ledger) (field : String) (rows : HiddenRows) : Ledger :=
  { l with fields := if rows.isEmpty then l.fields.erase field else l.fields.insert field rows }

/-- The row is listed. -/
def contains (l : Ledger) (field : String) (index : Nat) : Bool :=
  (l.rows field).contains index

/-- The number of a row that is listed. -/
def order? (l : Ledger) (field : String) (index : Nat) : Option Nat :=
  (l.rows field)[index]?

/-- The hidden rows of a field, ascending. -/
def indexes (l : Ledger) (field : String) : List Nat :=
  (l.rows field).keys

/-- No row is listed. -/
def isEmpty (l : Ledger) : Bool :=
  l.fields.isEmpty

/-- Lists a row as hidden. A row that is listed already keeps its number. -/
def hide (l : Ledger) (field : String) (index : Nat) : Ledger :=
  if l.contains field index then l
  else { l.setRows field ((l.rows field).insert index l.nextOrder) with nextOrder := l.nextOrder + 1 }

/-- Takes a row off the list. -/
def reveal (l : Ledger) (field : String) (index : Nat) : Ledger :=
  l.setRows field ((l.rows field).erase index)

/-- Lists a row that is hidden, or takes it off the list if it is shown. -/
def mark (l : Ledger) (field : String) (index : Nat) (visible : Bool) : Ledger :=
  if visible then l.reveal field index else l.hide field index

/-- The hidden rows of a field after one of its rows went away: the rows after it move down by one. -/
def shiftedRows (rows : HiddenRows) (index : Nat) : HiddenRows :=
  rows.foldl (fun acc i order =>
    if i = index then acc else acc.insert (if index < i then i - 1 else i) order) ∅

/-- The ledger once a row of a field went away. -/
def removeRow (l : Ledger) (field : String) (index : Nat) : Ledger :=
  l.setRows field (shiftedRows (l.rows field) index)

/-- Takes all rows off the list; the numbers go on rising. -/
def clear (l : Ledger) : Ledger :=
  { l with fields := ∅ }

end Ledger

end FormSession
