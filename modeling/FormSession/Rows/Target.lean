import FormSession.FieldEdit

/-! # Row targets

A group of fields is shown row by row, and one of its fields, the length field, tells how many rows
there are to be. A change of that field becomes a target for the rows shown: how many are wanted, and
which of the rows shown went away. -/

namespace FormSession

/-- What the rows of a group are to become. -/
structure RowTarget where
  desired : Nat
  /-- The rows that went away, ascending. -/
  removed : List Nat
  /-- Every row is torn down first. -/
  reset : Bool
  deriving DecidableEq, Repr

namespace RowTarget

/-- A number of rows, and nothing else. -/
def ofLength (desired : Nat) : RowTarget :=
  ⟨desired, [], false⟩

/-- A number of rows after tearing all of them down. -/
def resetTo (desired : Nat) : RowTarget :=
  ⟨desired, [], true⟩

/-- The target of a change of the length field that holds `held` values after it. If rows go away, as
    many are wanted as come before the first of them; else as many as are held or spoken of. -/
def ofEdit (e : FieldEdit) (held : Nat) : RowTarget :=
  if e.hasDrops then ⟨e.effectiveLength, e.dropped, false⟩ else ofLength (max held e.length)

/-- Adds a number to an ascending list of numbers, unless it is there. -/
def insertAscending (n : Nat) : List Nat → List Nat
  | [] => [n]
  | m :: rest => if n < m then n :: m :: rest else if n = m then m :: rest else m :: insertAscending n rest

/-- A later target on top of one not realized yet: its number of rows counts, and the rows that went
    away add up. -/
def absorb (earlier later : RowTarget) : RowTarget where
  desired := later.desired
  removed := later.removed.foldl (fun rows i => insertAscending i rows) earlier.removed
  reset := earlier.reset || later.reset

end RowTarget

end FormSession
