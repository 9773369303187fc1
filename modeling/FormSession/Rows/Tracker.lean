import FormSession.Rows.Target

/-! # Row trackers

A tracker knows how many rows of a group are shown, and takes them step by step to each new target
within the bounds of the group. While the group is not displayed it keeps the target for later, and
several targets become one. -/

namespace FormSession

/-- A step in showing the rows of a group. -/
inductive RowOp where
  | add (index : Nat)
  | remove (index : Nat)
  /-- The last row is torn down, as all of them are. -/
  | reset (index : Nat)
  deriving DecidableEq, Repr

namespace RowOp

/-- The row of a step. -/
def index : RowOp → Nat
  | add i | remove i | reset i => i

/-- The step changes which rows there are, and does not only tear down. -/
def isStructural : RowOp → Bool
  | reset _ => false
  | _ => true

/-- The name by which a step is told. -/
def name : RowOp → String
  | add _ => "indexAdd"
  | remove _ => "indexRemove"
  | reset _ => "indexReset"

end RowOp

/-- The least and the greatest number of rows; there is no greatest one if it is given as 0. -/
structure RowBounds where
  least : Nat
  greatest : Nat
  deriving DecidableEq, Repr

namespace RowBounds

/-- The number of rows within the bounds that comes nearest; the greatest number wins over the least. -/
def clamp (b : RowBounds) (n : Nat) : Nat :=
  let n := max n b.least
  if b.greatest > 0 then min n b.greatest else n

/-- There may be one row more. -/
def canGrow (b : RowBounds) (n : Nat) : Bool :=
  b.greatest == 0 || n < b.greatest

/-- There may be one row less. -/
def canShrink (b : RowBounds) (n : Nat) : Bool :=
  n > b.least

end RowBounds

/-- What is known of the rows of one group. -/
structure RowTracker where
  /-- The field whose number of values the rows follow. -/
  lengthField : String
  bounds : RowBounds
  count : Nat
  /-- The group is displayed. -/
  active : Bool
  /-- The target kept until the group is displayed. -/
  pending : Option RowTarget
  deriving DecidableEq, Repr

namespace RowTracker

/-- The tracker of a group that is not displayed and shows no rows. -/
def new (lengthField : String) (bounds : RowBounds) : RowTracker :=
  ⟨lengthField, bounds, 0, false, none⟩

/-- The steps that tear down all rows, the last one first. -/
def resets (count : Nat) : List RowOp :=
  (List.range count).reverse.map .reset

/-- The steps that add the rows from a number up to another one. -/
def additions (count goal : Nat) : List RowOp :=
  (List.range' count (goal - count)).map .add

/-- The steps that remove `k` of `count` rows: those that went away, given in descending order, as far
    as they are shown, and then rows from the end. -/
def removals : (k count : Nat) → List Nat → List RowOp
  | 0, _, _ => []
  | k + 1, count, marked =>
    match marked.dropWhile (count ≤ ·) with
    | i :: rest => .remove i :: removals k (count - 1) rest
    | [] => .remove (count - 1) :: removals k (count - 1) []

/-- The steps that take `count` rows to a target with `goal` rows. -/
def steps (target : RowTarget) (count goal : Nat) : List RowOp :=
  let torn := if target.reset then resets count else []
  let left := if target.reset then 0 else count
  torn ++ additions left goal ++ removals (left - goal) left target.removed.reverse

/-- Takes the rows to a target, within the bounds. -/
def realize (t : RowTracker) (target : RowTarget) : List RowOp × RowTracker :=
  let goal := t.bounds.clamp target.desired
  (steps target t.count goal, { t with count := goal })

/-- Takes the rows to a target if the group is displayed, and keeps the target if not. -/
def submit (t : RowTracker) (target : RowTarget) : List RowOp × RowTracker :=
  if t.active then t.realize target
  else
    let kept := match t.pending with
      | some earlier => earlier.absorb target
      | none => target
    ([], { t with pending := some kept })

/-- Follows the length field at the outset, when it holds `held` values. -/
def init (t : RowTracker) (held : Nat) : List RowOp × RowTracker :=
  t.submit (.ofLength held)

/-- Tears every row down and builds `held` rows. -/
def reset (t : RowTracker) (held : Nat) : List RowOp × RowTracker :=
  t.submit (.resetTo held)

/-- Follows a change of the length field, which holds `held` values after it. -/
def change (t : RowTracker) (e : FieldEdit) (held : Nat) : List RowOp × RowTracker :=
  t.submit (.ofEdit e held)

/-- Displays the group, which takes its rows to the kept target, or ceases to display it. -/
def setActive (t : RowTracker) (active : Bool) : List RowOp × RowTracker :=
  if active then
    match t.pending with
    | some target => { t with active := true, pending := none }.realize target
    | none => ([], { t with active := true })
  else ([], { t with active := false })

end RowTracker

end FormSession
