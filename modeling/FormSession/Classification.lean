import FormSession.Document.Basic

/-! # Classifications

A classifier tells for each class or field whether it matches, over all and perhaps row by row. A
verdict without rows holds for every row. -/

namespace FormSession

/-- What a classifier says of one name. -/
structure Verdict where
  /-- The name matches over all. -/
  overall : Bool
  /-- The name matches at each row; empty if the verdict does not go by row. -/
  rows : List Bool
  deriving DecidableEq, Repr

namespace Verdict

/-- The verdict that is the same at every row. -/
def uniform (overall : Bool) : Verdict :=
  ⟨overall, []⟩

/-- Row by row; the name matches over all if it does at some row. -/
def byRow (rows : List Bool) : Verdict :=
  ⟨rows.any id, rows⟩

/-- The verdict does not go by row. -/
def isUniform (v : Verdict) : Bool :=
  v.rows.isEmpty

/-- The verdict at a row. A verdict by row does not match where it has no row. -/
def matchesAt (v : Verdict) (index : Nat) : Bool :=
  if v.isUniform then v.overall else v.rows.getD index false

/-- The rows that a verdict decides: a uniform one decides every row shown, or every row held if none
    is known to be shown; and no verdict decides rows past those held, unless none is held. -/
def decided (v : Verdict) (rendered : Option Nat) (held : Nat) : List Bool :=
  let shown := rendered.getD 0
  let rows := if v.isUniform then List.replicate (if shown > 0 then shown else held) v.overall else v.rows
  if held > 0 then rows.take held else rows

/-- The record of a verdict. -/
def toDoc (v : Verdict) : Doc :=
  .ofMembers [("is", .bool v.overall), ("indexes", .list (v.rows.map .bool))]

/-- The rows of a verdict: a list, or one truth value if the verdict does not go by row. -/
def rowsOfDoc? : Doc → Option (List Bool)
  | .bool _ => some []
  | d => d.list? Doc.bool?

/-- Reads a verdict. It must say whether it matches over all. -/
def ofDoc? (dialect : Dialect) (d : Doc) : Option Verdict := do
  let [overall, rows] ← d.fields? dialect ["is", "indexes"] | none
  let overall ← overall.bind Doc.bool?
  let rows ← Doc.field? rowsOfDoc? [] rows
  some ⟨overall, rows⟩

end Verdict

/-- The verdicts by name. -/
abbrev Classification := NameMap Verdict

namespace Classification

/-- Whether a name matches at a row. A name without a verdict matches nowhere. -/
def matchesAt (m : Classification) (name : String) (index : Nat) : Bool :=
  m[name]?.any (·.matchesAt index)

/-- The record of a classification, with a member for each name. -/
def toDoc (m : Classification) : Doc :=
  .ofMap Verdict.toDoc m

/-- The classification that a document writes. -/
def ofDoc? (dialect : Dialect) : Doc → Option Classification :=
  Doc.map? (Verdict.ofDoc? dialect)

end Classification

end FormSession
