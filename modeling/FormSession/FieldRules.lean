import FormSession.FormEdit
import FormSession.Registry

/-! # Resting values

While nobody answers a field it holds its resting value: the sentinel for not applicable where its
policy says so, and the declared default elsewhere. A reset puts the asked rows of some fields back to
their resting values. -/

namespace FormSession

/-- The declarations of a form's fields and its sentinel for not applicable. -/
structure FieldRules where
  registry : Registry
  naValue : String

/-- Rows to reset, by field. -/
abbrev ResetRequest := NameMap (List Nat)

namespace FieldRules

/-- The declaration of a field. -/
def spec (rules : FieldRules) (field : String) : FieldSpec :=
  rules.registry.spec field

/-- The value that a row of a field holds while nobody answers it. -/
def restingValue (rules : FieldRules) (m : Classification) (field : String) (index : Nat) : String :=
  let spec := rules.spec field
  if spec.na.holdsAt field index m then rules.naValue else spec.default

/-- The writes that put the asked rows of a field back, leaving out rows that rest already. -/
def resetWrites (rules : FieldRules) (m : Classification) (field : String) (values : List String)
    (rows : List Nat) : List (Nat × String) :=
  rows.filterMap fun i =>
    let target := rules.restingValue m field i
    if values[i]? = some target then none else some (i, target)

/-- The edit that puts the asked rows back. It names the fields in which some row does not rest. -/
def reset (rules : FieldRules) (m : Classification) (values : String → List String)
    (request : ResetRequest) : FormEdit :=
  request.filterMap fun field rows =>
    match rules.resetWrites m field (values field) rows with
    | [] => none
    | writes => some (FieldEdit.writeEach [] writes)

end FieldRules

end FormSession
