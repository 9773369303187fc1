import FormSession.Classification

/-! # Field registry

A form declares for a field the value it holds while nobody answered it, when it counts as not applicable,
and whether its hidden values outlive a step. A field without a declaration holds the empty value and
is always applicable. -/

namespace FormSession

/-- When a field counts as not applicable at a row. -/
inductive NaPolicy where
  | never
  /-- Where the field itself is hidden. -/
  | onHide
  /-- Where a class matches. -/
  | whenClass (name : String)
  deriving DecidableEq, Repr

namespace NaPolicy

/-- The field can count as not applicable at all. -/
def isApplicable : NaPolicy → Bool
  | never => false
  | _ => true

/-- The policy says that a field is not applicable at a row. -/
def holdsAt (policy : NaPolicy) (field : String) (index : Nat) (m : Classification) : Bool :=
  match policy with
  | never => false
  | onHide => m[field]?.any fun v => !v.matchesAt index
  | whenClass name => m.matchesAt name index

/-- The document of a policy: its name, or its name with the name of the class. -/
def toDoc : NaPolicy → Doc
  | never => .str "never"
  | onHide => .str "on_hide"
  | whenClass name => .ofMembers [("when_class", .str name)]

/-- Reads a policy. A policy without a class may also be written as a record with empty content. -/
def ofDoc? (dialect : Dialect) : Doc → Option NaPolicy
  | .text (.plain name) =>
    if name = "never" then some never else if name = "on_hide" then some onHide else none
  | .record [(.plain name, content)] =>
    if name = "when_class" then content.text?.map whenClass
    else if name = "never" && dialect.isEmptyContent content then some never
    else if name = "on_hide" && dialect.isEmptyContent content then some onHide
    else none
  | _ => none

end NaPolicy

/-- What a form declares for a field. -/
structure FieldSpec where
  /-- The value while nobody answered the field. -/
  default : String
  na : NaPolicy
  /-- Hidden values stay when the step's fields are cleared. -/
  retain : Bool
  deriving DecidableEq, Repr

namespace FieldSpec

/-- The declaration that a field without one has. -/
def undeclared : FieldSpec :=
  ⟨"", .never, false⟩

/-- The record of a declaration. -/
def toDoc (s : FieldSpec) : Doc :=
  .ofMembers [("default", .str s.default), ("na", s.na.toDoc), ("retain", .bool s.retain)]

/-- Reads a declaration; what is absent is as in a field without one. -/
def ofDoc? (dialect : Dialect) (d : Doc) : Option FieldSpec := do
  let [default, na, retain] ← d.fields? dialect ["default", "na", "retain"] | none
  let default ← Doc.field? Doc.text? undeclared.default default
  let na ← Doc.field? (NaPolicy.ofDoc? dialect) undeclared.na na
  let retain ← Doc.field? Doc.bool? undeclared.retain retain
  some ⟨default, na, retain⟩

end FieldSpec

/-- The declarations by field. -/
abbrev Registry := NameMap FieldSpec

namespace Registry

/-- The declaration of a field; a field without one is undeclared. -/
def spec (r : Registry) (field : String) : FieldSpec :=
  r.getD field .undeclared

/-- The record of a registry, with a member for each field. -/
def toDoc (r : Registry) : Doc :=
  .ofMap FieldSpec.toDoc r

/-- The registry that a document writes. -/
def ofDoc? (dialect : Dialect) : Doc → Option Registry :=
  Doc.map? (FieldSpec.ofDoc? dialect)

end Registry

end FormSession
