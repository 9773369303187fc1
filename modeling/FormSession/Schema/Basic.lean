import FormSession.Registry

/-! # Schemas

A schema describes a form: its steps with the fields shown on each, its groups of fields shown row by
row, the declarations of its fields, and how its sessions run. -/

namespace FormSession

/-- How the sessions of a form run. -/
structure Settings where
  /-- The value of a field that is not applicable. -/
  naValue : String
  /-- The number of batches of waiting work run in a row before the work counts as endless. -/
  maxBatches : Nat
  /-- The step displayed first; the first declared one if there is none here. -/
  initialStep : Option String
  deriving DecidableEq, Repr

/-- A step of a form and the fields shown on it alone. -/
structure Step where
  id : String
  fields : List String
  deriving DecidableEq, Repr

/-- A group of fields shown row by row. -/
structure RowGroup where
  id : String
  step : String
  /-- The fields of the group; the first one tells the number of rows. -/
  fields : List String
  minRows : Nat
  /-- The greatest number of rows; 0 if there is none. -/
  maxRows : Nat
  deriving DecidableEq, Repr

/-- The description of a form. -/
structure Schema where
  settings : Settings
  registry : Registry
  steps : List Step
  groups : List RowGroup
  deriving DecidableEq

namespace Settings

/-- The settings of a form that says nothing about them. -/
def standard : Settings :=
  ⟨"N/A", 32, none⟩

end Settings

namespace RowGroup

/-- The field whose number of values tells the number of rows. -/
def lengthField? (g : RowGroup) : Option String :=
  g.fields.head?

end RowGroup

namespace Schema

/-- The schema of a form without steps and groups. -/
def empty : Schema :=
  ⟨.standard, ∅, [], []⟩

/-- The first group with an id. -/
def group? (s : Schema) (id : String) : Option RowGroup :=
  s.groups.find? (·.id == id)

/-- The first group that lists a field. -/
def groupOf? (s : Schema) (field : String) : Option RowGroup :=
  s.groups.find? (·.fields.contains field)

/-- A step has the id. -/
def hasStep (s : Schema) (id : String) : Bool :=
  s.steps.any (·.id == id)

/-- The fields shown on a step alone: those it declares and those of its groups. -/
def stepFields (s : Schema) (step : String) : NameSet :=
  Std.ExtTreeSet.ofList
    ((s.steps.filter (·.id == step)).flatMap (·.fields) ++ (s.groups.filter (·.step == step)).flatMap (·.fields))

/-- The step displayed first, if there is any step. -/
def firstStep? (s : Schema) : Option String :=
  s.settings.initialStep <|> s.steps.head?.map (·.id)

end Schema

end FormSession
