import FormSession.Document.Json.Dialect
import FormSession.Document.Toml.Reader
import FormSession.Schema.Validation

/-! # Schemas as documents

Every part of a schema may be absent and then has its standard value. A record may also be given as a
list of its fields, in the order in which they are read here. -/

namespace FormSession

namespace Settings

/-- The settings that a record writes; those left out are the standard ones. -/
def ofDoc? (dialect : Dialect) (d : Doc) : Option Settings := do
  let [na, batches, initial] ← d.fields? dialect ["na_value", "max_cascade_batches", "initial_step"] | none
  let naValue ← Doc.field? Doc.text? standard.naValue na
  let maxBatches ← Doc.field? Doc.count? standard.maxBatches batches
  let initialStep ← Doc.field? (Doc.optional? Doc.text?) standard.initialStep initial
  some ⟨naValue, maxBatches, initialStep⟩

/-- The record of settings. -/
def toDoc (s : Settings) : Doc :=
  .ofMembers [("na_value", .str s.naValue), ("max_cascade_batches", .nat s.maxBatches),
    ("initial_step", (s.initialStep.map .str).getD .null)]

end Settings

namespace Step

/-- The step that a record writes. -/
def ofDoc? (dialect : Dialect) (d : Doc) : Option Step := do
  let [id, fields] ← d.fields? dialect ["id", "fields"] | none
  let id ← Doc.field? Doc.text? "" id
  let fields ← Doc.field? (Doc.list? Doc.text?) [] fields
  some ⟨id, fields⟩

/-- The record of a step. -/
def toDoc (s : Step) : Doc :=
  .ofMembers [("id", .str s.id), ("fields", .list (s.fields.map .str))]

end Step

namespace RowGroup

/-- The group that a record writes; bounds left out are zero. -/
def ofDoc? (dialect : Dialect) (d : Doc) : Option RowGroup := do
  let [id, step, fields, least, greatest] ←
    d.fields? dialect ["id", "step", "fields", "min_rows", "max_rows"] | none
  let id ← Doc.field? Doc.text? "" id
  let step ← Doc.field? Doc.text? "" step
  let fields ← Doc.field? (Doc.list? Doc.text?) [] fields
  let minRows ← Doc.field? Doc.count? 0 least
  let maxRows ← Doc.field? Doc.count? 0 greatest
  some ⟨id, step, fields, minRows, maxRows⟩

/-- The record of a group. -/
def toDoc (g : RowGroup) : Doc :=
  .ofMembers [("id", .str g.id), ("step", .str g.step), ("fields", .list (g.fields.map .str)),
    ("min_rows", .nat g.minRows), ("max_rows", .nat g.maxRows)]

end RowGroup

namespace Schema

/-- The schema that a record writes. -/
def ofDoc? (dialect : Dialect) (d : Doc) : Option Schema := do
  let [settings, registry, steps, groups] ← d.fields? dialect ["engine", "fields", "steps", "groups"] | none
  let settings ← Doc.field? (Settings.ofDoc? dialect) .standard settings
  let registry ← Doc.field? (Registry.ofDoc? dialect) ∅ registry
  let steps ← Doc.field? (Doc.list? (Step.ofDoc? dialect)) [] steps
  let groups ← Doc.field? (Doc.list? (RowGroup.ofDoc? dialect)) [] groups
  some ⟨settings, registry, steps, groups⟩

/-- The record of a schema. -/
def toDoc (s : Schema) : Doc :=
  .ofMembers [("engine", s.settings.toDoc), ("fields", s.registry.toDoc),
    ("steps", .list (s.steps.map Step.toDoc)), ("groups", .list (s.groups.map RowGroup.toDoc))]

/-- The schema that a JSON text writes. -/
def ofJson (text : String) : Except SchemaError Schema :=
  match Json.decode? ofDoc? text with
  | some s => .ok s
  | none => .error .json

/-- The schema that a TOML text writes. -/
def ofToml (text : String) : Except SchemaError Schema :=
  match Toml.decode? ofDoc? text with
  | some s => .ok s
  | none => .error .toml

end Schema

end FormSession
