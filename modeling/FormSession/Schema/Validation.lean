import FormSession.Schema.Basic
import FormSession.Text.Quoted

/-! # Validation of schemas

A schema can be used if nothing is wrong with it. The problems are told in the order of the settings,
the steps and the groups. -/

namespace FormSession

/-- Something wrong with a schema. -/
inductive Problem where
  | emptyNaValue
  | noBatches
  | emptyStepId
  | duplicateStep (id : String)
  | unknownInitialStep (id : String)
  | duplicateGroup (id : String)
  | groupWithoutFields (group : String)
  | groupOnUnknownStep (group step : String)
  | crossedRowBounds (group : String) (minRows maxRows : Nat)
  | fieldInTwoGroups (group field : String)
  deriving DecidableEq, Repr

namespace Problem

/-- The text of a problem. -/
def message : Problem → String
  | emptyNaValue => "engine.na_value must not be empty"
  | noBatches => "engine.max_cascade_batches must be > 0"
  | emptyStepId => "steps: step id must not be empty"
  | duplicateStep id => "steps: duplicate step id " ++ Text.quote id
  | unknownInitialStep id => "engine.initial_step " ++ Text.quote id ++ " does not name a step"
  | duplicateGroup id => "groups: duplicate group id " ++ Text.quote id
  | groupWithoutFields g => "groups." ++ g ++ ": must list at least one field"
  | groupOnUnknownStep g step => "groups." ++ g ++ ": step " ++ Text.quote step ++ " does not name a step"
  | crossedRowBounds g least greatest =>
    "groups." ++ g ++ ": max_rows (" ++ toString greatest ++ ") must be >= min_rows (" ++ toString least ++ ")"
  | fieldInTwoGroups g field =>
    "groups." ++ g ++ ": field " ++ Text.quote field ++ " already belongs to another group"

end Problem

/-- What can go wrong before a session opens. -/
inductive SchemaError where
  /-- A text is no schema in JSON. -/
  | json
  /-- A text is no schema in TOML. -/
  | toml
  /-- A schema cannot be used. -/
  | invalid (problems : List Problem)
  deriving DecidableEq, Repr

namespace SchemaError

/-- The text of all problems. -/
def validationMessage (problems : List Problem) : String :=
  "validation errors: " ++ "; ".intercalate (problems.map (·.message))

end SchemaError

namespace Schema

/-- The problems of settings. -/
def settingsProblems (s : Settings) : List Problem :=
  (if s.naValue = "" then [.emptyNaValue] else []) ++ (if s.maxBatches = 0 then [.noBatches] else [])

/-- The problems of steps, given the ids of those before. -/
def stepProblems (seen : List String) : List Step → List Problem
  | [] => []
  | step :: rest =>
    if step.id = "" then .emptyStepId :: stepProblems seen rest
    else if step.id ∈ seen then .duplicateStep step.id :: stepProblems seen rest
    else stepProblems (step.id :: seen) rest

/-- A step of the form has the id, and the id is not empty. -/
def namesStep (s : Schema) (id : String) : Bool :=
  id ≠ "" && s.hasStep id

/-- The problem of the step displayed first. -/
def initialStepProblems (s : Schema) : List Problem :=
  match s.settings.initialStep with
  | some id => if s.namesStep id then [] else [.unknownInitialStep id]
  | none => []

/-- The problems of a group by itself. -/
def groupProblems (s : Schema) (g : RowGroup) : List Problem :=
  (if g.fields = [] then [.groupWithoutFields g.id] else [])
    ++ (if s.namesStep g.step then [] else [.groupOnUnknownStep g.id g.step])
    ++ (if g.maxRows ≠ 0 ∧ g.maxRows < g.minRows then [.crossedRowBounds g.id g.minRows g.maxRows] else [])

/-- The problems of the fields of a group, given the fields before. -/
def fieldProblems (group : String) (taken : List String) : List String → List Problem
  | [] => []
  | field :: rest =>
    if field ∈ taken then .fieldInTwoGroups group field :: fieldProblems group taken rest
    else fieldProblems group (field :: taken) rest

/-- The problems of groups, given the ids and the fields of those before. -/
def groupsProblems (s : Schema) (seen taken : List String) : List RowGroup → List Problem
  | [] => []
  | g :: rest =>
    (if g.id ∈ seen then [.duplicateGroup g.id] else [])
      ++ s.groupProblems g ++ fieldProblems g.id taken g.fields
      ++ s.groupsProblems (g.id :: seen) (g.fields ++ taken) rest

/-- The problems of a schema, in the order in which they are told. -/
def problems (s : Schema) : List Problem :=
  settingsProblems s.settings ++ stepProblems [] s.steps ++ s.initialStepProblems
    ++ s.groupsProblems [] [] s.groups

/-- The schema, if it can be used. -/
def validated (s : Schema) : Except SchemaError Schema :=
  match s.problems with
  | [] => .ok s
  | problems => .error (.invalid problems)

end Schema

end FormSession
