import FormSession.Rows.Tracker
import FormSession.Store
import FormSession.Visibility.Pass

/-! # Events

A session tells its display by events what to show, to hide, to add and to remove. Whoever receives
them may ask for more: a write, which waits for the next batch of work, or a new classification. While a
pass is being told, asking for a classification is an error. -/

namespace FormSession

/-- Whether an event is part of a pass. -/
inductive Phase where
  | idle
  | applying
  deriving DecidableEq, Repr

namespace Phase

/-- The name of a phase. -/
def name : Phase → String
  | idle => "idle"
  | applying => "applying"

end Phase

/-- What a session tells its display. -/
inductive Event where
  /-- Rows of a field are to be shown. -/
  | shown (field : String) (rows : List Nat)
  /-- Rows of a field are to be hidden. -/
  | hidden (field : String) (rows : List Nat)
  /-- The visibility of a field changed; its data may be loaded. -/
  | settled (field : String)
  /-- A step in showing the rows of a group. -/
  | rows (group : String) (op : RowOp)
  deriving DecidableEq, Repr

namespace Event

/-- The name by which an event is told. -/
def name : Event → String
  | shown .. => "show"
  | hidden .. => "hide"
  | settled _ => "dapi"
  | rows _ op => op.name

end Event

/-- What the receiver of an event asks for. -/
inductive Request where
  /-- A write, to be made with the next batch. -/
  | write (edit : FormEdit)
  | classify
  deriving DecidableEq

namespace Request

/-- The edit that is asked for. -/
def edit? : Request → Option FormEdit
  | write e => some e
  | classify => none

end Request

/-- A receiver of events. -/
class Sink (σ : Type) where
  receive : σ → Event → Phase → List Request × σ

/-- The receiver that asks for nothing. -/
structure SilentSink where
  deriving DecidableEq, Repr

instance : Sink SilentSink where
  receive s _ _ := ([], s)

/-- What a session does that can be seen from outside. -/
inductive Effect where
  | published (update : Update)
  /-- An event is told, and its receiver asks for more. -/
  | told (event : Event) (phase : Phase) (requests : List Request)
  deriving DecidableEq

/-- A moment in the course of a session. -/
inductive Moment where
  | effect (e : Effect)
  /-- A pass resolved a field that held some number of values then. -/
  | resolved (field : String) (held : Nat)
  | dropped
  deriving DecidableEq

namespace Moment

/-- What could be seen from outside at the moment. -/
def effect? : Moment → Option Effect
  | effect e => some e
  | _ => none

end Moment

end FormSession
