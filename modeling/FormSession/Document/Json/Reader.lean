import FormSession.Document.Json.Token

/-! # Reading JSON

A document is read token by token with a stack of the lists and records that are still open. What may
come next is the state of the reading; a token that may not come next ends it. Lists and records may be
nested to any depth. -/

namespace FormSession.Json

/-- A list or record that is still open, with what it holds so far, last first. A record waits for the
    value of a name. -/
inductive Frame where
  | list (items : List Doc)
  | record (members : List (DocText × Doc)) (name : DocText)

/-- What may come next, inside the frames that are open, innermost first. -/
inductive State where
  | value (outer : List Frame)
  /-- The first item of a list, or its end. -/
  | firstItem (outer : List Frame)
  /-- The first name of a record, or its end. -/
  | firstName (outer : List Frame)
  /-- A name of a record that holds some members. -/
  | name (members : List (DocText × Doc)) (outer : List Frame)
  /-- The colon after a name. -/
  | colon (members : List (DocText × Doc)) (name : DocText) (outer : List Frame)
  /-- A value is complete: the next item or member follows, or the end. -/
  | complete (value : Doc) (outer : List Frame)

/-- The state after the first token of a value. -/
def State.begin? (outer : List Frame) : Token → Option State
  | .null => some (.complete .null outer)
  | .bool b => some (.complete (.bool b) outer)
  | .nat n => some (.complete (.nat n) outer)
  | .number written => some (.complete (.number written) outer)
  | .text t => some (.complete (.text t) outer)
  | .openList => some (.firstItem outer)
  | .openRecord => some (.firstName outer)
  | _ => none

/-- The state after a token, if it may come next. -/
def State.next? : State → Token → Option State
  | .value outer, t => begin? outer t
  | .firstItem outer, .closeList => some (.complete (.list []) outer)
  | .firstItem outer, t => begin? (.list [] :: outer) t
  | .firstName outer, .closeRecord => some (.complete (.record []) outer)
  | .firstName outer, .text key => some (.colon [] key outer)
  | .name members outer, .text key => some (.colon members key outer)
  | .colon members key outer, .colon => some (.value (.record members key :: outer))
  | .complete v (.list items :: outer), .comma => some (.value (.list (v :: items) :: outer))
  | .complete v (.list items :: outer), .closeList => some (.complete (.list (v :: items).reverse) outer)
  | .complete v (.record members key :: outer), .comma => some (.name ((key, v) :: members) outer)
  | .complete v (.record members key :: outer), .closeRecord =>
    some (.complete (.record ((key, v) :: members).reverse) outer)
  | _, _ => none

/-- The document that tokens write, if they write one and no more. -/
def ofTokens? (tokens : List Token) : Option Doc :=
  match tokens.foldlM State.next? (.value []) with
  | some (.complete v []) => some v
  | _ => none

/-- The document that a text writes. -/
def read? (text : String) : Option Doc :=
  (tokens? text.toList).bind ofTokens?

end FormSession.Json
