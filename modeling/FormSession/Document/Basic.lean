import FormSession.Names

/-! # Documents

Schemas, classifications and stored values come as documents: nested lists and records of scalars,
written as JSON or as TOML. This file holds the documents and how their parts are read as values of a
given kind. A reading either succeeds or fails; why a document does not fit is not told. -/

namespace FormSession

/-- A string of a document. One that names half of a surrogate pair has no text; it is kept as written, and
    can stand only where nobody reads it. -/
inductive DocText where
  | plain (text : String)
  | unpaired (written : String)
  deriving DecidableEq, Repr

/-- A document. A record keeps its members in the order written, repeated names included. -/
inductive Doc where
  | null
  | bool (value : Bool)
  /-- A whole number without a sign. -/
  | nat (value : Nat)
  /-- Any other number, as written. -/
  | number (written : String)
  | text (value : DocText)
  /-- A date, a time or both, as written. -/
  | moment (written : String)
  | list (items : List Doc)
  | record (members : List (DocText × Doc))

/-- Where the two ways of writing documents differ in what may stand for a record or a variant. -/
structure Dialect where
  /-- A list that stands for a record may have more items than the record has fields. -/
  surplusItems : Bool
  /-- What may stand for the content of a variant without content. -/
  isEmptyContent : Doc → Bool

namespace Doc

/-- A string of characters only. -/
def str (s : String) : Doc :=
  .text (.plain s)

/-- The document of a record with the given members. -/
def ofMembers (members : List (String × Doc)) : Doc :=
  .record (members.map fun (name, d) => (.plain name, d))

/-- The document of a map: a record with the members in ascending order of the names. -/
def ofMap {α : Type} (toDoc : α → Doc) (m : NameMap α) : Doc :=
  ofMembers (m.toList.map fun (name, a) => (name, toDoc a))

/-! ### Reading scalars and lists -/

/-- The truth value that a document is. -/
def bool? : Doc → Option Bool
  | .bool b => some b
  | _ => none

/-- The string that a document is; one with half of a surrogate pair in it is none. -/
def text? : Doc → Option String
  | .text (.plain s) => some s
  | _ => none

/-- The number of whole numbers that a count can be: 2^64. -/
def countLimit : Nat := 18446744073709551616

/-- A count is a whole number below the limit. -/
def count? : Doc → Option Nat
  | .nat n => if n < countLimit then some n else none
  | _ => none

/-- What a document writes, or nothing where it is null. -/
def optional? {α : Type} (read : Doc → Option α) : Doc → Option (Option α)
  | .null => some none
  | d => (read d).map some

/-- The items of a list, if all of them can be read. -/
def list? {α : Type} (read : Doc → Option α) : Doc → Option (List α)
  | .list items => items.mapM read
  | _ => none

/-! ### Reading records -/

/-- The members of a record whose names all have a text. -/
def members? : Doc → Option (List (String × Doc))
  | .record members => members.mapM fun
    | (.plain name, d) => some (name, d)
    | (.unpaired _, _) => none
  | _ => none

/-- A map by name. Of repeated names the last one counts, but all of them must be well formed. -/
def map? {α : Type} (read : Doc → Option α) (d : Doc) : Option (NameMap α) := do
  let entries ← (← d.members?).mapM fun (name, d) => (read d).map (name, ·)
  some (entries.foldl (fun m (name, a) => m.insert name a) ∅)

/-- The members of a given name: none, or one; a repeated one is refused. -/
def single? (name : String) (members : List (String × Doc)) : Option (Option Doc) :=
  match members.filter (·.1 == name) with
  | [] => some none
  | [(_, d)] => some (some d)
  | _ => none

/-- The fields of a record in the order of the given names, absent ones as `none`. Members of other
    names are passed over. A list stands for the record whose first fields are its items, and a moment for
    a record without any of the fields. -/
def fields? (dialect : Dialect) (names : List String) : Doc → Option (List (Option Doc))
  | .list items =>
    if items.length ≤ names.length || dialect.surplusItems then
      some (names.zipIdx.map fun (_, i) => items[i]?)
    else none
  | .moment _ => some (names.map fun _ => none)
  | d => do
    let members ← d.members?
    names.mapM (single? · members)

/-- Reads a field that is present; an absent one has a default. -/
def field? {α : Type} (read : Doc → Option α) (default : α) : Option Doc → Option α
  | some d => read d
  | none => some default

end Doc

end FormSession
