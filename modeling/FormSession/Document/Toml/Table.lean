import FormSession.Document.Basic

/-! # Tables of TOML

A document of TOML is built line by line. A header names the table that the lines after it fill, and a key
with dots names a table inside that one. Tables that such a path passes through come into being with it.
What a table came from decides how it may be filled later: a header may name a table once, after paths
through it at most, and dots do not reach into a table that a header named. -/

namespace FormSession.Toml

/-- What a table came from. -/
inductive Origin where
  /-- A header named it. -/
  | header
  /-- The path of a header passed through it. -/
  | path
  /-- The dots of a key made it. -/
  | dots
  deriving DecidableEq, Repr

/-- What stands at a key: a value that is complete, a table, or an array of tables, last one first. -/
inductive Item where
  | value (doc : Doc)
  | table (origin : Origin) (entries : List (String × Item))
  | tables (rows : List (List (String × Item)))

/-- The items of a table by key, in the order in which the keys came. -/
abbrev Entries := List (String × Item)

namespace Entries

/-- Sets the item at a key. -/
def set (key : String) (item : Item) : Entries → Entries
  | [] => [(key, item)]
  | (k, i) :: rest => if k = key then (k, item) :: rest else (k, i) :: set key item rest

/-- Changes the table at the end of a path. Tables on the path come into being with the given origin, and
    of an array of tables the last one is meant. -/
def within (made : Origin) (change : Origin → Entries → Option Entries) :
    List String → Origin → Entries → Option Entries
  | [], origin, entries => change origin entries
  | key :: path, _, entries =>
    match entries.lookup key with
    | none => do
      let inner ← within made change path made []
      some (set key (.table made inner) entries)
    | some (.value _) => none
    | some (.tables []) => none
    | some (.tables (row :: rows)) => do
      let row ← within made change path .header row
      some (set key (.tables (row :: rows)) entries)
    | some (.table origin inner) =>
      if made = .dots ∧ origin = .header then none
      else do
        let inner ← within made change path origin inner
        some (set key (.table origin inner) entries)

/-- Puts a value at a key of a table that has none there. Dots reach only into tables that dots made. -/
def assign (path : List String) (key : String) (doc : Doc) (entries : Entries) : Option Entries :=
  within .dots (fun origin entries =>
    if path ≠ [] ∧ origin ≠ .dots then none
    else match entries.lookup key with
      | some _ => none
      | none => some (set key (.value doc) entries)) path .header entries

/-- Opens the table of a header: a new one, or one that only paths of headers have made. -/
def openTable (path : List String) (key : String) (entries : Entries) : Option Entries :=
  within .path (fun _ entries =>
    match entries.lookup key with
    | none => some (set key (.table .header []) entries)
    | some (.table .path inner) => some (set key (.table .header inner) entries)
    | some _ => none) path .header entries

/-- Adds a table to the array of tables that a header names. -/
def openRow (path : List String) (key : String) (entries : Entries) : Option Entries :=
  within .path (fun _ entries =>
    match entries.lookup key with
    | none => some (set key (.tables [[]]) entries)
    | some (.tables rows) => some (set key (.tables ([] :: rows)) entries)
    | some _ => none) path .header entries

/-- Puts a value into the table that the last header named. -/
def assignUnder (header path : List String) (key : String) (doc : Doc) (entries : Entries) :
    Option Entries :=
  within .path (fun _ entries => assign path key doc entries) header .header entries

mutual

/-- The document of an item. -/
def itemDoc : Item → Doc
  | .value doc => doc
  | .table _ entries => .record (members entries)
  | .tables rows => .list (rowDocs rows [])

/-- The members of a record, one for each item. -/
def members : List (String × Item) → List (DocText × Doc)
  | [] => []
  | (key, item) :: rest => (.plain key, itemDoc item) :: members rest

/-- The documents of an array of tables, first one first, before some more. -/
def rowDocs : List (List (String × Item)) → List Doc → List Doc
  | [], docs => docs
  | row :: rest, docs => rowDocs rest (.record (members row) :: docs)

end

/-- The document of a table. -/
def toDoc (entries : Entries) : Doc :=
  .record (members entries)

end Entries

end FormSession.Toml
