import FormSession.Document.Toml.Scalar
import FormSession.Document.Toml.Text
import FormSession.Document.Toml.Table

/-! # Reading TOML

A text is read line by line into statements, which then build the table of the document. A reader takes
characters off the text that is left, and fails where the text is not well formed. Values nest in at most
79 lists and inline tables, and a key has at most 79 parts. -/

namespace FormSession.Toml

/-- Takes something off the text that is left. -/
abbrev Scan := StateT (List Char) Option

namespace Scan

/-- The next character, which is left there. -/
def peek : Scan (Option Char) :=
  return (← get).head?

/-- Takes a given character if it is next, and tells whether it was. -/
def accept (c : Char) : Scan Bool := do
  match ← get with
  | d :: rest => if d = c then set rest; return true else return false
  | [] => return false

/-- Takes a given character, which must be next. -/
def expect (c : Char) : Scan Unit := do
  if !(← accept c) then failure

/-- Goes on with a result, and fails if there is none. -/
def ofOption {α : Type} : Option α → Scan α
  | some a => return a
  | none => failure

/-- Takes characters as long as they are of a kind. -/
def run (ofKind : Char → Bool) : Scan (List Char) := do
  let cs ← get
  set (cs.dropWhile ofKind)
  return cs.takeWhile ofKind

/-- Takes what a reader of characters finds, and fails where it finds nothing. -/
def cut (f : List Char → Cut) : Scan (List Char) := do
  let some (cs, rest) := f (← get) | failure
  set rest
  return cs

/-- Reads parts until the reader of a part finds the end, at most as many as a text has characters. -/
def upTo {α : Type} (part : Scan (Option α)) : List Char → Scan (List α)
  | [] => do
    match ← part with
    | none => return []
    | some _ => failure
  | _ :: rest => do
    match ← part with
    | none => return []
    | some a => return a :: (← upTo part rest)

/-- Reads parts until the reader of a part finds the end. Each part takes at least one character, so there
    are no more parts than characters left. -/
def many {α : Type} (part : Scan (Option α)) : Scan (List α) := do
  upTo part (← get)

end Scan

open Scan

/-- The largest number of lists and inline tables around a value. -/
def maxDepth : Nat := 79

/-- The largest number of parts of a key. -/
def maxKeyParts : Nat := 79

/-! ### Blanks and line ends -/

/-- Skips spaces and tabs. -/
def blanks : Scan Unit := do
  let _ ← run isBlank

/-- Skips a comment if there is one. -/
def comment : Scan Unit := do
  if ← accept '#' then
    let _ ← run isPlain

/-- Takes a line end, and tells whether there was one. -/
def lineEnd : Scan Bool := do
  match ← get with
  | '\n' :: rest => set rest; return true
  | '\r' :: '\n' :: rest => set rest; return true
  | _ => return false

/-- Skips blanks and a comment, up to the end of the line or of the text. -/
def restOfLine : Scan Unit := do
  blanks
  comment
  if !(← lineEnd) && !(← get).isEmpty then failure

/-- Skips blanks, comments and line ends. -/
def gap : Scan Unit := do
  let _ ← many do
    blanks
    comment
    if ← lineEnd then return some () else return none

/-! ### Keys -/

/-- A part of a key without quotes. -/
def isBareChar (c : Char) : Bool :=
  c.isAlphanum || c == '-' || c == '_'

/-- A part of a key, in quotes or bare, with the blanks around it. -/
def keyPart : Scan String := do
  blanks
  let c ← peek
  let cs ← if c = some '"' ∨ c = some '\'' then cut lineText else do
    let cs ← run isBareChar
    if cs.isEmpty then failure else pure cs
  blanks
  return String.ofList cs

/-- A key: its parts before the last one, and the last one. -/
def key : Scan (List String × String) := do
  let first ← keyPart
  let rest ← many do
    if ← accept '.' then return some (← keyPart) else return none
  if rest.length < maxKeyParts then
    return ((first :: rest).dropLast, (first :: rest).getLastD first)
  else failure

/-! ### Values -/

/-- A number, a date, a time or a truth value. A date may be followed by a blank and a time. -/
def scalar : Scan Doc := do
  let cs ← run isScalarChar
  match ← get with
  | ' ' :: c :: rest =>
    if isDate cs && c.isDigit then
      let time := (c :: rest).takeWhile isScalarChar
      if isTimeOfDate time then
        set ((c :: rest).dropWhile isScalarChar)
        return .moment (String.ofList (cs ++ [' '] ++ time))
      else failure
    else Scan.ofOption (scalar? cs)
  | _ => Scan.ofOption (scalar? cs)

/-- The items of a list, after its opening bracket. -/
def items (value : Scan Doc) : Scan (List Doc) :=
  many do
    gap
    if ← accept ']' then return none
    else
      let d ← value
      gap
      if (← accept ',') || (← peek) = some ']' then return some d else failure

/-- A key and its value, with an equals sign in between. -/
def pair (value : Scan Doc) : Scan ((List String × String) × Doc) := do
  let k ← key
  expect '='
  blanks
  let d ← value
  blanks
  return (k, d)

/-- The keys of an inline table with their values, after its opening brace. -/
def pairs (value : Scan Doc) : Scan (List ((List String × String) × Doc)) := do
  blanks
  if ← accept '}' then return []
  else
    let first ← pair value
    let rest ← many do
      if ← accept '}' then return none
      else
        expect ','
        return some (← pair value)
    return first :: rest

/-- A value, with the reader of the values inside it; without one it must not be a list or an inline
    table. -/
def valueWith (inside : Option (Scan Doc)) : Scan Doc := do
  let c ← peek
  if c = some '"' ∨ c = some '\'' then return .str (String.ofList (← cut text))
  else if c = some '[' ∨ c = some '{' then
    let some inner := inside | failure
    if ← accept '[' then return .list (← items inner)
    else
      expect '{'
      let ps ← pairs inner
      let some entries := ps.foldlM (fun es ((path, last), d) => Entries.assign path last d es) [] | failure
      return Entries.toDoc entries
  else scalar

/-- A value with at most the given number of lists and inline tables around and inside it. -/
def value : Nat → Scan Doc
  | 0 => valueWith none
  | depth + 1 => valueWith (some (value depth))

/-! ### Lines -/

/-- What a line says. -/
inductive Statement where
  | nothing
  /-- The lines after it fill a table. -/
  | header (path : List String) (key : String)
  /-- The lines after it fill a new table of an array. -/
  | rowHeader (path : List String) (key : String)
  | assign (path : List String) (key : String) (doc : Doc)

/-- The statement of the next line, unless the text is at its end. -/
def statement : Scan (Option Statement) := do
  blanks
  match ← get with
  | [] => return none
  | '[' :: '[' :: rest =>
    set rest
    let (path, last) ← key
    expect ']'
    expect ']'
    restOfLine
    return some (.rowHeader path last)
  | '[' :: rest =>
    set rest
    let (path, last) ← key
    expect ']'
    restOfLine
    return some (.header path last)
  | c :: _ =>
    if c = '#' ∨ c = '\n' ∨ c = '\r' then
      restOfLine
      return some .nothing
    else
      let (path, last) ← key
      expect '='
      blanks
      let d ← value maxDepth
      restOfLine
      return some (.assign path last d)

/-- Carries out a statement, given the path of the table that the last header named. -/
def Statement.run (current : List String × Entries) : Statement → Option (List String × Entries)
  | .nothing => some current
  | .header path key => (current.2.openTable path key).map (path ++ [key], ·)
  | .rowHeader path key => (current.2.openRow path key).map (path ++ [key], ·)
  | .assign path key doc => (current.2.assignUnder current.1 path key doc).map (current.1, ·)

/-- The text without a byte order mark at its start. -/
def dropMark : List Char → List Char
  | '\uFEFF' :: rest => rest
  | cs => cs

/-- The document that a text writes. -/
def read? (text : String) : Option Doc := do
  let (statements, rest) ← StateT.run (many statement) (dropMark text.toList)
  if rest.isEmpty then
    let (_, entries) ← statements.foldlM Statement.run ([], [])
    some (Entries.toDoc entries)
  else none

/-- In TOML a list in place of a record may have surplus items, and an empty list or record stands for the
    content of a variant without content. -/
def dialect : Dialect where
  surplusItems := true
  isEmptyContent
    | .list items => items.isEmpty
    | .record members => members.isEmpty
    | _ => false

/-- What a TOML text writes, if it can be read. -/
def decode? {α : Type} (ofDoc? : Dialect → Doc → Option α) (text : String) : Option α :=
  (read? text).bind (ofDoc? dialect)

end FormSession.Toml
