import FormSession.Document.Json.Token

/-! # Strings of TOML

A string stands between quotes or apostrophes, on one line or, between three of them, on several lines.
Between quotes a backslash starts an escape; between apostrophes every character stands for itself. Control
characters other than the tab are refused. -/

namespace FormSession.Toml

open Json (hexNumber?)

/-- The characters that may stand between the parts of a line. -/
def isBlank (c : Char) : Bool :=
  c == ' ' || c == '\t'

/-- A character that may stand in a string or a comment. -/
def isPlain (c : Char) : Bool :=
  c == '\t' || (' ' ≤ c && c != '\x7f')

/-- The character that a letter after a backslash stands for. -/
def escaped? : Char → Option Char
  | '"' => some '"'
  | '\\' => some '\\'
  | 'b' => some '\x08'
  | 'f' => some '\x0c'
  | 'n' => some '\n'
  | 'r' => some '\r'
  | 't' => some '\t'
  | _ => none

/-- The character that hexadecimal digits name. -/
def charOfHex? (digits : List Char) : Option Char :=
  (hexNumber? digits).bind fun n => if n.isValidChar then some (Char.ofNat n) else none

/-- The characters of a string, and what follows it. -/
abbrev Cut := Option (List Char × List Char)

/-- Puts a character before a string. -/
def Cut.cons (c : Char) (cut : Cut) : Cut :=
  cut.map fun (cs, rest) => (c :: cs, rest)

/-- Puts a character, if there is one, before a string. -/
def Cut.consChar (c : Option Char) (cut : Cut) : Cut :=
  c.bind (cut.cons ·)

/-- The string up to the closing apostrophe. -/
def literal : List Char → Cut
  | [] => none
  | '\'' :: rest => some ([], rest)
  | c :: rest => if isPlain c then (literal rest).cons c else none

/-- The string up to the closing quote. -/
def basic : List Char → Cut
  | [] => none
  | '"' :: rest => some ([], rest)
  | '\\' :: 'u' :: a :: b :: c :: d :: rest => (basic rest).consChar (charOfHex? [a, b, c, d])
  | '\\' :: 'U' :: a :: b :: c :: d :: e :: f :: g :: h :: rest =>
    (basic rest).consChar (charOfHex? [a, b, c, d, e, f, g, h])
  | '\\' :: e :: rest => (basic rest).consChar (escaped? e)
  | c :: rest => if isPlain c then (basic rest).cons c else none

/-- A string that ends in three of the given quotes; up to two quotes before them belong to it. -/
def closing (quote : Char) : List Char → Option (List Char × List Char)
  | a :: b :: rest =>
    if a = quote ∧ b = quote then some ([quote, quote], rest)
    else if a = quote then some ([quote], b :: rest)
    else some ([], a :: b :: rest)
  | [a] => if a = quote then some ([quote], []) else some ([], [a])
  | [] => some ([], [])

/-- The string of several lines up to three closing apostrophes. -/
def literalLines : List Char → Cut
  | [] => none
  | '\'' :: '\'' :: '\'' :: rest => closing '\'' rest
  | '\r' :: '\n' :: rest => (literalLines rest).cons '\n'
  | c :: rest => if isPlain c || c == '\n' then (literalLines rest).cons c else none

/-- A line ends here, after blanks. -/
def endsLine (cs : List Char) : Bool :=
  match cs.dropWhile isBlank with
  | '\n' :: _ => true
  | '\r' :: '\n' :: _ => true
  | _ => false

/-- The string of several lines up to three closing quotes. After a backslash at the end of a line, blanks
    and line ends are skipped up to the next other character. -/
def basicLines (skipping : Bool) : List Char → Cut
  | [] => none
  | '\r' :: '\n' :: rest => if skipping then basicLines true rest else (basicLines false rest).cons '\n'
  | '"' :: '"' :: '"' :: rest => closing '"' rest
  | '\\' :: 'u' :: a :: b :: c :: d :: rest => (basicLines false rest).consChar (charOfHex? [a, b, c, d])
  | '\\' :: 'U' :: a :: b :: c :: d :: e :: f :: g :: h :: rest =>
    (basicLines false rest).consChar (charOfHex? [a, b, c, d, e, f, g, h])
  | '\\' :: e :: rest =>
    if endsLine (e :: rest) then basicLines true (e :: rest)
    else (basicLines false rest).consChar (escaped? e)
  | c :: rest =>
    if skipping && (isBlank c || c == '\n') then basicLines true rest
    else if isPlain c || c == '\n' then (basicLines false rest).cons c
    else none

/-- What follows a line end, if there is one. -/
def dropLineEnd : List Char → List Char
  | '\n' :: rest => rest
  | '\r' :: '\n' :: rest => rest
  | cs => cs

/-- The string that starts here, on one line. -/
def lineText : List Char → Cut
  | '"' :: rest => basic rest
  | '\'' :: rest => literal rest
  | _ => none

/-- The string that starts here, on one line or on several. -/
def text : List Char → Cut
  | '"' :: '"' :: '"' :: rest => basicLines false (dropLineEnd rest)
  | '\'' :: '\'' :: '\'' :: rest => literalLines (dropLineEnd rest)
  | cs => lineText cs

end FormSession.Toml
