import FormSession.Document.Basic

/-! # Writing JSON

A document is written without blanks. A string is written as it is, except that quotes, backslashes and
the control characters below the space are escaped, the latter by a letter where there is one and else by
number. -/

namespace FormSession.Json

/-- The hexadecimal digit of a number below 16. -/
def hexDigit (n : Nat) : Char :=
  if n < 10 then Char.ofNat ('0'.toNat + n) else Char.ofNat ('a'.toNat + (n - 10))

/-- A character of a string, escaped if it must be. -/
def writeChar (c : Char) : List Char :=
  if c = '"' then ['\\', '"']
  else if c = '\\' then ['\\', '\\']
  else if c = '\x08' then ['\\', 'b']
  else if c = '\x0c' then ['\\', 'f']
  else if c = '\n' then ['\\', 'n']
  else if c = '\r' then ['\\', 'r']
  else if c = '\t' then ['\\', 't']
  else if c.toNat < 0x20 then ['\\', 'u', '0', '0', hexDigit (c.toNat / 16), hexDigit (c.toNat % 16)]
  else [c]

/-- A string between quotes; one that was not read as characters is written as it was read. -/
def writeText : DocText → List Char
  | .plain s => '"' :: (s.toList.flatMap writeChar ++ ['"'])
  | .unpaired written => '"' :: (written.toList ++ ['"'])

mutual

/-- The characters that write a document. -/
def write : Doc → List Char
  | .null => ['n', 'u', 'l', 'l']
  | .bool true => ['t', 'r', 'u', 'e']
  | .bool false => ['f', 'a', 'l', 's', 'e']
  | .nat n => Nat.toDigits 10 n
  | .number written => written.toList
  | .text t => writeText t
  | .moment written => writeText (.plain written)
  | .list items => '[' :: writeItems items
  | .record members => '{' :: writeMembers members

/-- The items of a list and its closing bracket. -/
def writeItems : List Doc → List Char
  | [] => [']']
  | d :: rest => write d ++ writeMoreItems rest

/-- The items of a list after the first one, and its closing bracket. -/
def writeMoreItems : List Doc → List Char
  | [] => [']']
  | d :: rest => ',' :: (write d ++ writeMoreItems rest)

/-- The members of a record and its closing brace. -/
def writeMembers : List (DocText × Doc) → List Char
  | [] => ['}']
  | (name, d) :: rest => writeText name ++ (':' :: (write d ++ writeMoreMembers rest))

/-- The members of a record after the first one, and its closing brace. -/
def writeMoreMembers : List (DocText × Doc) → List Char
  | [] => ['}']
  | (name, d) :: rest => ',' :: (writeText name ++ (':' :: (write d ++ writeMoreMembers rest)))

end

/-- The text of a document. -/
def render (d : Doc) : String :=
  String.ofList (write d)

end FormSession.Json
