import FormSession.Text.Invisible
import FormSession.Text.Extending

/-! # Quoted text

Messages and accounts quote names. A quoted name stands between double quotes; the quote, the backslash and
four control characters are written with a backslash, and characters that cannot be seen, or that would
be drawn onto the one before, by number. -/

namespace FormSession.Text

/-- A character by its number, in hexadecimal digits without leading zeros. -/
def byNumber (c : Char) : List Char :=
  ['\\', 'u', '{'] ++ Nat.toDigits 16 c.toNat ++ ['}']

/-- How a character is written between double quotes. -/
def quoteChar (c : Char) : List Char :=
  if c = '\x00' then ['\\', '0']
  else if c = '\t' then ['\\', 't']
  else if c = '\r' then ['\\', 'r']
  else if c = '\n' then ['\\', 'n']
  else if c = '\\' then ['\\', '\\']
  else if c = '"' then ['\\', '"']
  else if ' ' ≤ c ∧ c ≤ '~' then [c]
  else if isExtending c.toNat || isInvisible c.toNat then byNumber c
  else [c]

/-- A text between double quotes. -/
def quote (s : String) : String :=
  String.ofList ('"' :: (s.toList.flatMap quoteChar ++ ['"']))

/-! ### Accounts

An account is a one-line text that shows a list, a map or the parts of something. -/

/-- Items in square brackets. -/
def account (items : List String) : String :=
  "[" ++ ", ".intercalate items ++ "]"

/-- A text between braces. -/
def inBraces (s : String) : String :=
  String.singleton '{' ++ s ++ String.singleton '}'

/-- Entries in braces, each as its name in quotes and its text. -/
def accountOfEntries (entries : List (String × String)) : String :=
  inBraces (", ".intercalate (entries.map fun (name, text) => quote name ++ ": " ++ text))

/-- The parts of something of a given kind; an open account ends in dots. -/
def accountOfParts (kind : String) (parts : List (String × String)) (isOpen : Bool) : String :=
  let shown := parts.map (fun (name, text) => name ++ ": " ++ text) ++ (if isOpen then [".."] else [])
  kind ++ " " ++ inBraces (" " ++ ", ".intercalate shown ++ " ")

end FormSession.Text
