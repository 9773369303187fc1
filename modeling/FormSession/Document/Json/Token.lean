import FormSession.Document.Basic

/-! # Tokens of JSON

The text of a JSON document is a sequence of tokens: brackets, separators, words, numbers and strings,
with blanks between them. A number is the longest run of number characters, and must be well formed as a
whole. -/

namespace FormSession.Json

/-- A token. -/
inductive Token where
  | openList
  | closeList
  | openRecord
  | closeRecord
  | comma
  | colon
  | null
  | bool (value : Bool)
  | nat (value : Nat)
  | number (written : String)
  | text (value : DocText)
  deriving DecidableEq, Repr

/-- The characters that may stand between tokens. -/
def isBlank (c : Char) : Bool :=
  c == ' ' || c == '\t' || c == '\n' || c == '\r'

/-! ### Strings -/

/-- A part of a string: a character, or half of a surrogate pair by its number. -/
inductive Piece where
  | char (c : Char)
  | half (unit : Nat)
  deriving DecidableEq, Repr

/-- The value of a hexadecimal digit. -/
def hexDigit? (c : Char) : Option Nat :=
  if '0' ≤ c ∧ c ≤ '9' then some (c.toNat - '0'.toNat)
  else if 'a' ≤ c ∧ c ≤ 'f' then some (c.toNat - 'a'.toNat + 10)
  else if 'A' ≤ c ∧ c ≤ 'F' then some (c.toNat - 'A'.toNat + 10)
  else none

/-- The number that hexadecimal digits write. -/
def hexNumber? (digits : List Char) : Option Nat :=
  digits.foldlM (fun n c => (hexDigit? c).map (n * 16 + ·)) 0

/-- The character that a letter after a backslash stands for. -/
def escaped? : Char → Option Char
  | '"' => some '"'
  | '\\' => some '\\'
  | '/' => some '/'
  | 'b' => some '\x08'
  | 'f' => some '\x0c'
  | 'n' => some '\n'
  | 'r' => some '\r'
  | 't' => some '\t'
  | _ => none

/-- The numbers of the first halves of surrogate pairs. -/
def isHighHalf (unit : Nat) : Bool :=
  0xD800 ≤ unit && unit < 0xDC00

/-- The numbers of the second halves of surrogate pairs. -/
def isLowHalf (unit : Nat) : Bool :=
  0xDC00 ≤ unit && unit < 0xE000

/-- The part of a string that is written by its number. -/
def pieceOfUnit (unit : Nat) : Piece :=
  if isHighHalf unit || isLowHalf unit then .half unit else .char (Char.ofNat unit)

/-- The parts of a string up to its closing quote, and what follows it. -/
def pieces? : List Char → Option (List Piece × List Char)
  | [] => none
  | '"' :: rest => some ([], rest)
  | '\\' :: 'u' :: a :: b :: c :: d :: rest => do
    let unit ← hexNumber? [a, b, c, d]
    let (ps, rest) ← pieces? rest
    some (pieceOfUnit unit :: ps, rest)
  | '\\' :: e :: rest => do
    let c ← escaped? e
    let (ps, rest) ← pieces? rest
    some (.char c :: ps, rest)
  | c :: rest =>
    if c.toNat < 0x20 then none else do
      let (ps, rest) ← pieces? rest
      some (.char c :: ps, rest)

/-- The characters of a string: a first half must be followed by a second half, and makes one character
    with it. -/
def assemble? : List Piece → Option (List Char)
  | [] => some []
  | .char c :: rest => (assemble? rest).map (c :: ·)
  | .half high :: .half low :: rest =>
    if isHighHalf high && isLowHalf low then
      (assemble? rest).map (Char.ofNat (0x10000 + (high - 0xD800) * 0x400 + (low - 0xDC00)) :: ·)
    else none
  | .half _ :: _ => none

/-- The string that the given parts make; they are written at the start of a text, and a closing quote and
    the text after it follow them. -/
def textOf (pieces : List Piece) (text after : List Char) : DocText :=
  match assemble? pieces with
  | some cs => .plain (String.ofList cs)
  | none => .unpaired (String.ofList (text.take (text.length - after.length - 1)))

theorem pieces?_length {cs : List Char} {ps : List Piece} {rest : List Char}
    (h : pieces? cs = some (ps, rest)) : rest.length < cs.length := by
  fun_induction pieces? cs generalizing ps rest with
  | case1 => simp at h
  | case2 r =>
    simp only [Option.some.injEq, Prod.mk.injEq] at h
    simp [h.2]
  | case3 a b c d r ih =>
    simp only [Option.bind_eq_bind, Option.bind_eq_some_iff] at h
    obtain ⟨_, _, ⟨_, _⟩, h₁, h₂⟩ := h
    simp only [Option.some.injEq, Prod.mk.injEq] at h₂
    obtain ⟨_, rfl⟩ := h₂
    have := ih h₁
    simp only [List.length_cons]
    omega
  | case4 e r _ ih =>
    simp only [Option.bind_eq_bind, Option.bind_eq_some_iff] at h
    obtain ⟨_, _, ⟨_, _⟩, h₁, h₂⟩ := h
    simp only [Option.some.injEq, Prod.mk.injEq] at h₂
    obtain ⟨_, rfl⟩ := h₂
    have := ih h₁
    simp only [List.length_cons]
    omega
  | case5 => simp at h
  | case6 c r _ _ _ _ ih =>
    simp only [Option.bind_eq_bind, Option.bind_eq_some_iff] at h
    obtain ⟨⟨_, _⟩, h₁, h₂⟩ := h
    simp only [Option.some.injEq, Prod.mk.injEq] at h₂
    obtain ⟨_, rfl⟩ := h₂
    have := ih h₁
    simp only [List.length_cons]
    omega

/-! ### Numbers and words -/

/-- The characters of which numbers are made. -/
def isNumberChar (c : Char) : Bool :=
  c.isDigit || c == '-' || c == '+' || c == '.' || c == 'e' || c == 'E'

/-- One or more digits, and nothing else. -/
def isDigits (cs : List Char) : Bool :=
  !cs.isEmpty && cs.all Char.isDigit

/-- The rest of a number after its digits and its fraction. -/
def isExponent : List Char → Bool
  | [] => true
  | e :: '+' :: rest => (e == 'e' || e == 'E') && isDigits rest
  | e :: '-' :: rest => (e == 'e' || e == 'E') && isDigits rest
  | e :: rest => (e == 'e' || e == 'E') && isDigits rest

/-- The rest of a number after its whole digits. -/
def isFraction : List Char → Bool
  | '.' :: rest => isDigits (rest.takeWhile Char.isDigit) && isExponent (rest.dropWhile Char.isDigit)
  | rest => isExponent rest

/-- A number without its sign: digits that start with a zero only if there is no other one, then
    perhaps a fraction and an exponent. -/
def isUnsigned (cs : List Char) : Bool :=
  let whole := cs.takeWhile Char.isDigit
  isDigits whole && (whole == ['0'] || whole.head? != some '0') && isFraction (cs.dropWhile Char.isDigit)

/-- The number that decimal digits write. -/
def decimal (digits : List Char) : Nat :=
  digits.foldl (fun n c => n * 10 + (c.toNat - '0'.toNat)) 0

/-- A number that is one of digits alone is kept by its value, any other one as it is written. -/
def number? : List Char → Option Token
  | '-' :: cs => if isUnsigned cs then some (.number (String.ofList ('-' :: cs))) else none
  | cs =>
    if isUnsigned cs then
      some (if isDigits cs then .nat (decimal cs) else .number (String.ofList cs))
    else none

/-- The token that a word is. -/
def word? (cs : List Char) : Option Token :=
  if cs = ['n', 'u', 'l', 'l'] then some .null
  else if cs = ['t', 'r', 'u', 'e'] then some (.bool true)
  else if cs = ['f', 'a', 'l', 's', 'e'] then some (.bool false)
  else none

/-- The token that a single character is. -/
def mark? : Char → Option Token
  | '[' => some .openList
  | ']' => some .closeList
  | '{' => some .openRecord
  | '}' => some .closeRecord
  | ',' => some .comma
  | ':' => some .colon
  | _ => none

/-! ### Texts -/

/-- The tokens of a text. -/
def tokens? : List Char → Option (List Token)
  | [] => some []
  | c :: rest =>
    if isBlank c then tokens? rest
    else if c = '"' then
      match h : pieces? rest with
      | none => none
      | some (ps, after) =>
        have := pieces?_length h
        (tokens? after).map (.text (textOf ps rest after) :: ·)
    else if isNumberChar c && !c.isAlpha then
      (number? (c :: rest.takeWhile isNumberChar)).bind fun t =>
        (tokens? (rest.dropWhile isNumberChar)).map (t :: ·)
    else if c.isAlpha then
      (word? (c :: rest.takeWhile Char.isAlpha)).bind fun t =>
        (tokens? (rest.dropWhile Char.isAlpha)).map (t :: ·)
    else
      (mark? c).bind fun t => (tokens? rest).map (t :: ·)
  termination_by cs => cs.length
  decreasing_by
    · exact Nat.lt_succ_self _
    · exact Nat.lt_succ_of_lt this
    · exact Nat.lt_succ_of_le (List.dropWhile_suffix _).length_le
    · exact Nat.lt_succ_of_le (List.dropWhile_suffix _).length_le
    · exact Nat.lt_succ_self _

end FormSession.Json
