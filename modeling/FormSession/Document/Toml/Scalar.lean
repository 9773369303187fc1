import FormSession.Document.Json.Token

/-! # Numbers and moments of TOML

A number, a date or a time is the longest run of letters, digits and the signs that occur in them, and
must be well formed as a whole. Underscores may stand between digits. Whole numbers have 64 bits with a
sign; a fractional one must not exceed the greatest finite number of double precision. -/

namespace FormSession.Toml

open Json (isDigits decimal hexDigit?)

/-- The characters that numbers, dates and times are written with. -/
def isScalarChar (c : Char) : Bool :=
  c.isAlphanum || c == '+' || c == '-' || c == '_' || c == '.' || c == ':'

/-! ### Whole numbers -/

/-- The digits of a number, when each underscore stands between two of them. -/
def digits? (isDigit : Char → Bool) : List Char → Option (List Char)
  | [] => none
  | [c] => if isDigit c then some [c] else none
  | c :: '_' :: rest => if isDigit c then (digits? isDigit rest).map (c :: ·) else none
  | c :: rest => if isDigit c then (digits? isDigit rest).map (c :: ·) else none

/-- The number that digits to a base write; an underscore may stand between two of them. -/
def toBase? (base : Nat) (cs : List Char) : Option Nat := do
  let isDigit c := (hexDigit? c).any (· < base)
  let digits ← digits? isDigit cs
  digits.foldlM (fun n c => (hexDigit? c).map (n * base + ·)) 0

/-- Splits the sign off a number: whether it is a minus, and the rest. -/
def splitSign : List Char → Bool × List Char
  | '+' :: rest => (false, rest)
  | '-' :: rest => (true, rest)
  | cs => (false, cs)

/-- The digits of a decimal number without a sign; it does not start with a zero unless it is one. -/
def wholeDigits? (cs : List Char) : Option (List Char) := do
  let digits ← digits? Char.isDigit cs
  if digits.head? = some '0' ∧ cs ≠ ['0'] then none else some digits

/-- Whole numbers are below this number, 2^63, and at least its negative. -/
def wholeLimit : Nat := 9223372036854775808

/-- A whole number: decimal with or without a sign, or hexadecimal, octal or binary. -/
def integer? (cs : List Char) : Option Doc :=
  match cs with
  | '0' :: 'x' :: rest => (toBase? 16 rest).bind ofNat?
  | '0' :: 'o' :: rest => (toBase? 8 rest).bind ofNat?
  | '0' :: 'b' :: rest => (toBase? 2 rest).bind ofNat?
  | _ => do
    let (minus, rest) := splitSign cs
    let n := decimal (← wholeDigits? rest)
    if minus && n > 0 then
      if n ≤ wholeLimit then some (.number (String.ofList cs)) else none
    else ofNat? n
where
  /-- The document of a whole number without a sign. -/
  ofNat? (n : Nat) : Option Doc :=
    if n < wholeLimit then some (.nat n) else none

/-! ### Fractional numbers -/

/-- A decimal number: `digits * 10 ^ (scale - fraction)`. It exceeds the finite numbers of double
    precision from halfway between the greatest of them and 2 ^ 1024 on. -/
def overflows (digits : List Char) (minusScale : Bool) (scale fraction : Nat) : Bool :=
  let n := decimal digits
  let bound := Nat.pow 2 1024 - Nat.pow 2 970
  let places := (digits.dropWhile (· == '0')).length
  if n = 0 then false
  else if minusScale then
    if places > scale + fraction then n ≥ bound * Nat.pow 10 (scale + fraction) else false
  else if places + scale > fraction + 400 then true
  else if places + scale < fraction + 300 then false
  else n * Nat.pow 10 scale ≥ bound * Nat.pow 10 fraction

/-- The exponent of a number: whether it is negative, and its size; none stands for zero. -/
def exponent? : List Char → Option (Bool × Nat)
  | [] => some (false, 0)
  | c :: rest =>
    if c = 'e' ∨ c = 'E' then do
      let (minus, rest) := splitSign rest
      some (minus, decimal (← digits? Char.isDigit rest))
    else none

/-- A fractional number: whole digits, then a fraction or an exponent or both; or infinity, or no
    number. -/
def fractional? (cs : List Char) : Option Doc := do
  let (minus, rest) := splitSign cs
  if rest = ['i', 'n', 'f'] ∨ rest = ['n', 'a', 'n'] then some (.number (String.ofList cs))
  else
    let isPart (c : Char) := c.isDigit || c == '_'
    let whole ← wholeDigits? (rest.takeWhile isPart)
    let (fraction, tail) ← match rest.dropWhile isPart with
      | '.' :: tail => do
        let fraction ← digits? Char.isDigit (tail.takeWhile isPart)
        some (fraction, tail.dropWhile isPart)
      | [] => none
      | tail => some ([], tail)
    let (minusScale, scale) ← exponent? tail
    if !minus && overflows (whole ++ fraction) minusScale scale fraction.length then none
    else some (.number (String.ofList cs))

/-! ### Dates and times -/

/-- A number of two digits within bounds, and what follows it. -/
def twoDigits? (least greatest : Nat) : List Char → Option (Nat × List Char)
  | a :: b :: rest =>
    let n := decimal [a, b]
    if isDigits [a, b] && least ≤ n && n ≤ greatest then some (n, rest) else none
  | _ => none

/-- The number of days of a month in a year. -/
def daysOfMonth (year month : Nat) : Nat :=
  if month = 2 then
    if year % 4 = 0 ∧ (year % 100 ≠ 0 ∨ year % 400 = 0) then 29 else 28
  else if month = 4 ∨ month = 6 ∨ month = 9 ∨ month = 11 then 30
  else 31

/-- What follows a character. -/
def after? (c : Char) : List Char → Option (List Char)
  | d :: rest => if d = c then some rest else none
  | [] => none

/-- What follows a date: a year of four digits, a month and a day that the month has. -/
def afterDate? (cs : List Char) : Option (List Char) := do
  let year := cs.take 4
  if year.length < 4 ∨ !isDigits year then none
  else
    let (month, rest) ← twoDigits? 1 12 (← after? '-' (cs.drop 4))
    let (day, rest) ← twoDigits? 1 31 (← after? '-' rest)
    if day ≤ daysOfMonth (decimal year) month then some rest else none

/-- What follows a time: hours, minutes, seconds up to a leap second, and perhaps a fraction. -/
def afterTime? (cs : List Char) : Option (List Char) := do
  let (_, rest) ← twoDigits? 0 23 cs
  let (_, rest) ← twoDigits? 0 59 (← after? ':' rest)
  let (_, rest) ← twoDigits? 0 60 (← after? ':' rest)
  match rest with
  | '.' :: tail => if isDigits (tail.takeWhile Char.isDigit) then some (tail.dropWhile Char.isDigit) else none
  | _ => some rest

/-- What may follow the time of a date: nothing, the letter for universal time, or an offset from it. -/
def isOffset : List Char → Bool
  | [] => true
  | ['Z'] => true
  | ['z'] => true
  | sign :: rest =>
    (sign == '+' || sign == '-') &&
      match twoDigits? 0 23 rest with
      | some (_, ':' :: rest) => (twoDigits? 0 59 rest).any fun (_, rest) => rest.isEmpty
      | _ => false

/-- A time with an offset, as it follows a date. -/
def isTimeOfDate (cs : List Char) : Bool :=
  (afterTime? cs).any isOffset

/-- A date and nothing else. -/
def isDate (cs : List Char) : Bool :=
  (afterDate? cs).any (·.isEmpty)

/-- A date and a time, or one of them. -/
def isMoment (cs : List Char) : Bool :=
  (afterTime? cs).any (·.isEmpty) ||
    match afterDate? cs with
    | some [] => true
    | some (t :: rest) => (t == 'T' || t == 't') && isTimeOfDate rest
    | none => false

/-- The value that is written without quotes or brackets. -/
def scalar? (cs : List Char) : Option Doc :=
  if isMoment cs then some (.moment (String.ofList cs))
  else if cs = ['t', 'r', 'u', 'e'] then some (.bool true)
  else if cs = ['f', 'a', 'l', 's', 'e'] then some (.bool false)
  else integer? cs <|> fractional? cs

end FormSession.Toml
