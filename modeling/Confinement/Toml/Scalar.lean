import Confinement.Decimal.Shortest
import Confinement.Toml.Item

/-!
# TOML scalars

Readers for white space, comments, strings, numbers and dates. Every reader takes the text and gives
what it read and the rest, or nothing if the text does not start with one.
-/
namespace Confinement.Toml

abbrev Reader (α : Type) := List Char → Option (α × List Char)

def isBlank (c : Char) : Bool := c == ' ' || c == '\t'

def skipBlanks (s : List Char) : List Char := s.dropWhile isBlank

/-- Tab and everything printable: no other control characters. -/
def isTextChar (c : Char) : Bool := c == '\t' || (c.toNat ≥ 0x20 && c.toNat != 0x7F)

/-- The rest after a line break. -/
def newline? : List Char → Option (List Char)
  | '\n' :: rest => some rest
  | '\r' :: '\n' :: rest => some rest
  | _ => none

def skipComment : List Char → List Char
  | '#' :: rest => rest.dropWhile isTextChar
  | s => s

/-- The rest after the blanks, comment and line break that end a line, or at the end of the text. -/
def lineEnd? (s : List Char) : Option (List Char) :=
  match skipComment (skipBlanks s) with
  | [] => some []
  | rest => newline? rest

/-- Skips blanks, comments and line breaks, as between the items of an array. -/
def skipLines : Nat → List Char → List Char
  | 0, s => s
  | fuel + 1, s =>
    let rest := skipComment (skipBlanks s)
    match newline? rest with
    | some after => skipLines fuel after
    | none => rest

def hexValue? (c : Char) : Option Nat :=
  if c.isDigit then some (c.toNat - '0'.toNat)
  else if 'a' ≤ c && c ≤ 'f' then some (c.toNat - 'a'.toNat + 10)
  else if 'A' ≤ c && c ≤ 'F' then some (c.toNat - 'A'.toNat + 10)
  else none

/-- A character given by `n` hexadecimal digits; surrogates are no characters. -/
def unicodeEscape (n : Nat) : Reader Char := fun s => do
  let digits := s.take n
  if digits.length != n then none
  let code ← digits.foldlM (fun v c => (hexValue? c).map (16 * v + ·)) 0
  if h : code.isValidChar then some (Char.ofNatAux code h, s.drop n) else none

/-- What stands for one character after a backslash. -/
def escape : Reader Char
  | 'b' :: rest => some ('\x08', rest)
  | 'f' :: rest => some ('\x0c', rest)
  | 'n' :: rest => some ('\n', rest)
  | 'r' :: rest => some ('\r', rest)
  | 't' :: rest => some ('\t', rest)
  | '\x22' :: rest => some ('\x22', rest)
  | '\\' :: rest => some ('\\', rest)
  | 'u' :: rest => unicodeEscape 4 rest
  | 'U' :: rest => unicodeEscape 8 rest
  | _ => none

/-- A basic string after its opening quote; `out` is what was read, last character first. -/
def basicFrom (out : List Char) : Nat → Reader String
  | 0, _ => none
  | _, [] => none
  | _, '\x22' :: rest => some (String.ofList out.reverse, rest)
  | fuel + 1, '\\' :: rest => do
    let (c, rest) ← escape rest
    basicFrom (c :: out) fuel rest
  | fuel + 1, c :: rest => if isTextChar c then basicFrom (c :: out) fuel rest else none

/-- A literal string after its opening quote. -/
def literalFrom (out : List Char) : Reader String
  | [] => none
  | '\x27' :: rest => some (String.ofList out.reverse, rest)
  | c :: rest => if isTextChar c then literalFrom (c :: out) rest else none

/-- Skips blanks and line breaks after a backslash at the end of a line. -/
def skipFolded : Nat → List Char → List Char
  | 0, s => s
  | fuel + 1, s =>
    let rest := skipBlanks s
    match newline? rest with
    | some after => skipFolded fuel after
    | none => rest

/-- A text of several lines after its opening quotes. Three quotes end it, and one or two more
before them belong to the text. Escapes count only where `escapes` says so. -/
def multilineFrom (quote : Char) (escapes : Bool) (out : List Char) : Nat → Reader String
  | 0, _ => none
  | _, [] => none
  | fuel + 1, c :: rest =>
    if c == quote then
      let quotes := c :: rest.takeWhile (· == quote)
      if quotes.length < 3 then
        multilineFrom quote escapes (quotes ++ out) fuel (rest.drop (quotes.length - 1))
      else
        let extra := min (quotes.length - 3) 2
        some (String.ofList ((List.replicate extra quote ++ out).reverse), rest.drop (2 + extra))
    else if c == '\\' && escapes then
      match newline? (skipBlanks rest) with
      | some after => multilineFrom quote escapes out fuel (skipFolded after.length after)
      | none =>
        match escape rest with
        | some (e, rest) => multilineFrom quote escapes (e :: out) fuel rest
        | none => none
    else match newline? (c :: rest) with
      | some after => multilineFrom quote escapes ('\n' :: out) fuel after
      | none =>
        if isTextChar c then multilineFrom quote escapes (c :: out) fuel rest else none

/-- A text of several lines; a line break right after the opening quotes is not part of it. -/
def multiline (quote : Char) (escapes : Bool) (s : List Char) : Option (String × List Char) :=
  let body := (newline? s).getD s
  multilineFrom quote escapes [] (body.length + 1) body

/-- A string in one of its four forms. -/
def string : Reader String
  | '\x22' :: '\x22' :: '\x22' :: rest => multiline '\x22' true rest
  | '\x22' :: rest => basicFrom [] (rest.length + 1) rest
  | '\x27' :: '\x27' :: '\x27' :: rest => multiline '\x27' false rest
  | '\x27' :: rest => literalFrom [] rest
  | _ => none

/-- A run of digits with single underscores between them, without the underscores. -/
def digitRun (isDigit : Char → Bool) : Nat → Reader (List Char)
  | 0, _ => none
  | _, [] => none
  | fuel + 1, c :: rest =>
    if isDigit c then
      match rest with
      | '_' :: after => (digitRun isDigit fuel after).map fun p => (c :: p.1, p.2)
      | d :: _ =>
        if isDigit d then (digitRun isDigit fuel rest).map fun p => (c :: p.1, p.2)
        else some ([c], rest)
      | [] => some ([c], [])
    else none

def digits (isDigit : Char → Bool) (s : List Char) : Option (List Char × List Char) :=
  digitRun isDigit s.length s

/-- An optional sign: whether it is a minus, and the rest. -/
def sign : List Char → Bool × List Char
  | '-' :: rest => (true, rest)
  | '+' :: rest => (false, rest)
  | s => (false, s)

/-- The digits of a decimal number without needless zeros in front. -/
def decimalDigits (s : List Char) : Option (List Char × List Char) :=
  match s with
  | '0' :: rest => some (['0'], rest)
  | s => digits Char.isDigit s

def inRange (n : Int) : Bool := -(Nat.pow 2 63 : Int) ≤ n && n < (Nat.pow 2 63 : Int)

def signed (negative : Bool) (n : Nat) : Int := if negative then -(n : Int) else n

def radixInteger (base : Nat) (isDigit : Char → Bool) (s : List Char) :
    Option (Item × List Char) := do
  let (ds, rest) ← digits isDigit s
  let n := ds.foldl (fun v c => base * v + (hexValue? c).getD 0) 0
  if inRange n then some (.integer n, rest) else none

/-- A whole number, in base ten with a sign or in base two, eight or sixteen without. -/
def integer : Reader Item
  | '0' :: 'x' :: rest => radixInteger 16 (fun c => (hexValue? c).isSome) rest
  | '0' :: 'o' :: rest => radixInteger 8 (fun c => '0' ≤ c && c ≤ '7') rest
  | '0' :: 'b' :: rest => radixInteger 2 (fun c => c == '0' || c == '1') rest
  | s => do
    let (negative, s) := sign s
    let (ds, rest) ← decimalDigits s
    let n := signed negative (Decimal.digitsValue ds)
    if inRange n then some (.integer n, rest) else none

/-- The power of ten behind the letter `e`, if there is one. -/
def exponent? : List Char → Option (Option Int × List Char)
  | c :: rest =>
    if c == 'e' || c == 'E' then do
      let (negative, rest) := sign rest
      let (ds, rest) ← digits Char.isDigit rest
      some (some (signed negative (Decimal.digitsValue ds)), rest)
    else some (none, c :: rest)
  | [] => some (none, [])

/-- The digits behind the point, if there is one. -/
def fraction? : List Char → Option (Option (List Char) × List Char)
  | '.' :: rest => (digits Char.isDigit rest).map fun p => (some p.1, p.2)
  | s => some (none, s)

def infinity : Float := 1.0 / 0.0

def notANumber : Float := 0.0 / 0.0

/-- A number with a fraction, an exponent or both. A positive number beyond the range of floats is
refused. -/
def decimalFloat (s : List Char) : Option (Item × List Char) := do
  let (negative, s) := sign s
  let (whole, s) ← decimalDigits s
  let (fraction, s) ← fraction? s
  let (exponent, rest) ← exponent? s
  if fraction.isNone && exponent.isNone then none
  let places := fraction.getD []
  let size := Decimal.toFloat (Decimal.digitsValue (whole ++ places))
    (exponent.getD 0 - places.length)
  let x := if negative then -size else size
  if x == infinity then none else some (.float x, rest)

def namedFloat (s : List Char) : Option (Item × List Char) :=
  let (negative, s) := sign s
  match s with
  | 'i' :: 'n' :: 'f' :: rest => some (.float (if negative then -infinity else infinity), rest)
  | 'n' :: 'a' :: 'n' :: rest => some (.float notANumber, rest)
  | _ => none

/-- Exactly `n` digits, as a number. -/
def fixedDigits (n : Nat) (s : List Char) : Option (Nat × List Char) :=
  let ds := s.take n
  if ds.length == n && ds.all Char.isDigit then some (Decimal.digitsValue ds, s.drop n) else none

def expect (c : Char) : List Char → Option (List Char)
  | d :: rest => if d == c then some rest else none
  | [] => none

def daysIn (year month : Nat) : Nat :=
  if month == 2 then
    if year % 4 == 0 && (year % 100 != 0 || year % 400 == 0) then 29 else 28
  else if month == 4 || month == 6 || month == 9 || month == 11 then 30
  else 31

/-- A number in two digits at least. -/
def twoDigits (n : Nat) : String := if n < 10 then s!"0{n}" else toString n

/-- A date that is in the calendar. -/
def date (s : List Char) : Option (String × List Char) := do
  let (year, afterYear) ← fixedDigits 4 s
  let (month, afterMonth) ← fixedDigits 2 (← expect '-' afterYear)
  let (day, rest) ← fixedDigits 2 (← expect '-' afterMonth)
  if 1 ≤ month && month ≤ 12 && 1 ≤ day && day ≤ daysIn year month then
    some (String.ofList (s.take 10), rest)
  else none

/-- A fraction of a second, if there is one: nine digits count, and zeros at the end do not. -/
def secondFraction (s : List Char) : Option (String × List Char) :=
  match s with
  | '.' :: rest =>
    match rest.takeWhile Char.isDigit with
    | [] => none
    | ds =>
      let kept := ((ds.take 9).reverse.dropWhile (· == '0')).reverse
      let written := if kept.isEmpty then "" else "." ++ String.ofList kept
      some (written, rest.dropWhile Char.isDigit)
  | s => some ("", s)

/-- A time of day, with or without a fraction of a second. -/
def time (s : List Char) : Option (String × List Char) := do
  let (hour, afterHour) ← fixedDigits 2 s
  let (minute, afterMinute) ← fixedDigits 2 (← expect ':' afterHour)
  let (second, rest) ← fixedDigits 2 (← expect ':' afterMinute)
  if hour > 23 || minute > 59 || second > 60 then none
  let (fraction, rest) ← secondFraction rest
  some (String.ofList (s.take 8) ++ fraction, rest)

/-- The distance from universal time, if one is given. No distance is written with a plus. -/
def offset (s : List Char) : Option (String × List Char) :=
  match s with
  | 'Z' :: rest | 'z' :: rest => some ("Z", rest)
  | c :: rest =>
    if c == '+' || c == '-' then do
      let (hour, afterHour) ← fixedDigits 2 rest
      let (minute, rest) ← fixedDigits 2 (← expect ':' afterHour)
      if hour > 23 || minute > 59 then none
      let sign := if c == '-' && hour + minute != 0 then "-" else "+"
      some (sign ++ twoDigits hour ++ ":" ++ twoDigits minute, rest)
    else some ("", s)
  | [] => some ("", [])

/-- A date, a time, or both, in canonical form. -/
def datetimeText (s : List Char) : Option (String × List Char) :=
  match date s with
  | none => time s
  | some (day, afterDate) =>
    match afterDate with
    | c :: rest =>
      if c == 'T' || c == 't' || c == ' ' then
        match time rest with
        | some (clock, afterTime) =>
          (offset afterTime).map fun p => (day ++ "T" ++ clock ++ p.1, p.2)
        | none => some (day, afterDate)
      else some (day, afterDate)
    | [] => some (day, [])

def datetime (s : List Char) : Option (Item × List Char) :=
  (datetimeText s).map fun p => (.datetime p.1, p.2)

/-- A date, a number or a truth value. -/
def scalar : Reader Item
  | 't' :: 'r' :: 'u' :: 'e' :: rest => some (.boolean true, rest)
  | 'f' :: 'a' :: 'l' :: 's' :: 'e' :: rest => some (.boolean false, rest)
  | s => (datetime s).or ((decimalFloat s).or ((namedFloat s).or (integer s)))

end Confinement.Toml
