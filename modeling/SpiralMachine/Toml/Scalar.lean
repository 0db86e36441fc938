import SpiralMachine.Number.Numeral
import SpiralMachine.Text.Reader
import SpiralMachine.Toml.Basic

/-!
# TOML scalars and strings

Readers of strings in their four forms, of numbers, and of dates and times. A number or
moment is read as far as its grammar goes; what must follow is decided by its place.
-/

set_option autoImplicit false

namespace SpiralMachine.Toml

open Number (Numeral)
open Text (Reader digitValue? digitsValue hexValue?)

def isSpace (c : Char) : Bool := c = ' ' || c = '\t'

def skipSpace (text : List Char) : List Char := text.dropWhile isSpace

/-- The rest after a line feed, alone or after a carriage return. -/
def newline? : List Char → Option (List Char)
  | '\n' :: rest => some rest
  | '\r' :: '\n' :: rest => some rest
  | _ => none

/-- Tabs and everything that is no control character. -/
def isPrintable (c : Char) : Bool :=
  c = '\t' || 0x20 ≤ c.toNat && c.toNat ≠ 0x7F

/-! ### Strings -/

/-- The character that a one-letter escape stands for. -/
def escaped? : Char → Option Char
  | 'b' => some '\x08'
  | 't' => some '\t'
  | 'n' => some '\n'
  | 'f' => some '\x0c'
  | 'r' => some '\r'
  | '"' => some '"'
  | '\\' => some '\\'
  | _ => none

/-- The character with a code point, which must not be half of a surrogate pair. -/
def charOf? (code : Nat) : Option Char :=
  if code.isValidChar then some (Char.ofNat code) else none

/-- What follows a backslash, as a character. -/
def escape? : Reader Char := fun
  | 'u' :: a :: b :: c :: d :: rest => do
    some (← charOf? (← hexValue? [a, b, c, d]), rest)
  | 'U' :: a :: b :: c :: d :: e :: f :: g :: h :: rest => do
    some (← charOf? (← hexValue? [a, b, c, d, e, f, g, h]), rest)
  | c :: rest => (escaped? c).map (·, rest)
  | [] => none

/-- The rest of a basic string after its opening quote. -/
def basicChars? : (bound : Nat) → Reader (List Char)
  | 0, _ => none
  | bound + 1, text =>
    match text with
    | [] => none
    | '"' :: rest => some ([], rest)
    | '\\' :: rest => do
      let (c, rest) ← escape? rest
      let (chars, rest) ← basicChars? bound rest
      some (c :: chars, rest)
    | c :: rest =>
      if isPrintable c then do
        let (chars, rest) ← basicChars? bound rest
        some (c :: chars, rest)
      else none

/-- The rest of a literal string after its opening quote. -/
def literalChars? : Reader (List Char)
  | [] => none
  | '\'' :: rest => some ([], rest)
  | c :: rest =>
    if isPrintable c then do
      let (chars, rest) ← literalChars? rest
      some (c :: chars, rest)
    else none

/-- Blanks and line ends. -/
def skipLines : List Char → List Char
  | ' ' :: rest => skipLines rest
  | '\t' :: rest => skipLines rest
  | '\n' :: rest => skipLines rest
  | '\r' :: '\n' :: rest => skipLines rest
  | text => text

/-- The text after a backslash that ends its line, without the blanks that follow. -/
def continued? (text : List Char) : Option (List Char) :=
  (newline? (skipSpace text)).map skipLines

/-- The end of a string that closes with three of `quote`: of a run of up to five the
first two may belong to the string. -/
def closing? (quote : Char) (text : List Char) : Option (List Char × List Char) :=
  let quotes := text.takeWhile (· = quote)
  if 3 ≤ quotes.length ∧ quotes.length ≤ 5 then
    some (quotes.drop 3, text.drop quotes.length)
  else none

/-- The rest of a string over several lines. Only a basic one has escapes. -/
def longChars? (quote : Char) (escapes : Bool) : (bound : Nat) → Reader (List Char)
  | 0, _ => none
  | bound + 1, text =>
    match closing? quote text, newline? text with
    | some found, _ => some found
    | none, some rest => do
      let (chars, rest) ← longChars? quote escapes bound rest
      some ('\n' :: chars, rest)
    | none, none =>
      match text with
      | [] => none
      | c :: rest =>
        if c = '\\' ∧ escapes then
          match continued? rest with
          | some rest => longChars? quote escapes bound rest
          | none => do
            let (c, rest) ← escape? rest
            let (chars, rest) ← longChars? quote escapes bound rest
            some (c :: chars, rest)
        else if c = quote ∧ 5 < (text.takeWhile (· = quote)).length then none
        else if isPrintable c then do
          let (chars, rest) ← longChars? quote escapes bound rest
          some (c :: chars, rest)
        else none

/-- A string over several lines after its opening quotes; a line end there is dropped. -/
def longString? (quote : Char) (escapes : Bool) : Reader (List Char) := fun text ↦
  longChars? quote escapes (text.length + 1) ((newline? text).getD text)

/-- A string on one line. -/
def shortString? : Reader String := fun text ↦
  match text with
  | '"' :: rest => (basicChars? (rest.length + 1) rest).map fun (chars, rest) ↦
    (String.ofList chars, rest)
  | '\'' :: rest => (literalChars? rest).map fun (chars, rest) ↦ (String.ofList chars, rest)
  | _ => none

def string? : Reader String := fun text ↦
  match text with
  | '"' :: '"' :: '"' :: rest => (longString? '"' true rest).map fun (chars, rest) ↦
    (String.ofList chars, rest)
  | '\'' :: '\'' :: '\'' :: rest => (longString? '\'' false rest).map fun (chars, rest) ↦
    (String.ofList chars, rest)
  | text => shortString? text

/-! ### Numbers -/

def isDigit (base : Nat) (c : Char) : Bool := (digitValue? c).any (· < base)

/-- Digits of a base, at least one; an underscore may stand between two. -/
def digits? (base : Nat) : Reader (List Char)
  | [] => none
  | [c] => if isDigit base c then some ([c], []) else none
  | c :: '_' :: rest =>
    if isDigit base c then
      (digits? base rest).map fun (digits, rest) ↦ (c :: digits, rest)
    else none
  | c :: next :: rest =>
    if !isDigit base c then none
    else if isDigit base next then
      (digits? base (next :: rest)).map fun (digits, rest) ↦ (c :: digits, rest)
    else some ([c], next :: rest)

def sign (text : List Char) : Bool × List Char :=
  match text with
  | '-' :: rest => (true, rest)
  | '+' :: rest => (false, rest)
  | _ => (false, text)

/-- Decimal digits that do not start with zero, or zero alone. -/
def wholeDigits? : Reader (List Char) := fun text ↦
  match text with
  | '0' :: rest => some (['0'], rest)
  | _ => digits? 10 text

/-- The digits after a point, none if there is no point. -/
def fraction? : Reader (List Char) := fun text ↦
  match text with
  | '.' :: rest => digits? 10 rest
  | _ => some ([], text)

def exponent? : Reader (Option Int) := fun text ↦
  match text with
  | 'e' :: rest | 'E' :: rest => do
    let (negative, rest) := sign rest
    let (digits, rest) ← digits? 10 rest
    let value : Int := digitsValue 10 digits
    some (some (if negative then -value else value), rest)
  | _ => some (none, text)

/-- A whole number must fit into 64 bits with its sign. -/
def ofInteger? (value : Int) : Option Toml :=
  if -0x8000000000000000 ≤ value ∧ value < 0x8000000000000000 then some (integer value) else none

/-- A float that is too large is refused, one that is too small is minus infinity. -/
def ofFloat? (number : Numeral) : Option Toml :=
  let value := number.nearest
  if value.isFinite || number.negative then some (float value) else none

def decimalNumber? : Reader Toml := fun text ↦ do
  let (negative, text) := sign text
  let (whole, text) ← wholeDigits? text
  let (fraction, text) ← fraction? text
  let (exponent, text) ← exponent? text
  if fraction.isEmpty && exponent.isNone then
    let size : Int := digitsValue 10 whole
    some (← ofInteger? (if negative then -size else size), text)
  else
    let number : Numeral :=
      { negative
        coefficient := digitsValue 10 (whole ++ fraction)
        power := exponent.getD 0 - fraction.length
        whole := false }
    some (← ofFloat? number, text)

def baseNumber? (base : Nat) : Reader Toml := fun text ↦ do
  let (digits, text) ← digits? base text
  some (← ofInteger? (digitsValue base digits), text)

/-- Infinity and the undefined number. -/
def specialFloat? : Reader Toml := fun text ↦
  let (negative, text) := sign text
  match text with
  | 'i' :: 'n' :: 'f' :: rest => some (float (if negative then -(1.0 / 0.0) else 1.0 / 0.0), rest)
  | 'n' :: 'a' :: 'n' :: rest => some (float (0.0 / 0.0), rest)
  | _ => none

def number? : Reader Toml := fun text ↦
  match text with
  | '0' :: 'x' :: rest => baseNumber? 16 rest
  | '0' :: 'o' :: rest => baseNumber? 8 rest
  | '0' :: 'b' :: rest => baseNumber? 2 rest
  | _ => (specialFloat? text).or (decimalNumber? text)

/-! ### Dates and times -/

/-- A number of exactly so many digits, between two bounds. -/
def fixedNumber? (width low high : Nat) : Reader Nat := fun text ↦
  let digits := text.take width
  let value := digitsValue 10 digits
  if digits.length = width ∧ digits.all Char.isDigit ∧ low ≤ value ∧ value ≤ high then
    some (value, text.drop width)
  else none

def exactly? (c : Char) : List Char → Option (List Char)
  | other :: rest => if other = c then some rest else none
  | [] => none

def daysOfMonth (year month : Nat) : Nat :=
  let isLeap := year % 4 = 0 ∧ (year % 100 ≠ 0 ∨ year % 400 = 0)
  if month = 2 then if isLeap then 29 else 28
  else if month ∈ [4, 6, 9, 11] then 30
  else 31

/-- The rest after a date that exists. -/
def date? (text : List Char) : Option (List Char) := do
  let (year, text) ← fixedNumber? 4 0 9999 text
  let text ← exactly? '-' text
  let (month, text) ← fixedNumber? 2 1 12 text
  let text ← exactly? '-' text
  let (_, text) ← fixedNumber? 2 1 (daysOfMonth year month) text
  some text

/-- The rest after a time of day, with parts of a second. -/
def time? (text : List Char) : Option (List Char) := do
  let (_, text) ← fixedNumber? 2 0 23 text
  let text ← exactly? ':' text
  let (_, text) ← fixedNumber? 2 0 59 text
  let text ← exactly? ':' text
  let (_, text) ← fixedNumber? 2 0 60 text
  match text with
  | '.' :: rest =>
    if rest.head?.any Char.isDigit then some (rest.dropWhile Char.isDigit) else some text
  | _ => some text

/-- The rest after a time zone, if there is one. -/
def zone? (text : List Char) : Option (List Char) :=
  match text with
  | 'Z' :: rest | 'z' :: rest => some rest
  | '+' :: rest | '-' :: rest => do
    let (_, rest) ← fixedNumber? 2 0 23 rest
    let rest ← exactly? ':' rest
    let (_, rest) ← fixedNumber? 2 0 59 rest
    some rest
  | _ => some text

/-- The rest after what may follow a date: a time, and with it a zone. -/
def afterDate? (text : List Char) : Option (List Char) :=
  match text with
  | 'T' :: rest | 't' :: rest => do zone? (← time? rest)
  | ' ' :: rest =>
    match time? rest with
    | some rest => zone? rest
    | none => some text
  | _ => some text

def moment? : Reader Toml := fun text ↦
  match date? text with
  | some rest => (afterDate? rest).map (moment, ·)
  | none => (time? text).map (moment, ·)

end SpiralMachine.Toml
