import SpiralMachine.Json.Basic
import SpiralMachine.Number.Numeral
import SpiralMachine.Text.Reader

/-!
# JSON documents

A document is JSON text taken apart by its grammar and nothing else: a numeral of any
size, a string whose escapes may leave half of a surrogate pair, members in their order
and with repeats, any depth. What such a document means, as a value or as a record with
known fields, is decided by the readers of that meaning; a part nobody asks for only
has to be well formed.
-/

set_option autoImplicit false

namespace SpiralMachine.Json

open Number (Numeral)
open Text (Reader digitsValue hexValue?)

/-- A part of a string: a character, or half of a surrogate pair. -/
inductive Piece where
  | char (value : Char)
  | half (unit : Nat)
  deriving DecidableEq, Repr

inductive Document where
  | null
  | boolean (value : Bool)
  | numeral (value : Numeral)
  | quoted (pieces : List Piece)
  | list (items : List Document)
  | object (members : List (List Piece × Document))
  deriving Inhabited

namespace Document

def isSpace (c : Char) : Bool :=
  c = ' ' || c = '\t' || c = '\n' || c = '\r'

def skipSpace (text : List Char) : List Char := text.dropWhile isSpace

/-- One digit zero, or digits that do not start with zero. -/
def wholePart? (text : List Char) : Option (List Char × List Char) :=
  match text with
  | '0' :: rest => some (['0'], rest)
  | _ =>
    match text.span Char.isDigit with
    | ([], _) => none
    | found => some found

/-- The digits after a point, none if there is no point. -/
def fractionPart? (text : List Char) : Option (List Char × List Char) :=
  match text with
  | '.' :: rest =>
    match rest.span Char.isDigit with
    | ([], _) => none
    | found => some found
  | _ => some ([], text)

/-- The number after `e` or `E`, if there is an exponent. -/
def exponentPart? (text : List Char) : Option (Option Int × List Char) :=
  match text with
  | 'e' :: rest | 'E' :: rest =>
    let (negative, digits) := match rest with
      | '-' :: digits => (true, digits)
      | '+' :: digits => (false, digits)
      | digits => (false, digits)
    match digits.span Char.isDigit with
    | ([], _) => none
    | (digits, rest) =>
      let value : Int := digitsValue 10 digits
      some (some (if negative then -value else value), rest)
  | _ => some (none, text)

def numeral? (text : List Char) : Option (Numeral × List Char) := do
  let (negative, text) := match text with
    | '-' :: rest => (true, rest)
    | _ => (false, text)
  let (whole, text) ← wholePart? text
  let (fraction, text) ← fractionPart? text
  let (exponent, text) ← exponentPart? text
  let number : Numeral :=
    { negative
      coefficient := digitsValue 10 (whole ++ fraction)
      power := exponent.getD 0 - fraction.length
      whole := fraction.isEmpty && exponent.isNone }
  some (number, text)

def isHalf (unit : Nat) : Bool := 0xD800 ≤ unit && unit < 0xE000

def pieceOfUnit (unit : Nat) : Piece :=
  if isHalf unit then .half unit else .char (Char.ofNat unit)

/-- The character that a one-letter escape stands for. -/
def escaped? : Char → Option Char
  | '"' => some '"'
  | '\\' => some '\\'
  | '/' => some '/'
  | 'b' => some '\x08'
  | 'f' => some '\x0c'
  | 'n' => some '\n'
  | 'r' => some '\r'
  | 't' => some '\t'
  | _ => none

/-- The rest of a string after its opening quote. Control characters must be escaped. -/
def pieces? : List Char → Option (List Piece × List Char)
  | [] => none
  | '"' :: rest => some ([], rest)
  | '\\' :: 'u' :: a :: b :: c :: d :: rest => do
    let unit ← hexValue? [a, b, c, d]
    let (pieces, rest) ← pieces? rest
    some (pieceOfUnit unit :: pieces, rest)
  | '\\' :: c :: rest => do
    let char ← escaped? c
    let (pieces, rest) ← pieces? rest
    some (.char char :: pieces, rest)
  | c :: rest =>
    if c.toNat < 0x20 then none
    else do
      let (pieces, rest) ← pieces? rest
      some (.char c :: pieces, rest)

/-- The items of a list up to its closing bracket, at least one and at most `bound`, each
followed by a comma or the end. -/
def items? {α : Type} (item? : Reader α) (close : Char) :
    (bound : Nat) → Reader (List α)
  | 0, _ => none
  | bound + 1, text => do
    let (item, text) ← item? text
    match skipSpace text with
    | ',' :: rest =>
      let (items, rest) ← items? item? close bound rest
      some (item :: items, rest)
    | c :: rest => if c = close then some ([item], rest) else none
    | [] => none

/-- What follows an opening bracket, with at most `bound` items. -/
def bracketed? {α : Type} (item? : Reader α) (close : Char) (bound : Nat) :
    Reader (List α) := fun text ↦
  match skipSpace text with
  | [] => none
  | c :: rest => if c = close then some ([], rest) else items? item? close bound text

/-- A quoted key, a colon and a value. -/
def member? (value? : Reader Document) : Reader (List Piece × Document) := fun text ↦
  match skipSpace text with
  | '"' :: rest => do
    let (key, rest) ← pieces? rest
    match skipSpace rest with
    | ':' :: rest =>
      let (value, rest) ← value? rest
      some ((key, value), rest)
    | _ => none
  | _ => none

/-- One document from the front of a text. Every list and every item in it takes a
character of its own, so the length of the text bounds both its depth and its items. -/
def document? : (bound : Nat) → Reader Document
  | 0, _ => none
  | bound + 1, text =>
    match skipSpace text with
    | 'n' :: 'u' :: 'l' :: 'l' :: rest => some (.null, rest)
    | 't' :: 'r' :: 'u' :: 'e' :: rest => some (.boolean true, rest)
    | 'f' :: 'a' :: 'l' :: 's' :: 'e' :: rest => some (.boolean false, rest)
    | '"' :: rest => do
      let (pieces, rest) ← pieces? rest
      some (.quoted pieces, rest)
    | '[' :: rest => do
      let (items, rest) ← bracketed? (document? bound) ']' bound rest
      some (.list items, rest)
    | '\x7b' :: rest => do
      let (members, rest) ← bracketed? (member? (document? bound)) '\x7d' bound rest
      some (.object members, rest)
    | start => do
      let (number, rest) ← numeral? start
      some (.numeral number, rest)

/-- The document that is the whole text, blanks around it aside. -/
def ofChars? (text : List Char) : Option Document := do
  let (document, rest) ← document? (text.length + 1) text
  if (skipSpace rest).isEmpty then some document else none

def ofText? (text : String) : Option Document := ofChars? text.toList

end Document

/-- A whole numeral between `-2 ^ 63` and `2 ^ 64 - 1` is an integer; minus zero and
all others are doubles. -/
def ofNumeral? (number : Numeral) : Option Json :=
  let size := number.coefficient
  if number.whole && !number.negative && size < 0x10000000000000000 then some (.integer size)
  else if number.whole && number.negative && 0 < size && size ≤ 0x8000000000000000 then
    some (.integer (-size))
  else number.float?.map .real

/-- The text of a string; none if half of a surrogate pair stands alone. -/
def Piece.chars? : List Piece → Option (List Char)
  | [] => some []
  | .char c :: rest => (chars? rest).map (c :: ·)
  | .half high :: .half low :: rest =>
    if high < 0xDC00 ∧ 0xDC00 ≤ low then
      (chars? rest).map (Char.ofNat (0x10000 + (high - 0xD800) * 0x400 + (low - 0xDC00)) :: ·)
    else none
  | .half _ :: _ => none

def Piece.text? (pieces : List Piece) : Option String :=
  (Piece.chars? pieces).map String.ofList

/-- Lists and objects may stand inside each other this deep. -/
def depthLimit : Nat := 127

/-- The value of a document that is at most `limit` deep. Keys are put in order, and of
several values for one key the last counts. -/
def ofDocument? : (limit : Nat) → Document → Option Json
  | _, .null => some null
  | _, .boolean value => some (boolean value)
  | _, .numeral number => ofNumeral? number
  | _, .quoted pieces => (Piece.text? pieces).map string
  | 0, .list _ => none
  | 0, .object _ => none
  | limit + 1, .list items => do
    let items ← items.mapM (ofDocument? limit)
    some (list items)
  | limit + 1, .object members => do
    let members ← members.mapM fun (key, value) ↦ do
      let key ← Piece.text? key
      let value ← ofDocument? limit value
      some (key, value)
    some (object (Keyed.ofList members))

/-- The value of a JSON text. -/
def ofText? (text : String) : Option Json := do
  let document ← Document.ofText? text
  ofDocument? depthLimit document

end SpiralMachine.Json
