import SpiralMachine.Toml.Scalar

/-!
# TOML documents

A document is read line by line: headers, keys with their values, and comments. Arrays
may run over several lines, inline tables may not.
-/

set_option autoImplicit false

namespace SpiralMachine.Toml

open Text (Reader)

/-- Keys may have and values may be nested in fewer parts than this. -/
def nestingLimit : Nat := 80

/-- The rest of a line from a comment sign on. -/
def comment? (text : List Char) : Option (List Char) :=
  match text with
  | '#' :: rest => some (rest.dropWhile isPrintable)
  | _ => none

/-- The next line, or the end of the text. -/
def lineEnd? (text : List Char) : Option (List Char) :=
  match text with
  | [] => some []
  | _ => newline? text

/-- The next line after blanks and a comment. -/
def finish? (text : List Char) : Option (List Char) :=
  let text := skipSpace text
  lineEnd? ((comment? text).getD text)

/-- Blanks, line ends and whole comments. -/
def skipComments : (bound : Nat) → List Char → List Char
  | 0, text => text
  | bound + 1, text =>
    let text := skipSpace text
    match newline? text, comment? text with
    | some rest, _ => skipComments bound rest
    | none, some rest => skipComments bound rest
    | none, none => text

def isBare (c : Char) : Bool := c.isAlphanum || c = '_' || c = '-'

/-- One part of a key, bare or quoted. -/
def keyPart? : Reader String := fun text ↦
  match text with
  | '"' :: _ | '\'' :: _ => shortString? text
  | _ =>
    match text.span isBare with
    | ([], _) => none
    | (part, rest) => some (String.ofList part, rest)

/-- The parts of a key between its points, with the blanks around them. -/
def keyParts? : (bound : Nat) → Reader (List String)
  | 0, _ => none
  | bound + 1, text => do
    let (part, text) ← keyPart? (skipSpace text)
    match skipSpace text with
    | '.' :: rest =>
      let (parts, rest) ← keyParts? bound rest
      some (part :: parts, rest)
    | rest => some ([part], rest)

def key? : Reader (List String) := keyParts? (nestingLimit - 1)

/-- A key, a sign of equality and a value. -/
def pair? (value? : Reader Toml) : Reader (List String × Toml) := fun text ↦ do
  let (path, text) ← key? text
  match text with
  | '=' :: rest =>
    let (value, rest) ← value? (skipSpace rest)
    some ((path, value), rest)
  | _ => none

/-- The items of an array up to its closing bracket; the last may have a comma too. -/
def items? (value? : Reader Toml) : (bound : Nat) → Reader (List Toml)
  | 0, _ => none
  | bound + 1, text =>
    match skipComments text.length text with
    | ']' :: rest => some ([], rest)
    | start => do
      let (item, rest) ← value? start
      match skipComments rest.length rest with
      | ',' :: rest =>
        let (items, rest) ← items? value? bound rest
        some (item :: items, rest)
      | ']' :: rest => some ([item], rest)
      | _ => none

/-- The pairs of an inline table up to its closing brace, at least one. -/
def pairs? (value? : Reader Toml) : (bound : Nat) → Reader (List (List String × Toml))
  | 0, _ => none
  | bound + 1, text => do
    let (pair, text) ← pair? value? text
    match skipSpace text with
    | ',' :: rest =>
      let (pairs, rest) ← pairs? value? bound rest
      some (pair :: pairs, rest)
    | '\x7d' :: rest => some ([pair], rest)
    | _ => none

/-- A value with so many levels of arrays and inline tables at most. -/
def value? : (levels : Nat) → Reader Toml
  | levels, text =>
    match text with
    | '"' :: _ | '\'' :: _ => (string? text).map fun (value, rest) ↦ (string value, rest)
    | 't' :: 'r' :: 'u' :: 'e' :: rest => some (boolean true, rest)
    | 'f' :: 'a' :: 'l' :: 's' :: 'e' :: rest => some (boolean false, rest)
    | '[' :: rest =>
      match levels with
      | 0 => none
      | levels + 1 => (items? (value? levels) (rest.length + 1) rest).map fun (items, rest) ↦
        (array items, rest)
    | '\x7b' :: rest =>
      match levels with
      | 0 => none
      | levels + 1 =>
        match skipSpace rest with
        | '\x7d' :: rest => some (table .complete [], rest)
        | start => do
          let (pairs, rest) ← pairs? (value? levels) (start.length + 1) start
          some (table .complete (← ofPairs pairs), rest)
    | _ => (moment? text).or (number? text)

/-- What one line of a document says. -/
inductive Line where
  | blank
  | header (path : List String) (repeated : Bool)
  | pair (path : List String) (value : Toml)

/-- One line, blanks at its start aside, and the lines after it. -/
def line? : Reader Line := fun text ↦
  match text with
  | '#' :: _ => (finish? text).map (.blank, ·)
  | '\n' :: _ | '\r' :: _ => (newline? text).map (.blank, ·)
  | '[' :: '[' :: rest => do
    let (path, rest) ← key? rest
    match rest with
    | ']' :: ']' :: rest => (finish? rest).map (.header path true, ·)
    | _ => none
  | '[' :: rest => do
    let (path, rest) ← key? rest
    match rest with
    | ']' :: rest => (finish? rest).map (.header path false, ·)
    | _ => none
  | _ => do
    let ((path, value), rest) ← pair? (value? (nestingLimit - 1)) text
    (finish? rest).map (.pair path value, ·)

/-- A document that has been read in part: its tables, and the header that is in force. -/
structure Draft where
  root : Members
  current : List String

def Draft.add (draft : Draft) : Line → Option Draft
  | .blank => some draft
  | .header path repeated => do
    let key ← path.getLast?
    let begin := if repeated then beginRepeated key else beginTable key
    let root ← atHeader begin path.dropLast draft.root
    some ⟨root, path⟩
  | .pair path value => do
    let root ← atHeader (addValue value path) draft.current draft.root
    some { draft with root }

/-- Reads the lines of a text, of which there are no more than characters. -/
def lines? : (bound : Nat) → Draft → List Char → Option Draft
  | 0, _, _ => none
  | bound + 1, draft, text =>
    match skipSpace text with
    | [] => some draft
    | start => do
      let (line, rest) ← line? start
      lines? bound (← draft.add line) rest

/-- The members of a document. A byte order mark at its start is passed over. -/
def ofText? (text : String) : Option Members :=
  let chars := text.toList
  let chars := if chars.head? = some '\ufeff' then chars.tail else chars
  (lines? (chars.length + 1) ⟨[], []⟩ chars).map Draft.root

end SpiralMachine.Toml
