import SpiralMachine.Json.Basic
import SpiralMachine.Number.Decimal

/-!
# JSON text

A value is written compactly or over indented lines. Doubles take the fewest digits
that read back, and one that JSON cannot carry is written as null.
-/

set_option autoImplicit false

namespace SpiralMachine.Json

/-- Doubles between `0.00001` and `10 ^ 16` are positional and always have a point; a
half goes to the even digit. -/
def realLayout : Number.Layout where
  tie := .even
  isPositional := fun lead ↦ -5 ≤ lead && lead ≤ 15
  keepsPoint := true
  infinity := ['n', 'u', 'l', 'l']
  undefined := ['n', 'u', 'l', 'l']

def realText (x : Float) : List Char :=
  if x.isFinite then realLayout.write x else ['n', 'u', 'l', 'l']

def integerText : Int → List Char
  | .ofNat n => Number.decimal n
  | .negSucc n => '-' :: Number.decimal (n + 1)

def hexDigit (n : Nat) : Char := Nat.digitChar n

/-- One character of a string, escaped where JSON asks for it. -/
def escape (c : Char) : List Char :=
  match c with
  | '"' => ['\\', '"']
  | '\\' => ['\\', '\\']
  | '\x08' => ['\\', 'b']
  | '\x0c' => ['\\', 'f']
  | '\n' => ['\\', 'n']
  | '\r' => ['\\', 'r']
  | '\t' => ['\\', 't']
  | c =>
    if c.toNat < 0x20 then
      ['\\', 'u', '0', '0', hexDigit (c.toNat / 16), hexDigit (c.toNat % 16)]
    else [c]

def quote (text : String) : List Char :=
  '"' :: (text.toList.flatMap escape ++ ['"'])

/-- How the parts of a list or object are set apart. -/
structure Style where
  /-- Stands before an item or a closing bracket inside `depth` brackets. -/
  lineBreak : (depth : Nat) → List Char
  /-- Stands between a key and its value. -/
  colon : List Char

def compact : Style where
  lineBreak := fun _ ↦ []
  colon := [':']

def pretty : Style where
  lineBreak := fun depth ↦ '\n' :: List.replicate (2 * depth) ' '
  colon := [':', ' ']

/-- Items between brackets, separated by commas. -/
def Style.enclose (style : Style) (opening closing : Char) (depth : Nat)
    (items : List (List Char)) : List Char :=
  match items with
  | [] => [opening, closing]
  | first :: others =>
    let lead := style.lineBreak (depth + 1)
    opening :: (lead ++ first
      ++ others.flatMap (fun item ↦ ',' :: (lead ++ item))
      ++ style.lineBreak depth ++ [closing])

mutual

/-- The text of a value that stands inside `depth` brackets. -/
def Style.write (style : Style) (depth : Nat) : Json → List Char
  | null => ['n', 'u', 'l', 'l']
  | boolean true => ['t', 'r', 'u', 'e']
  | boolean false => ['f', 'a', 'l', 's', 'e']
  | integer value => integerText value
  | real value => realText value
  | string value => quote value
  | list items => style.enclose '[' ']' depth (style.writeItems (depth + 1) items)
  | object members => style.enclose '\x7b' '\x7d' depth (style.writeMembers (depth + 1) members)

def Style.writeItems (style : Style) (depth : Nat) : List Json → List (List Char)
  | [] => []
  | item :: items => style.write depth item :: style.writeItems depth items

def Style.writeMembers (style : Style) (depth : Nat) :
    List (String × Json) → List (List Char)
  | [] => []
  | (key, value) :: members =>
    (quote key ++ style.colon ++ style.write depth value) :: style.writeMembers depth members

end

def Style.render (style : Style) (value : Json) : String :=
  String.ofList (style.write 0 value)

end SpiralMachine.Json
