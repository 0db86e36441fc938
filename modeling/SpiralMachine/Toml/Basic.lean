/-!
# TOML values

A table remembers how it came to be, since that decides what may still be added to it.
A table from a header may get subtables, but no dotted keys reach into it; one that was
only implied by a longer header may still get its own header; one made by dotted keys
grows by dotted keys alone; an inline table is complete.
-/

set_option autoImplicit false

namespace SpiralMachine

inductive Toml.Origin where
  | header
  | implied
  | dotted
  | complete
  deriving DecidableEq, Repr

inductive Toml where
  | string (value : String)
  | integer (value : Int)
  | float (value : Float)
  | boolean (value : Bool)
  /-- A date, a time or both. -/
  | moment
  | array (items : List Toml)
  | table (origin : Toml.Origin) (members : List (String × Toml))
  /-- The tables of one repeated header, at least one. -/
  | tables (items : List (List (String × Toml)))
  deriving Inhabited

namespace Toml

abbrev Members := List (String × Toml)

/-- Changes what stands under a key, if it can be changed. -/
def alter (key : String) (change : Option Toml → Option Toml) : Members → Option Members
  | [] => (change none).map fun value ↦ [(key, value)]
  | (other, value) :: rest =>
    if other = key then (change (some value)).map fun value ↦ (other, value) :: rest
    else (alter key change rest).map ((other, value) :: ·)

/-- Changes the members of a table, which is created if it is missing and must have an
admitted origin if it is there. Of repeated tables the last is meant. -/
def inside (creates : Origin) (admits : Origin → Bool) (change : Members → Option Members) :
    Option Toml → Option Toml
  | none => (change []).map (table creates)
  | some (table origin members) =>
    if admits origin then (change members).map (table origin) else none
  | some (tables items) => do
    let last ← items.getLast?
    let last ← change last
    some (tables (items.dropLast ++ [last]))
  | some _ => none

/-- Adds a value under a dotted key. -/
def addValue (value : Toml) : List String → Members → Option Members
  | [], _ => none
  | [key], members =>
    if (members.lookup key).isNone then some (members ++ [(key, value)]) else none
  | [key, last], members =>
    alter key
      (fun
        | none => some (table .dotted [(last, value)])
        | some (table .dotted inner) =>
          if (inner.lookup last).isNone then some (table .dotted (inner ++ [(last, value)]))
          else none
        | some _ => none)
      members
  | key :: path, members =>
    alter key
      (inside .dotted (fun origin ↦ origin = .implied || origin = .dotted)
        (addValue value path))
      members

/-- Changes the table that a header leads to. -/
def atHeader (change : Members → Option Members) : List String → Members → Option Members
  | [], members => change members
  | key :: path, members =>
    alter key (inside .implied (· ≠ .complete) (atHeader change path)) members

/-- Begins the table of a header, which must not have begun before. -/
def beginTable (key : String) : Members → Option Members :=
  alter key fun
    | none => some (table .header [])
    | some (table .implied members) => some (table .header members)
    | some _ => none

/-- Begins one more of repeated tables. -/
def beginRepeated (key : String) : Members → Option Members :=
  alter key fun
    | none => some (tables [[]])
    | some (tables items) => some (tables (items ++ [[]]))
    | some _ => none

/-- The members of a complete table, from its dotted keys and values in order. -/
def ofPairs (pairs : List (List String × Toml)) : Option Members :=
  pairs.foldlM (fun members (path, value) ↦ addValue value path members) []

end Toml

end SpiralMachine
