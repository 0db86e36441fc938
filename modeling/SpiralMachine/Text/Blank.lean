/-!
# Blanks and letter case

The characters that carry the Unicode property White_Space, trimming, and the two
case rules names are compared by.
-/

set_option autoImplicit false

namespace SpiralMachine.Text

/-- The ranges of the property White_Space. -/
def blankRanges : List (Nat × Nat) :=
  [(0x09, 0x0D), (0x20, 0x20), (0x85, 0x85), (0xA0, 0xA0), (0x1680, 0x1680),
    (0x2000, 0x200A), (0x2028, 0x2029), (0x202F, 0x202F), (0x205F, 0x205F), (0x3000, 0x3000)]

def isBlank (c : Char) : Bool :=
  blankRanges.any fun (low, high) ↦ low ≤ c.toNat && c.toNat ≤ high

theorem isBlank_of_isWhitespace {c : Char} (h : c.isWhitespace) : isBlank c := by
  simp only [Char.isWhitespace, Bool.or_eq_true, decide_eq_true_eq] at h
  rcases h with ((rfl | rfl) | rfl) | rfl <;> rfl

def trimChars (text : List Char) : List Char :=
  ((text.dropWhile isBlank).reverse.dropWhile isBlank).reverse

/-- The text without the blanks at its two ends. -/
def trim (text : String) : String :=
  String.ofList (trimChars text.toList)

/-- Letters `a` to `z` raised, all else kept. -/
def raiseAscii (text : String) : String :=
  String.ofList (text.toList.map Char.toUpper)

/-- The lower case of a letter, as far as it is ASCII. The Kelvin sign is the one
letter outside ASCII whose lower case is an ASCII letter alone. -/
def lowerLetter (c : Char) : Char :=
  if c = '\u212a' then 'k' else c.toLower

/-- Lower case, for comparison with words of ASCII letters: a text lowers to such a
word here exactly when it does under the full case mapping. -/
def lowerForAscii (text : String) : String :=
  String.ofList (text.toList.map lowerLetter)

/-- A trimmed name with ASCII letters raised, the form names are looked up in. -/
def canonicalName (text : String) : String :=
  raiseAscii (trim text)

end SpiralMachine.Text
