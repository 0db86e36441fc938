import Mathlib.Data.List.TakeDrop
import Mathlib.Tactic.Ring
import SpiralMachine.Json.Document
import SpiralMachine.Json.Printer
import SpiralMachine.Proofs.Number.Scientific
import SpiralMachine.Proofs.Number.Shortest

/-!
# Numbers in JSON text read back

The text of a finite double is a numeral (`numeral?_realText`) that is read as that double,
sign and all, and not as a whole number (`float?_realNumeral`); the text of a whole number is
a whole numeral (`numeral?_integerText`). Both hold in front of any text that does not go on
with a numeral.

A layout only sets the point and the exponent, so that every layout of the same digits
stands for the same number (`numeral?_positional`, `numeral?_scientific`). That the digits
are near enough is `Number.roundsTo_shortest`, and that a numeral near enough is read as the
double is `Number.ofScientific_eq`.
-/

set_option autoImplicit false

namespace SpiralMachine.Json.Document

open Float.Model Float.Model.UnpackedFloat
open Number
open Text (digitsValue)

/-! ### The parts of a numeral -/

/-- A text that does not go on with digits. -/
def EndsDigits (rest : List Char) : Prop := ∀ c ∈ rest.head?, c.isDigit = false

/-- A text that does not go on with a numeral. -/
def EndsNumeral (rest : List Char) : Prop :=
  ∀ c ∈ rest.head?, c.isDigit = false ∧ c ≠ '.' ∧ c ≠ 'e' ∧ c ≠ 'E'

theorem EndsNumeral.endsDigits {rest : List Char} (h : EndsNumeral rest) : EndsDigits rest :=
  fun c hc ↦ (h c hc).1

theorem endsDigits_cons {c : Char} (rest : List Char) (h : c.isDigit = false) :
    EndsDigits (c :: rest) := by
  intro other hother
  cases hother
  exact h

/-- The digits that a text starts with. -/
theorem span_isDigit {digits rest : List Char} (hdigits : ∀ c ∈ digits, c.isDigit)
    (hrest : EndsDigits rest) : (digits ++ rest).span Char.isDigit = (digits, rest) := by
  have hnone : rest.takeWhile Char.isDigit = [] ∧ rest.dropWhile Char.isDigit = rest := by
    cases rest with
    | nil => exact ⟨rfl, rfl⟩
    | cons c others =>
      have hc := hrest c rfl
      exact ⟨by rw [List.takeWhile_cons, hc]; rfl, by rw [List.dropWhile_cons, hc]; rfl⟩
  rw [List.span_eq_takeWhile_dropWhile, List.takeWhile_append_of_pos hdigits,
    List.dropWhile_append_of_pos hdigits, hnone.1, hnone.2, List.append_nil]

/-- A zero by itself, or digits that do not start with zero. -/
def IsWhole (digits : List Char) : Prop := digits = ['0'] ∨ Significant digits

theorem isWhole_decimal (number : ℕ) : IsWhole (decimal number) := by
  rcases Nat.eq_zero_or_pos number with rfl | hpos
  · exact .inl rfl
  · exact .inr (significant_decimal hpos)

theorem wholePart?_append {digits rest : List Char} (hdigits : IsWhole digits)
    (hrest : EndsDigits rest) : wholePart? (digits ++ rest) = some (digits, rest) := by
  rcases hdigits with rfl | hdigits
  · rfl
  · have hspan := span_isDigit hdigits.isDigit hrest
    obtain ⟨hne, -, hhead⟩ := hdigits
    cases digits with
    | nil => exact absurd rfl hne
    | cons first others =>
      have hfirst : first ≠ '0' := fun h ↦ hhead (congrArg some h)
      unfold wholePart?
      rw [List.cons_append] at hspan ⊢
      split
      · rename_i heq
        cases heq
        exact absurd rfl hfirst
      · rw [hspan]

theorem fractionPart?_point {digits rest : List Char} (hne : digits ≠ [])
    (hdigits : ∀ c ∈ digits, c.isDigit) (hrest : EndsDigits rest) :
    fractionPart? ('.' :: (digits ++ rest)) = some (digits, rest) := by
  rw [fractionPart?, span_isDigit hdigits hrest]
  cases digits with
  | nil => exact absurd rfl hne
  | cons first others => rfl

theorem fractionPart?_none {rest : List Char} (h : ∀ c ∈ rest.head?, c ≠ '.') :
    fractionPart? rest = some ([], rest) := by
  unfold fractionPart?
  split
  · exact absurd rfl (h '.' rfl)
  · rfl

theorem exponentPart?_none {rest : List Char} (h : EndsNumeral rest) :
    exponentPart? rest = some (none, rest) := by
  unfold exponentPart?
  split
  · exact absurd rfl (h 'e' rfl).2.2.1
  · exact absurd rfl (h 'E' rfl).2.2.2
  · rfl

/-- The digits of an exponent, after its sign. -/
theorem span_exponent (negative : Bool) (size : ℕ) {rest : List Char} (hrest : EndsDigits rest) :
    (match (decimal size ++ rest).span Char.isDigit with
      | ([], _) => none
      | (digits, rest) =>
        let value : ℤ := digitsValue 10 digits
        some (some (if negative then -value else value), rest)) =
      some (some (if negative then -(size : ℤ) else size), rest) := by
  rw [span_isDigit (fun c ↦ isDigit_of_mem_decimal) hrest]
  have hvalue := digitsValue_decimal size
  have hne := decimal_ne_nil size
  generalize decimal size = digits at hvalue hne
  cases digits with
  | nil => exact absurd rfl hne
  | cons first others =>
    dsimp only
    rw [hvalue]

/-- A signed exponent. -/
theorem exponentPart?_signed (exponent : ℤ) {rest : List Char} (hrest : EndsDigits rest) :
    exponentPart? ('e' :: (if exponent < 0 then '-' else '+') ::
      (decimal exponent.natAbs ++ rest)) = some (some exponent, rest) := by
  by_cases hnegative : exponent < 0
  · rw [if_pos hnegative]
    refine (span_exponent true exponent.natAbs hrest).trans ?_
    have hsign : -(exponent.natAbs : ℤ) = exponent := by omega
    rw [if_pos rfl, hsign]
  · rw [if_neg hnegative]
    refine (span_exponent false exponent.natAbs hrest).trans ?_
    have hsign : (exponent.natAbs : ℤ) = exponent := by omega
    rw [if_neg Bool.false_ne_true, hsign]

/-! ### Numerals -/

/-- A numeral is put together from its parts, after its sign. -/
theorem numeral?_parts (negative : Bool) {text afterWhole afterFraction rest : List Char}
    {whole fraction : List Char} {exponent : Option ℤ}
    (hwhole : wholePart? text = some (whole, afterWhole))
    (hfraction : fractionPart? afterWhole = some (fraction, afterFraction))
    (hexponent : exponentPart? afterFraction = some (exponent, rest)) :
    (do
      let (whole, text) ← wholePart? text
      let (fraction, text) ← fractionPart? text
      let (exponent, text) ← exponentPart? text
      let number : Numeral :=
        { negative
          coefficient := digitsValue 10 (whole ++ fraction)
          power := exponent.getD 0 - fraction.length
          whole := fraction.isEmpty && exponent.isNone }
      some (number, text)) = some
        ({ negative
           coefficient := digitsValue 10 (whole ++ fraction)
           power := exponent.getD 0 - fraction.length
           whole := fraction.isEmpty && exponent.isNone }, rest) := by
  rw [hwhole, Option.bind_eq_bind, Option.bind_some]
  dsimp only
  rw [hfraction, Option.bind_eq_bind, Option.bind_some]
  dsimp only
  rw [hexponent]
  rfl

/-- A numeral is read from its parts, with or without a sign. -/
theorem numeral?_signed (sign : Sign) {text afterWhole afterFraction rest : List Char}
    {whole fraction : List Char} {exponent : Option ℤ}
    (hwhole : wholePart? text = some (whole, afterWhole))
    (hfraction : fractionPart? afterWhole = some (fraction, afterFraction))
    (hexponent : exponentPart? afterFraction = some (exponent, rest)) :
    numeral? (signed sign text) = some
      ({ negative := sign == .negative
         coefficient := digitsValue 10 (whole ++ fraction)
         power := exponent.getD 0 - fraction.length
         whole := fraction.isEmpty && exponent.isNone }, rest) := by
  cases sign with
  | negative => exact numeral?_parts true hwhole hfraction hexponent
  | positive =>
    unfold numeral? signed
    dsimp only
    split
    · rename_i others
      -- a text with a whole part does not start with a sign
      exact absurd hwhole nofun
    · exact numeral?_parts false hwhole hfraction hexponent

/-! ### Layouts of digits -/

theorem signed_append (sign : Sign) (text rest : List Char) :
    signed sign text ++ rest = signed sign (text ++ rest) := by
  cases sign <;> rfl

theorem isDigit_of_mem_zeros {count : ℕ} {c : Char} (h : c ∈ zeros count) : c.isDigit := by
  rw [List.eq_of_mem_replicate h]
  rfl

/-- A numeral with a point, from the digits on either side of it. -/
theorem numeral?_point (sign : Sign) {whole : List Char} (hwhole : IsWhole whole)
    {fraction : List Char} (hne : fraction ≠ []) (hfraction : ∀ c ∈ fraction, c.isDigit)
    {rest : List Char} (hrest : EndsNumeral rest) :
    numeral? (signed sign (whole ++ '.' :: fraction) ++ rest) = some
      (⟨sign == .negative, digitsValue 10 (whole ++ fraction), -fraction.length, false⟩, rest) := by
  have hpoint := endsDigits_cons (fraction ++ rest) (by decide : '.'.isDigit = false)
  have hread := numeral?_signed sign (wholePart?_append hwhole hpoint)
    (fractionPart?_point hne hfraction hrest.endsDigits) (exponentPart?_none hrest)
  rw [signed_append, List.append_assoc, List.cons_append, hread]
  cases fraction with
  | nil => exact absurd rfl hne
  | cons first others => simp

/-- The digits of a number below one, after a zero, the point and the zeros in front of them. -/
theorem value_of_lead_neg {number : Digits} (hlead : number.lead < 0) :
    (digitsValue 10 (['0'] ++ (zeros (-number.lead - 1).toNat ++ number.digits)) : ℚ) *
      10 ^ (-(zeros (-number.lead - 1).toNat ++ number.digits).length : ℤ) = number.value := by
  have hpower : -((zeros (-number.lead - 1).toNat ++ number.digits).length : ℤ) =
      number.lead + 1 - number.digits.length := by
    rw [List.length_append, zeros, List.length_replicate]
    omega
  unfold Digits.value
  rw [hpower, digitsValue_append, digitsValue_append 10 (zeros _), digitsValue_zeros]
  simp [digitsValue, Text.digitValue?]

/-- The digits of a whole number, before the zeros that fill it up, the point and a zero. -/
theorem value_of_length_le {number : Digits} (hlead : 0 ≤ number.lead)
    (hshort : number.digits.length ≤ number.lead.toNat + 1) :
    (digitsValue 10 (number.digits ++ zeros (number.lead.toNat + 1 - number.digits.length) ++
      ['0']) : ℚ) * 10 ^ (-1 : ℤ) = number.value := by
  have hpower : number.lead + 1 - number.digits.length =
      (number.lead.toNat + 1 - number.digits.length : ℕ) := by omega
  have hzero : digitsValue 10 ['0'] = 0 := rfl
  unfold Digits.value
  rw [hpower, zpow_natCast, digitsValue_append, digitsValue_append, digitsValue_zeros, hzero,
    zpow_neg, zpow_one]
  simp only [zeros, List.length_replicate, List.length_singleton]
  push_cast
  ring

/-- Digits with a point among them, in front of them or after them stand for their number. -/
theorem positional_eq {layout : Layout} (hlayout : layout.keepsPoint = true) {number : Digits}
    (hdigits : Significant number.digits) :
    ∃ whole fraction, layout.positional number = whole ++ '.' :: fraction ∧ IsWhole whole ∧
      fraction ≠ [] ∧ (∀ c ∈ fraction, c.isDigit) ∧
        (digitsValue 10 (whole ++ fraction) : ℚ) * 10 ^ (-fraction.length : ℤ) = number.value := by
  have hzeros : ∀ count, ∀ c ∈ zeros count, c.isDigit := fun count c ↦ isDigit_of_mem_zeros
  unfold Layout.positional
  split
  · rename_i hlead
    refine ⟨_, _, rfl, .inl rfl, List.append_ne_nil_of_right_ne_nil _ hdigits.ne_nil, ?_,
      value_of_lead_neg hlead⟩
    intro c hc
    exact (List.mem_append.mp hc).elim (hzeros _ c) (hdigits.isDigit c)
  · rename_i hlead
    dsimp only
    split
    · rename_i hdrop
      have hshort : number.digits.length ≤ number.lead.toNat + 1 := List.drop_eq_nil_iff.mp hdrop
      rw [List.take_of_length_le hshort]
      exact ⟨_, ['0'], rfl, .inr (hdigits.append (hzeros _)), List.cons_ne_nil '0' [], by simp,
        value_of_length_le (not_lt.mp hlead) hshort⟩
    · rename_i hdrop
      have hlong : number.lead.toNat + 1 < number.digits.length :=
        not_le.mp (mt List.drop_eq_nil_iff.mpr hdrop)
      have hnone : number.lead.toNat + 1 - number.digits.length = 0 := by omega
      have hpower : -((number.digits.drop (number.lead.toNat + 1)).length : ℤ) =
          number.lead + 1 - number.digits.length := by
        rw [List.length_drop]
        omega
      rw [hnone, zeros, List.replicate_zero, List.append_nil]
      refine ⟨_, _, rfl, .inr (hdigits.take _), hdrop,
        fun c hc ↦ hdigits.isDigit c (List.mem_of_mem_drop hc), ?_⟩
      rw [List.take_append_drop, hpower]
      rfl

/-- Digits around the point are read as a numeral that stands for their number. -/
theorem numeral?_positional {layout : Layout} (hlayout : layout.keepsPoint = true)
    {number : Digits} (hdigits : Significant number.digits) (sign : Sign) :
    ∃ (coefficient : ℕ) (power : ℤ),
      (∀ rest, EndsNumeral rest → numeral? (signed sign (layout.positional number) ++ rest) =
        some (⟨sign == .negative, coefficient, power, false⟩, rest)) ∧
      (coefficient : ℚ) * 10 ^ power = number.value := by
  obtain ⟨whole, fraction, htext, hwhole, hne, hfraction, hvalue⟩ := positional_eq hlayout hdigits
  rw [htext]
  exact ⟨_, _, fun rest ↦ numeral?_point sign hwhole hne hfraction, hvalue⟩

/-- Digits with an exponent stand for their number. -/
theorem numeral?_scientific {number : Digits} (hdigits : Significant number.digits)
    (sign : Sign) :
    ∃ (coefficient : ℕ) (power : ℤ),
      (∀ rest, EndsNumeral rest → numeral? (signed sign (scientific number) ++ rest) =
        some (⟨sign == .negative, coefficient, power, false⟩, rest)) ∧
      (coefficient : ℚ) * 10 ^ power = number.value := by
  have hfirst := hdigits.take 0
  obtain ⟨hne, hall, -⟩ := hdigits
  obtain ⟨digits, lead⟩ := number
  cases digits with
  | nil => exact absurd rfl hne
  | cons first others =>
    refine ⟨digitsValue 10 (first :: others), lead - others.length, ?_, ?_⟩
    · intro rest hrest
      have hexponent := exponentPart?_signed lead hrest.endsDigits
      unfold scientific
      dsimp only
      rw [signed_append]
      cases others with
      | nil =>
        have hread := numeral?_signed sign (wholePart?_append (.inr hfirst)
          (endsDigits_cons _ (by decide : 'e'.isDigit = false))) (fractionPart?_none (by simp))
          hexponent
        simpa using hread
      | cons second others =>
        have hread := numeral?_signed sign (wholePart?_append (.inr hfirst)
          (endsDigits_cons _ (by decide : '.'.isDigit = false)))
          (fractionPart?_point (List.cons_ne_nil second others)
            (fun c hc ↦ hall c (List.mem_cons_of_mem _ hc))
            (endsDigits_cons _ (by decide : 'e'.isDigit = false))) hexponent
        simpa using hread
    · unfold Digits.value
      rw [List.length_cons]
      congr 2
      push_cast
      ring

/-! ### Numbers -/

/-- A numeral near enough to a double is read as that double. -/
theorem float?_eq {x : Float} {sign : Sign} {mantissa : ℕ} {exponent : ℤ} {hpos : 0 < mantissa}
    (hx : x.toModel.unpack = .finite sign mantissa exponent hpos) {coefficient : ℕ} {power : ℤ}
    (h : RoundsTo mantissa exponent (coefficient * 10 ^ power)) :
    Numeral.float? ⟨sign == .negative, coefficient, power, false⟩ = some x := by
  have hdouble := representable_of_unpack hx
  have hpack := pack_unpack x
  rw [hx] at hpack
  have hsize : Numeral.nearest ⟨false, coefficient, power, false⟩ =
      .ofModel (.pack (.finite .positive mantissa exponent hpos)) := by
    cases power with
    | ofNat power => exact ofScientific_eq hdouble h false power rfl
    | negSucc power => exact ofScientific_eq hdouble h true (power + 1) rfl
  have hnearest : Numeral.nearest ⟨sign == .negative, coefficient, power, false⟩ = x := by
    rw [← hpack]
    cases sign with
    | negative =>
      have hneg : Numeral.nearest ⟨true, coefficient, power, false⟩ =
          -Numeral.nearest ⟨false, coefficient, power, false⟩ := rfl
      refine hneg.trans ?_
      rw [hsize]
      show Float.ofModel (.pack (Float.Model.unpack (.pack _)).neg) = _
      rw [unpack_pack .positive hdouble]
      rfl
    | positive => exact hsize
  have hfinite : x.isFinite := by
    show x.toModel.unpack.isFinite = true
    rw [hx]
    rfl
  unfold Numeral.float?
  rw [hnearest, if_pos hfinite]

/-- The text of a finite double is one numeral, whatever follows it. It is read as that double,
and not as a whole number. -/
theorem exists_realNumeral {x : Float} (hx : x.isFinite) :
    ∃ number : Numeral,
      (∀ rest, EndsNumeral rest → numeral? (realText x ++ rest) = some (number, rest)) ∧
      number.whole = false ∧ number.float? = some x := by
  have hlayout : realLayout.keepsPoint = true := rfl
  unfold realText Layout.write
  rw [if_pos hx]
  split
  · rename_i hunpack
    change x.toModel.unpack.isFinite = true at hx
    rw [hunpack] at hx
    cases hx
  · rename_i hunpack
    change x.toModel.unpack.isFinite = true at hx
    rw [hunpack] at hx
    cases hx
  · rename_i sign hunpack
    have hpack := pack_unpack x
    rw [hunpack] at hpack
    refine ⟨_, fun rest ↦ numeral?_point sign (.inl rfl) (List.cons_ne_nil '0' []) (by simp),
      rfl, ?_⟩
    rw [← hpack]
    cases sign with
    | negative => decide +kernel
    | positive => decide +kernel
  · rename_i sign mantissa exponent hpos hunpack
    obtain ⟨hdigits, hround⟩ :=
      roundsTo_shortest (representable_of_unpack hunpack) realLayout.tie
    dsimp only
    split
    · obtain ⟨coefficient, power, hread, hvalue⟩ :=
        numeral?_positional hlayout hdigits sign
      exact ⟨_, hread, rfl, float?_eq hunpack (by rwa [hvalue])⟩
    · obtain ⟨coefficient, power, hread, hvalue⟩ := numeral?_scientific hdigits sign
      exact ⟨_, hread, rfl, float?_eq hunpack (by rwa [hvalue])⟩

/-- The numeral that a finite double is written as. -/
def realNumeral (x : Float) : Numeral :=
  ((numeral? (realText x)).map Prod.fst).getD ⟨false, 0, 0, false⟩

theorem numeral?_realText {x : Float} (hx : x.isFinite) {rest : List Char}
    (hrest : EndsNumeral rest) : numeral? (realText x ++ rest) = some (realNumeral x, rest) := by
  obtain ⟨number, hread, -, -⟩ := exists_realNumeral hx
  have halone := hread [] (by simp [EndsNumeral])
  rw [List.append_nil] at halone
  unfold realNumeral
  rw [halone, hread rest hrest]
  rfl

/-- The numeral of a finite double is read as that double, and not as a whole number. -/
theorem float?_realNumeral {x : Float} (hx : x.isFinite) :
    (realNumeral x).whole = false ∧ (realNumeral x).float? = some x := by
  obtain ⟨number, hread, hnumber⟩ := exists_realNumeral hx
  have halone := hread [] (by simp [EndsNumeral])
  rw [List.append_nil] at halone
  unfold realNumeral
  rw [halone]
  exact hnumber

/-- The numeral that a whole number is written as. -/
def integerNumeral : ℤ → Numeral
  | .ofNat size => ⟨false, size, 0, true⟩
  | .negSucc size => ⟨true, size + 1, 0, true⟩

theorem numeral?_integerText (value : ℤ) {rest : List Char} (hrest : EndsNumeral rest) :
    numeral? (integerText value ++ rest) = some (integerNumeral value, rest) := by
  have hread : ∀ (sign : Sign) (size : ℕ), numeral? (signed sign (decimal size ++ rest)) =
      some (⟨sign == .negative, size, 0, true⟩, rest) := by
    intro sign size
    have hparts := numeral?_signed sign (wholePart?_append (isWhole_decimal size) hrest.endsDigits)
      (fractionPart?_none fun c hc ↦ (hrest c hc).2.1) (exponentPart?_none hrest)
    rw [List.append_nil, digitsValue_decimal] at hparts
    exact hparts
  cases value with
  | ofNat size => exact hread .positive size
  | negSucc size => exact hread .negative (size + 1)

/-- A numeral starts with a sign or a digit. -/
theorem head_of_numeral? {text rest : List Char} {number : Numeral}
    (h : numeral? text = some (number, rest)) :
    ∃ c others, text = c :: others ∧ (c = '-' ∨ c.isDigit) := by
  cases text with
  | nil => cases h
  | cons c others =>
    refine ⟨c, others, rfl, ?_⟩
    by_contra hnone
    rw [not_or, Bool.not_eq_true] at hnone
    obtain ⟨hsign, hdigit⟩ := hnone
    have hwhole : wholePart? (c :: others) = none := by
      unfold wholePart?
      split
      · rename_i heq
        cases heq
        cases hdigit
      · rw [List.span_eq_takeWhile_dropWhile, List.takeWhile_cons, hdigit]
        rfl
    unfold numeral? at h
    split at h
    rename_i heq
    split at heq
    · rename_i heq'
      cases heq'
      exact hsign rfl
    · cases heq
      rw [hwhole] at h
      cases h

end SpiralMachine.Json.Document
