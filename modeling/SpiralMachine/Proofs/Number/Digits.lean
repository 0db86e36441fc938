import Mathlib.Algebra.Group.Nat.Defs
import Mathlib.Data.List.Basic
import Mathlib.Data.List.TakeWhile
import SpiralMachine.Number.Decimal
import SpiralMachine.Text.Reader

/-!
# Decimal digits

The digits of a number read back as that number (`digitsValue_decimal`), and a longer row of
digits reads as its parts do (`digitsValue_append`). `Significant` digits are those that a
numeral may start with, and the digits of a positive number stay so when the zeros at their
end are dropped (`significant_dropTrailingZeros`).
-/

set_option autoImplicit false

namespace SpiralMachine.Number

open Text (digitsValue digitValue?)

/-! ### Values -/

@[simp]
theorem digitsValue_nil (base : Nat) : digitsValue base [] = 0 :=
  rfl

/-- Digits before others count for as many powers of the base as there are others. -/
theorem digitsValue_append (base : Nat) (digits others : List Char) :
    digitsValue base (digits ++ others) =
      digitsValue base digits * base ^ others.length + digitsValue base others := by
  have hstart : ∀ (others : List Char) (start : Nat),
      others.foldl (fun value c ↦ value * base + (digitValue? c).getD 0) start =
        start * base ^ others.length + digitsValue base others := by
    intro others
    induction others with
    | nil => simp
    | cons c rest ih =>
      intro start
      unfold digitsValue
      rw [List.foldl_cons, List.foldl_cons, ih, ih, List.length_cons, Nat.pow_succ']
      simp only [Nat.add_mul, Nat.zero_mul, Nat.zero_add, Nat.mul_assoc, Nat.add_assoc]
  unfold digitsValue
  rw [List.foldl_append]
  exact hstart others _

theorem digitsValue_digitChar {digit : Nat} (h : digit < 10) :
    digitsValue 10 [digit.digitChar] = digit := by
  have hall : ∀ digit : Fin 10, digitsValue 10 [digit.val.digitChar] = digit.val := by decide
  exact hall ⟨digit, h⟩

@[simp]
theorem digitsValue_zeros (count : Nat) : digitsValue 10 (zeros count) = 0 := by
  induction count with
  | zero => rfl
  | succ count ih =>
    have hsplit : zeros (count + 1) = zeros count ++ ['0'] := List.replicate_succ'
    rw [hsplit, digitsValue_append, ih]
    rfl

/-! ### The digits of a number -/

/-- The last digit is the remainder by ten. -/
theorem decimal_of_le {number : Nat} (h : 10 ≤ number) :
    decimal number = decimal (number / 10) ++ [(number % 10).digitChar] :=
  Nat.toDigits_of_base_le (by decide) h

theorem decimal_of_lt {number : Nat} (h : number < 10) : decimal number = [number.digitChar] :=
  Nat.toDigits_of_lt_base h

/-- The digits of a number read back as that number. -/
theorem digitsValue_decimal (number : Nat) : digitsValue 10 (decimal number) = number := by
  induction number using Nat.strongRecOn with
  | ind number ih =>
    rcases Nat.lt_or_ge number 10 with hlt | hge
    · rw [decimal_of_lt hlt, digitsValue_digitChar hlt]
    · rw [decimal_of_le hge, digitsValue_append, ih _ (by omega),
        digitsValue_digitChar (Nat.mod_lt _ (by decide)), List.length_singleton]
      omega

theorem decimal_ne_nil (number : Nat) : decimal number ≠ [] :=
  Nat.toDigits_ne_nil

theorem isDigit_of_mem_decimal {number : Nat} {c : Char} (h : c ∈ decimal number) : c.isDigit :=
  Nat.isDigit_of_mem_toDigits (by decide) (by decide) h

/-- A number is below the power of ten with as many zeros as it has digits. -/
theorem lt_pow_length_decimal (number : Nat) : number < 10 ^ (decimal number).length :=
  (Nat.length_toDigits_le_iff (by decide) Nat.length_toDigits_pos).mp (Nat.le_refl _)

/-- A positive number reaches the power of ten with one zero less than it has digits. -/
theorem pow_length_decimal_le {number : Nat} (hpos : 0 < number) :
    10 ^ ((decimal number).length - 1) ≤ number := by
  rcases Nat.eq_zero_or_pos ((decimal number).length - 1) with hone | hmore
  · rw [hone]
    exact hpos
  · refine Nat.le_of_not_lt fun hsmall ↦ ?_
    have hle : (decimal number).length ≤ (decimal number).length - 1 :=
      (Nat.length_toDigits_le_iff (by decide) hmore).mpr hsmall
    omega

/-! ### Significant digits -/

/-- Digits that a numeral may start with. -/
structure Significant (digits : List Char) : Prop where
  ne_nil : digits ≠ []
  isDigit : ∀ c ∈ digits, c.isDigit
  head_ne : digits.head? ≠ some '0'

/-- Significant digits may be followed by any digits. -/
theorem Significant.append {digits others : List Char} (h : Significant digits)
    (hothers : ∀ c ∈ others, c.isDigit) : Significant (digits ++ others) where
  ne_nil := List.append_ne_nil_of_left_ne_nil h.ne_nil others
  isDigit := by
    intro c hc
    rcases List.mem_append.mp hc with hc | hc
    · exact h.isDigit c hc
    · exact hothers c hc
  head_ne := by
    rw [List.head?_append_of_ne_nil _ h.ne_nil]
    exact h.head_ne

/-- The first of significant digits are significant. -/
theorem Significant.take {digits : List Char} (h : Significant digits) (count : Nat) :
    Significant (digits.take (count + 1)) := by
  obtain ⟨hne, hdigits, hhead⟩ := h
  cases digits with
  | nil => exact absurd rfl hne
  | cons first others =>
    exact ⟨nofun, fun c hc ↦ hdigits c (List.mem_of_mem_take hc), hhead⟩

/-- The digits of a positive number. -/
theorem significant_decimal {number : Nat} (hpos : 0 < number) :
    Significant (decimal number) := by
  refine ⟨decimal_ne_nil number, fun c ↦ isDigit_of_mem_decimal, ?_⟩
  induction number using Nat.strongRecOn with
  | ind number ih =>
    rcases Nat.lt_or_ge number 10 with hlt | hge
    · rw [decimal_of_lt hlt]
      simp
      omega
    · rw [decimal_of_le hge, List.head?_append_of_ne_nil _ (decimal_ne_nil _)]
      exact ih _ (by omega) (by omega)

/-- What is dropped are zeros at the end. -/
theorem dropTrailingZeros_append (digits : List Char) :
    ∃ count, digits = dropTrailingZeros digits ++ zeros count := by
  have hzeros : ∀ c ∈ digits.reverse.takeWhile (· = '0'), c = '0' := by
    intro c hc
    simpa using List.mem_takeWhile_imp hc
  refine ⟨(digits.reverse.takeWhile (· = '0')).length, ?_⟩
  have hsplit : digits.reverse.takeWhile (· = '0') ++ digits.reverse.dropWhile (· = '0') =
      digits.reverse := List.takeWhile_append_dropWhile
  have hreverse := congrArg List.reverse hsplit
  rw [List.reverse_append, List.reverse_reverse, List.eq_replicate_of_mem hzeros,
    List.reverse_replicate] at hreverse
  exact hreverse.symm

/-- Without the zeros at their end significant digits are significant. -/
theorem significant_dropTrailingZeros {digits : List Char} (h : Significant digits) :
    Significant (dropTrailingZeros digits) := by
  obtain ⟨count, hcount⟩ := dropTrailingZeros_append digits
  have hne : dropTrailingZeros digits ≠ [] := by
    intro hnil
    rw [hnil, List.nil_append] at hcount
    have hhead := h.head_ne
    rw [hcount] at hhead
    cases count with
    | zero => exact h.ne_nil hcount
    | succ count => exact hhead rfl
  refine ⟨hne, fun c hc ↦ h.isDigit c ?_, ?_⟩
  · rw [hcount]
    exact List.mem_append_left _ hc
  · have hhead := h.head_ne
    rwa [hcount, List.head?_append_of_ne_nil _ hne] at hhead

end SpiralMachine.Number
