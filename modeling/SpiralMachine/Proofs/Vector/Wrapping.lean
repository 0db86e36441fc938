import SpiralMachine.Proofs.Vector.Phase

/-!
# Wrapping is exact

A double that is not negative is wrapped to its residue, without any rounding. A negative one is
wrapped to the double nearest to its residue. That can be the turn itself, which then becomes zero
(`wrap_eq_ite`); no other phase is changed by a second wrapping (`wrap_of_isPhase`).
-/

set_option autoImplicit false

namespace SpiralMachine.Phase

open Number

variable {x : Float}

theorem wrap_eq_ite (h : x.isFinite) :
    wrap x = if leastResidue x turn = turn then 0.0 else leastResidue x turn := by
  obtain ⟨hturn, hpos, -⟩ := turn_bounds
  have hresidue := within_leastResidue h hturn hpos
  have hiff : leastResidue x turn ≥ turn ↔ leastResidue x turn = turn := by
    rw [ge_iff_le, le_iff hturn hresidue.finite]
    constructor
    · intro hge
      exact (eq_of_value_eq hturn hresidue.finite hpos.ne' (hge.antisymm hresidue.le_high)).symm
    · intro heq
      rw [heq]
  unfold wrap
  simp only [hiff]

/-- A phase is wrapped to itself. -/
theorem wrap_of_isPhase (h : IsPhase x) : wrap x = x := by
  obtain ⟨hturn, -, -⟩ := turn_bounds
  have hne : x ≠ turn := by
    rintro rfl
    exact lt_irrefl _ h.lt_turn
  rw [wrap_eq_ite h.finite, leastResidue_of_lt h.finite hturn h.nonneg h.lt_turn, if_neg hne]

/-- A double that is not negative is wrapped to its residue. -/
theorem value_wrap (h : x.isFinite) (hnonneg : 0 ≤ value x) :
    value (wrap x) = residue (value x) (value turn) := by
  obtain ⟨hturn, hpos, -⟩ := turn_bounds
  obtain ⟨-, hvalue⟩ := value_leastResidue h hturn hpos hnonneg
  have hne : leastResidue x turn ≠ turn := fun heq ↦ by
    rw [heq] at hvalue
    exact (residue_lt (value x) hpos).ne' hvalue
  rw [wrap_eq_ite h, if_neg hne, hvalue]

/-- A double that is not negative loses a number of whole turns. A negative one, unless it consists
of whole turns, is wrapped to the double nearest to its residue, or to zero if that is the turn. A
second wrapping changes nothing. -/
theorem wrap_residue (h : x.isFinite) :
    (0 ≤ value x → value (wrap x) = residue (value x) (value turn) ∧
      ∃ count : ℕ, value (wrap x) = value x - count * value turn) ∧
    (value x < 0 → residue (value x) (value turn) ≠ 0 → ∃ nearest : Float,
      (∀ y, Nearest (residue (value x) (value turn)) y ↔ y = nearest) ∧
        wrap x = if nearest = turn then 0.0 else nearest) ∧
    wrap (wrap x) = wrap x := by
  obtain ⟨hturn, hpos, -⟩ := turn_bounds
  refine ⟨fun hnonneg ↦ ?_, fun _ hne ↦ ?_, wrap_of_isPhase (isPhase_wrap h)⟩
  · have hvalue := value_wrap h hnonneg
    refine ⟨hvalue, ⌊value x / value turn⌋.toNat, ?_⟩
    have hcount : 0 ≤ ⌊value x / value turn⌋ := Int.floor_nonneg.mpr (div_nonneg hnonneg hpos.le)
    rw [hvalue, residue, ← Int.cast_natCast, Int.toNat_of_nonneg hcount]
  · exact ⟨leastResidue x turn, fun _ ↦ nearest_residue_iff h hturn hpos hne, wrap_eq_ite h⟩

/-- The largest double, and the negative one of half a unit of the turn: the turn and the double
before it are equally near to its residue, and the mantissa of the turn is even. -/
theorem wrap_residue_of_tie :
    let largest : Float := 1.7976931348623157e308
    let half : Float := -4.440892098500626e-16
    (largest.isFinite ∧ 0 ≤ value largest ∧
      ∃ count : ℕ, value (wrap largest) = value largest - count * value turn) ∧
    half.isFinite ∧ value half < 0 ∧ residue (value half) (value turn) ≠ 0 ∧
      wrap half = 0.0 ∧ wrap (wrap half) = wrap half ∧ ∃ nearest : Float,
        (∀ y, Nearest (residue (value half) (value turn)) y ↔ y = nearest) ∧
          wrap half = if nearest = turn then 0.0 else nearest := by
  intro largest half
  have hlargest : largest.isFinite ∧ 0 ≤ value largest := by decide +kernel
  have hhalf : half.isFinite ∧ value half < 0 ∧ residue (value half) (value turn) ≠ 0 ∧
      wrap half = 0.0 := by
    decide +kernel
  obtain ⟨hfinite, hnonneg⟩ := hlargest
  obtain ⟨hfinite', hneg, hne, hwrap⟩ := hhalf
  obtain ⟨hexact, -, -⟩ := wrap_residue hfinite
  obtain ⟨-, hnearest, hagain⟩ := wrap_residue hfinite'
  exact ⟨⟨hfinite, hnonneg, (hexact hnonneg).2⟩, hfinite', hneg, hne, hwrap, hagain,
    hnearest hneg hne⟩

end SpiralMachine.Phase
