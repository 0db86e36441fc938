import SpiralMachine.Proofs.Mesh.Resonance
import SpiralMachine.Proofs.Number.Scaling

/-!
# Resonance is symmetric and free of scale

Two vectors resonate by the same double in either order (`pair_comm`), and a vector resonates with
others as its multiple by a power of two does, if no component of the multiple was rounded
(`pair_scaled`). The largest component is multiplied as the others are, so that the quotients by
it are the same doubles (`unitMax?_scaled`); nothing else of a vector is looked at.
-/

set_option autoImplicit false

namespace SpiralMachine

open Number

namespace SpiralVector

variable {v w : SpiralVector} {power : ℤ}

/-- The second vector is the first one times a power of two, and no component was rounded. -/
def ScaledBy (power : ℤ) (v w : SpiralVector) : Prop :=
  List.Forall₂ (Number.ScaledBy power) v.toList w.toList

instance (power : ℤ) (v w : SpiralVector) : Decidable (v.ScaledBy power w) :=
  inferInstanceAs (Decidable (List.Forall₂ _ _ _))

/-- A vector that was multiplied by a double which is a power of two, if that is exact. -/
theorem scaledBy_scale {factor : Float} (hv : v.isFinite) (hfactor : factor.isFinite)
    (hpower : value factor = 2 ^ power) (hfinite : (v.scale factor).isFinite)
    (hexact : ∀ x ∈ v.toList, value (x * factor) = value x * value factor) :
    v.ScaledBy power (v.scale factor) := by
  rw [isFinite_iff] at hv hfinite
  have hscale (x : Float) (hx : x ∈ v.toList) : Number.ScaledBy power x (x * factor) :=
    scaledBy_mul (hv x hx) hfactor hpower (hfinite _ (List.mem_map_of_mem (f := (· * factor)) hx))
      (hexact x hx)
  rw [ScaledBy, scale, toList_map, List.forall₂_map_right_iff, List.forall₂_same]
  exact hscale

theorem larger_scaled {x y x' y' : Float} (hx : Number.ScaledBy power x x')
    (hy : Number.ScaledBy power y y') : Number.ScaledBy power (larger x y) (larger x' y') := by
  have hpower : (0 : ℚ) < 2 ^ power := by positivity
  rw [larger_eq hx.finite hy.finite, larger_eq hx.isFinite_scaled hy.isFinite_scaled,
    hx.value_eq, hy.value_eq]
  simp only [mul_lt_mul_iff_left₀ hpower]
  split
  · exact hy
  · exact hx

theorem foldl_larger_scaled {xs ys : List Float} (h : List.Forall₂ (Number.ScaledBy power) xs ys)
    {start start' : Float} (hstart : Number.ScaledBy power start start') :
    Number.ScaledBy power (xs.foldl (fun most x ↦ larger most x.abs) start)
      (ys.foldl (fun most x ↦ larger most x.abs) start') := by
  induction h generalizing start start' with
  | nil => exact hstart
  | cons hx _ ih => exact ih (larger_scaled hstart hx.abs)

/-- The largest component is multiplied as all components are. -/
theorem ScaledBy.maxAbs (h : v.ScaledBy power w) : Number.ScaledBy power v.maxAbs w.maxAbs :=
  foldl_larger_scaled h (scaledBy_zero power)

theorem ScaledBy.isFinite (h : v.ScaledBy power w) : v.isFinite ∧ w.isFinite := by
  simp only [ScaledBy, toList, List.forall₂_cons] at h
  obtain ⟨hpace, hrate, hstate, hspin, -⟩ := h
  rw [isFinite_iff, isFinite_iff, forall_mem_toList, forall_mem_toList]
  exact ⟨⟨hpace.finite, hrate.finite, hstate.finite, hspin.finite⟩, hpace.isFinite_scaled,
    hrate.isFinite_scaled, hstate.isFinite_scaled, hspin.isFinite_scaled⟩

theorem dot_comm (v w : SpiralVector) : v.dot w = w.dot v := by
  unfold dot
  rw [float_mul_comm v.pace, float_mul_comm v.rate, float_mul_comm v.state, float_mul_comm v.spin]

end SpiralVector

namespace Resonance

open SpiralVector

variable {v scaled : SpiralVector} {power : ℤ}

/-- An exact multiple of a vector is the same vector when each is divided by its largest
component. -/
theorem unitMax?_scaled (h : v.ScaledBy power scaled) : unitMax? scaled = unitMax? v := by
  have hpower : (0 : ℚ) < 2 ^ power := by positivity
  obtain ⟨hfinite, hfinite'⟩ := h.isFinite
  have hlargest := h.maxAbs
  have hnone : scaled.maxAbs == 0.0 ↔ v.maxAbs == 0.0 := by
    rw [beq_zero_iff hlargest.finite, beq_zero_iff hlargest.isFinite_scaled, hlargest.value_eq,
      mul_eq_zero, or_iff_left hpower.ne']
  unfold unitMax?
  dsimp only
  rw [Bool.eq_iff_iff.mpr hnone, hfinite, hfinite']
  split
  · rfl
  · rename_i hsome
    rw [Bool.not_true, Bool.or_false, beq_zero_iff hlargest.finite] at hsome
    simp only [SpiralVector.ScaledBy, toList, List.forall₂_cons] at h
    obtain ⟨hpace, hrate, hstate, hspin, -⟩ := h
    simp only [map, div_scaled hpace hlargest hsome, div_scaled hrate hlargest hsome,
      div_scaled hstate hlargest hsome, div_scaled hspin hlargest hsome]

theorem pair_scaled (h : v.ScaledBy power scaled) (w : SpiralVector) :
    pair scaled w = pair v w := by
  unfold pair
  rw [unitMax?_scaled h]

theorem pair_comm (v w : SpiralVector) : pair v w = pair w v := by
  unfold pair
  cases unitMax? v with
  | none => cases unitMax? w <;> rfl
  | some v =>
    cases unitMax? w with
    | none => rfl
    | some w =>
      dsimp only
      rw [dot_comm v w, float_mul_comm (v.dot v)]

/-- A vector can be scaled by a double which is a power of two, unless that rounds. -/
theorem pair_scale {factor : Float} (hv : v.isFinite) (hfactor : factor.isFinite)
    (hpower : value factor = 2 ^ power) (hfinite : (v.scale factor).isFinite)
    (hexact : ∀ x ∈ v.toList, value (x * factor) = value x * value factor) (w : SpiralVector) :
    pair (v.scale factor) w = pair v w :=
  pair_scaled (scaledBy_scale hv hfactor hpower hfinite hexact) w

/-- Two vectors of whatever doubles resonate by the same double in either order. A vector may be
exchanged for any multiple of it by a power of two, if that is exact: so it may be scaled by a
double that is a power of two, as long as no component overflows or loses a bit. -/
theorem pair_symmetric_scaleFree (v w : SpiralVector) :
    pair v w = pair w v ∧
    (∀ (power : ℤ) (scaled : SpiralVector), v.ScaledBy power scaled →
      pair scaled w = pair v w ∧ pair w scaled = pair w v) ∧
    ∀ (power : ℤ) (factor : Float), v.isFinite → factor.isFinite → value factor = 2 ^ power →
      (v.scale factor).isFinite →
      (∀ x ∈ v.toList, value (x * factor) = value x * value factor) →
      pair (v.scale factor) w = pair v w ∧ pair w (v.scale factor) = pair w v := by
  refine ⟨pair_comm v w, ?_, ?_⟩
  · intro power scaled h
    refine ⟨pair_scaled h w, ?_⟩
    rw [pair_comm w scaled, pair_scaled h w, pair_comm v w]
  · intro power factor hv hfactor hpower hfinite hexact
    have hscale := pair_scale hv hfactor hpower hfinite hexact w
    refine ⟨hscale, ?_⟩
    rw [pair_comm w (v.scale factor), hscale, pair_comm v w]

/-- A vector of very small doubles and its multiple of very large ones, by a power of two that is no
double itself. One of the components is the negative zero. Each of the two is the vector between
them, scaled. -/
theorem pair_of_extremes :
    let v : SpiralVector := ⟨1.5, -0.0, 0.625, -1.0⟩
    let small := v.scale 9.332636185032189e-302
    let large := v.scale 1.0715086071862673e301
    small.ScaledBy 2000 large ∧ pair small seed = pair seed small ∧
      pair large seed = pair small seed ∧ pair seed large = pair seed small ∧
      pair small seed = pair v seed := by
  intro v small large
  have hscaled : small.ScaledBy 2000 large := by decide +kernel
  obtain ⟨hsymmetric, hscale, -⟩ := pair_symmetric_scaleFree small seed
  obtain ⟨hfirst, hsecond⟩ := hscale 2000 large hscaled
  have hpower : value 9.332636185032189e-302 = 2 ^ (-1000 : ℤ) := by decide +kernel
  have hexact : ∀ x ∈ v.toList, value (x * 9.332636185032189e-302) =
      value x * value 9.332636185032189e-302 := by decide +kernel
  obtain ⟨-, -, hfactor⟩ := pair_symmetric_scaleFree v seed
  obtain ⟨hsmall, -⟩ := hfactor (-1000) 9.332636185032189e-302 (by decide +kernel)
    (by decide +kernel) hpower (by decide +kernel) hexact
  exact ⟨hscaled, hsymmetric, hfirst, hsecond, hsmall⟩

end Resonance

end SpiralMachine
