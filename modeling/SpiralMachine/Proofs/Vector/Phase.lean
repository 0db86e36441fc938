import SpiralMachine.Proofs.Number.Remainder
import SpiralMachine.Vector

/-!
# Phases stay in range

`IsPhase` says of a double that it is finite and in `[0, turn)`. A least residue is no greater than
its modulus (`within_leastResidue`), so that every finite double is wrapped to a phase
(`isPhase_wrap`). Sums, golden multiples and mixtures of finite doubles are phases as well: what
overflows is not used, and what is used in its place are sums of phases, which are finite.
-/

set_option autoImplicit false

namespace SpiralMachine

open Number
open Float.Model Float.Model.UnpackedFloat

/-- A finite double in `[0, turn)`. -/
structure IsPhase (x : Float) : Prop where
  finite : x.isFinite
  nonneg : 0 ≤ value x
  lt_turn : value x < value turn

/-! ### Constants -/

theorem turn_bounds : turn.isFinite ∧ 0 < value turn ∧ value turn + value turn ≤ 16 := by
  decide +kernel

theorem within_golden : Within (-2) 2 golden := by
  obtain ⟨hfinite, hlow, hhigh⟩ : golden.isFinite ∧ -2 ≤ value golden ∧ value golden ≤ 2 := by
    decide +kernel
  exact ⟨hfinite, hlow, hhigh⟩

theorem within_goldenInverse : Within (-1) 1 goldenInverse := by
  obtain ⟨hfinite, hlow, hhigh⟩ :
      goldenInverse.isFinite ∧ -1 ≤ value goldenInverse ∧ value goldenInverse ≤ 1 := by
    decide +kernel
  exact ⟨hfinite, hlow, hhigh⟩

/-! ### Phases -/

namespace Phase

variable {x y : Float}

theorem isPhase_zero : IsPhase 0.0 := by
  obtain ⟨hfinite, hzero⟩ := value_zero
  obtain ⟨-, hpos, -⟩ := turn_bounds
  exact ⟨hfinite, hzero.ge, hzero.trans_lt hpos⟩

/-- Every finite double is wrapped to a phase. -/
theorem isPhase_wrap (h : x.isFinite) : IsPhase (wrap x) := by
  obtain ⟨hturn, hpos, -⟩ := turn_bounds
  have hresidue := within_leastResidue h hturn hpos
  unfold wrap
  dsimp only
  split
  · exact isPhase_zero
  · rename_i hlt
    rw [ge_iff_le, le_iff hturn hresidue.finite, not_le] at hlt
    exact ⟨hresidue.finite, hresidue.low_le, hlt⟩

/-- A sum of two phases is finite. -/
theorem isFinite_add (hx : IsPhase x) (hy : IsPhase y) : (x + y).isFinite := by
  obtain ⟨-, -, htwice⟩ := turn_bounds
  have height : IsDouble 16 := isDouble_ofNat (by norm_num)
  refine ((rounds_add hx.finite hy.finite).within isDouble_zero height
    (add_nonneg hx.nonneg hy.nonneg) ?_).finite
  linarith [hx.lt_turn, hy.lt_turn]

/-- A finite double times the inverse golden ratio is finite. -/
theorem isFinite_mul_goldenInverse (h : x.isFinite) : (x * goldenInverse).isFinite := by
  obtain ⟨-, hsize⟩ := abs_spec h
  have hbound : IsDouble |value x| := hsize ▸ isDouble_value (abs_spec h).1
  have hx : Within (-|value x|) |value x| x := ⟨h, neg_abs_le _, le_abs_self _⟩
  exact (hx.mul within_goldenInverse (by rwa [mul_one])).finite

theorem isPhase_sum (hx : x.isFinite) (hy : y.isFinite) : IsPhase (sum x y) := by
  unfold sum
  dsimp only
  split
  · rename_i hfinite
    exact isPhase_wrap hfinite
  · exact isPhase_wrap (isFinite_add (isPhase_wrap hx) (isPhase_wrap hy))

theorem isPhase_scale (h : x.isFinite) : IsPhase (scale x) := by
  unfold scale
  dsimp only
  split
  · rename_i hfinite
    exact isPhase_wrap hfinite
  · exact isPhase_wrap
      (isFinite_add (isPhase_wrap h) (isPhase_wrap (isFinite_mul_goldenInverse h)))

theorem isPhase_mix (hx : x.isFinite) (hy : y.isFinite) : IsPhase (mix x y) := by
  unfold mix
  dsimp only
  split
  · rename_i hfinite
    exact isPhase_wrap hfinite
  · exact isPhase_wrap
      (isFinite_add (isPhase_wrap (isFinite_mul_goldenInverse hx)) (isPhase_scale hy))

end Phase

/-! ### Vectors of phases -/

namespace SpiralVector

variable {v w : SpiralVector}

theorem isFinite_iff : v.isFinite ↔ ∀ x ∈ v.toList, x.isFinite :=
  List.all_eq_true

/-- Every component is a phase. -/
def Phases (v : SpiralVector) : Prop := ∀ x ∈ v.toList, IsPhase x

theorem Phases.isFinite (h : v.Phases) : v.isFinite :=
  isFinite_iff.mpr fun x hx ↦ (h x hx).finite

theorem forall_mem_toList {property : Float → Prop} : (∀ x ∈ v.toList, property x) ↔
    property v.pace ∧ property v.rate ∧ property v.state ∧ property v.spin := by
  simp [toList]

theorem toList_map (f : Float → Float) (v : SpiralVector) : (v.map f).toList = v.toList.map f :=
  rfl

theorem isFinite_map {f : Float → Float} (hf : ∀ x, x.isFinite → (f x).isFinite)
    (h : v.isFinite) : (v.map f).isFinite := by
  rw [isFinite_iff, toList_map, List.forall_mem_map]
  exact fun x hx ↦ hf x (isFinite_iff.mp h x hx)

theorem phases_map {f : Float → Float} (hf : ∀ x, x.isFinite → IsPhase (f x))
    (h : v.isFinite) : (v.map f).Phases := by
  rw [Phases, toList_map, List.forall_mem_map]
  exact fun x hx ↦ hf x (isFinite_iff.mp h x hx)

theorem phases_rotate (h : v.isFinite) : v.rotate.Phases := by
  rw [isFinite_iff, forall_mem_toList] at h
  obtain ⟨hpace, hrate, hstate, hspin⟩ := h
  rw [Phases, forall_mem_toList]
  exact ⟨Phase.isPhase_mix hpace hspin, Phase.isPhase_mix hpace hrate,
    Phase.isPhase_mix hstate hrate, Phase.isPhase_mix hstate hspin⟩

/-- A vector that was turned at all consists of phases. -/
theorem phases_rotateBy (h : v.isFinite) {count : ℕ} (hpos : 0 < count) :
    (v.rotateBy count).Phases := by
  induction count generalizing v with
  | zero => exact absurd hpos (lt_irrefl 0)
  | succ count ih =>
    have hrotate := phases_rotate h
    rcases Nat.eq_zero_or_pos count with rfl | hmore
    · exact hrotate
    · exact ih hrotate.isFinite hmore

theorem phases_wrap (h : v.isFinite) : v.wrap.Phases :=
  phases_map (fun _ ↦ Phase.isPhase_wrap) h

theorem phases_goldenWrap (h : v.isFinite) : v.goldenWrap.Phases :=
  phases_map (fun _ ↦ Phase.isPhase_scale) h

theorem phases_wrappedSum (hv : v.isFinite) (hw : w.isFinite) : (v.wrappedSum w).Phases := by
  rw [isFinite_iff, forall_mem_toList] at hv hw
  obtain ⟨hpace, hrate, hstate, hspin⟩ := hv
  obtain ⟨hpace', hrate', hstate', hspin'⟩ := hw
  rw [Phases, forall_mem_toList]
  exact ⟨Phase.isPhase_sum hpace hpace', Phase.isPhase_sum hrate hrate',
    Phase.isPhase_sum hstate hstate', Phase.isPhase_sum hspin hspin'⟩

theorem isFinite_clamp {low high : Float} (hlow : low.isFinite) (hhigh : high.isFinite)
    (h : v.isFinite) : (v.clamp low high).isFinite := by
  refine isFinite_map (fun x hx ↦ ?_) h
  unfold clampTo
  split
  · exact hlow
  · split
    · exact hhigh
    · exact hx

theorem isFinite_zero : zero.isFinite := by
  decide +kernel

theorem isFinite_seed : seed.isFinite := by
  decide +kernel

/-- Whatever finite components a vector has, its turns, its wrapped golden multiple, the vector
itself when it is wrapped, and its wrapped sum with another one have phases only. -/
theorem phases_of_isFinite (h : v.isFinite) :
    (∀ count > 0, (v.rotateBy count).Phases) ∧ v.wrap.Phases ∧ v.goldenWrap.Phases ∧
      ∀ other : SpiralVector, other.isFinite → (v.wrappedSum other).Phases :=
  ⟨fun _ hpos ↦ phases_rotateBy h hpos, phases_wrap h, phases_goldenWrap h,
    fun _ hother ↦ phases_wrappedSum h hother⟩

/-- The largest doubles of either sign, whose sums and multiples overflow, and a negative number so
small that it is moved up to the turn itself. -/
theorem phases_of_extremes :
    let v : SpiralVector :=
      ⟨1.7976931348623157e308, -1.7976931348623157e308, -1e-17, 1.7976931348623157e308⟩
    v.isFinite ∧ ¬(v + v).isFinite ∧ Number.leastResidue v.state turn = turn ∧
      (v.rotateBy 8).Phases ∧ v.wrap.Phases ∧ v.goldenWrap.Phases ∧ (v.wrappedSum v).Phases := by
  intro v
  have hv : v.isFinite := by decide +kernel
  obtain ⟨hrotate, hwrap, hgolden, hsum⟩ := phases_of_isFinite hv
  exact ⟨hv, by decide +kernel, by decide +kernel, hrotate 8 (by decide), hwrap, hgolden, hsum v hv⟩

end SpiralVector

end SpiralMachine
