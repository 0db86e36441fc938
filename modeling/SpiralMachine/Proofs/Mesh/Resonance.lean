import SpiralMachine.Mesh.Resonance
import SpiralMachine.Proofs.Vector.Phase

/-!
# Resonance is bounded

Two vectors of whatever doubles resonate by a finite number in `[0, golden]` (`within_pair`), and
so does every mesh by a number in `[0, 2 ^ 60]` (`Mesh.within_resonance`).

A vector is divided by its largest component before it is compared, so that its components
are in `[-1, 1]` and one of them has size one (`UnitMax`). The product of such a vector with itself
is then at least one, and no division by a number below one is left. The sum of scores
cannot grow without bound, however many there are: at `2 ^ 60` a score is less than
half the distance to the next double, and is lost in the sum (`within_foldl_add`).
-/

set_option autoImplicit false

namespace SpiralMachine

open Number

/-! ### The largest component -/

namespace SpiralVector

variable {v w : SpiralVector}

theorem larger_eq {x y : Float} (hx : x.isFinite) (hy : y.isFinite) :
    larger x y = if value x < value y then y else x := by
  unfold larger
  simp only [isNaN_of_isFinite hx, Bool.or_false, decide_eq_true_eq, lt_iff hx hy]

theorem larger_spec {x y : Float} (hx : x.isFinite) (hy : y.isFinite) :
    (larger x y).isFinite ∧ value (larger x y) = max (value x) (value y) := by
  rw [larger_eq hx hy]
  split
  · rename_i hlt
    exact ⟨hy, (max_eq_right hlt.le).symm⟩
  · rename_i hge
    exact ⟨hx, (max_eq_left (not_lt.mp hge)).symm⟩

/-- The largest of finite components is finite, no component is larger, and it is one of them or
what the search began with. -/
theorem foldl_larger (components : List Float) (hall : ∀ x ∈ components, x.isFinite)
    {start : Float} (hstart : start.isFinite) :
    let most := components.foldl (fun most x ↦ larger most x.abs) start
    most.isFinite ∧ value start ≤ value most ∧ (∀ x ∈ components, |value x| ≤ value most) ∧
      (value most = value start ∨ ∃ x ∈ components, |value x| = value most) := by
  induction components generalizing start with
  | nil => exact ⟨hstart, le_rfl, by simp, .inl rfl⟩
  | cons x rest ih =>
    obtain ⟨habs, hsize⟩ := abs_spec (hall x List.mem_cons_self)
    obtain ⟨hlarger, hvalue⟩ := larger_spec hstart habs
    obtain ⟨hmost, hle, hrest, hreached⟩ :=
      ih (fun y hy ↦ hall y (List.mem_cons_of_mem _ hy)) hlarger
    rw [hvalue, hsize] at hle hreached
    refine ⟨hmost, (le_max_left _ _).trans hle, fun y hy ↦ ?_, ?_⟩
    · rcases List.mem_cons.mp hy with rfl | hy
      · exact (le_max_right _ _).trans hle
      · exact hrest y hy
    · rcases hreached with heq | ⟨y, hy, heq⟩
      · rcases max_choice (value start) |value x| with hmax | hmax
        · exact .inl (heq.trans hmax)
        · exact .inr ⟨x, List.mem_cons_self, (heq.trans hmax).symm⟩
      · exact .inr ⟨y, List.mem_cons_of_mem _ hy, heq⟩

theorem maxAbs_spec (h : v.isFinite) : v.maxAbs.isFinite ∧
    (∀ x ∈ v.toList, |value x| ≤ value v.maxAbs) ∧
      (value v.maxAbs = 0 ∨ ∃ x ∈ v.toList, |value x| = value v.maxAbs) := by
  obtain ⟨hfinite, hzero⟩ := value_zero
  obtain ⟨hmost, -, hle, hreached⟩ := foldl_larger v.toList (isFinite_iff.mp h) hfinite
  rw [hzero] at hreached
  exact ⟨hmost, hle, hreached⟩

/-- Components in `[-1, 1]`, one of them of size one. -/
structure UnitMax (v : SpiralVector) : Prop where
  within : ∀ x ∈ v.toList, Within (-1) 1 x
  full : ∃ x ∈ v.toList, |value x| = 1

/-- A double divided by one that is at least its size has a size of at most one, and a size of one
if they are equal. -/
theorem div_largest {x largest : Float} (hx : x.isFinite) (hlargest : largest.isFinite)
    (hpos : 0 < value largest) (hle : |value x| ≤ value largest) :
    Within (-1) 1 (x / largest) ∧
      (|value x| = value largest → |value (x / largest)| = 1) := by
  have hround := rounds_div hx hlargest hpos.ne'
  have hsize : |value x / value largest| = |value x| / value largest := by
    rw [abs_div, abs_of_pos hpos]
  constructor
  · obtain ⟨hlow, hhigh⟩ := abs_le.mp (hsize.trans_le ((div_le_one hpos).mpr hle))
    exact hround.within isDouble_one.neg isDouble_one hlow hhigh
  · intro heq
    have hone : |value x / value largest| = 1 := by
      rw [hsize, heq, div_self hpos.ne']
    -- a quotient of one or minus one is a double, so that it is exact
    have hdouble : IsDouble (value x / value largest) := by
      rcases eq_or_eq_neg_of_abs_eq hone with heq | heq <;> rw [heq]
      · exact isDouble_one
      · exact isDouble_one.neg
    rwa [(hround.exact hdouble).2]

/-- A vector divided by its largest component has its components in `[-1, 1]`, one of them of
size one. -/
theorem unitMax_div_maxAbs (h : v.isFinite) (hne : value v.maxAbs ≠ 0) :
    (v.map (· / v.maxAbs)).UnitMax := by
  obtain ⟨hmost, hle, hreached⟩ := maxAbs_spec h
  obtain ⟨x, hx, heq⟩ := hreached.resolve_left hne
  have hpos : 0 < value v.maxAbs := lt_of_le_of_ne (heq ▸ abs_nonneg _) hne.symm
  have hdiv (y : Float) (hy : y ∈ v.toList) :=
    div_largest (isFinite_iff.mp h y hy) hmost hpos (hle y hy)
  constructor
  · rw [toList_map, List.forall_mem_map]
    exact fun y hy ↦ (hdiv y hy).1
  · exact ⟨x / v.maxAbs, List.mem_map_of_mem (f := (· / v.maxAbs)) hx, (hdiv x hx).2 heq⟩

theorem unitMax_of_unitMax? (h : Resonance.unitMax? v = some w) : w.UnitMax := by
  unfold Resonance.unitMax? at h
  dsimp only at h
  split at h
  · cases h
  rename_i hnonzero
  obtain rfl := Option.some.inj h
  rw [Bool.or_eq_true, not_or, Bool.not_eq_true', Bool.not_eq_false] at hnonzero
  obtain ⟨hlargest, hfinite⟩ := hnonzero
  exact unitMax_div_maxAbs hfinite fun heq ↦
    hlargest ((beq_zero_iff (maxAbs_spec hfinite).1).mpr heq)

/-! ### The product of two vectors -/

/-- The sum of four numbers up to one, each with its own lower end. -/
theorem within_add_four {a b c d : ℤ} {x y z t : Float} (hx : Within a 1 x) (hy : Within b 1 y)
    (hz : Within c 1 z) (ht : Within d 1 t) (hsmall : |a| + |b| + |c| + |d| ≤ 4) :
    Within (a + b + c + d : ℤ) 4 (x + y + z + t) := by
  have hdouble (number : ℤ) (h : |number| ≤ 4) : IsDouble number :=
    isDouble_intCast (by rw [Int.abs_eq_natAbs] at h; omega)
  have hxy := hx.add hy (by exact_mod_cast hdouble (a + b) (by grind))
    (by exact_mod_cast hdouble 2 (by norm_num))
  have hxyz := hxy.add hz (by exact_mod_cast hdouble (a + b + c) (by grind))
    (by exact_mod_cast hdouble 3 (by norm_num))
  have hall := hxyz.add ht (by exact_mod_cast hdouble (a + b + c + d) (by grind))
    (by exact_mod_cast hdouble 4 (by norm_num))
  exact hall.mono (by push_cast; exact le_rfl) (by norm_num)

/-- The product of two vectors with components in `[-1, 1]` is in `[-4, 4]`. -/
theorem UnitMax.within_dot (hv : v.UnitMax) (hw : w.UnitMax) : Within (-4) 4 (v.dot w) := by
  have hproduct {x y : Float} (hx : Within (-1) 1 x) (hy : Within (-1) 1 y) :
      Within (-1 : ℤ) 1 (x * y) := by
    have h := hx.mul hy (by rw [mul_one]; exact isDouble_one)
    rw [mul_one] at h
    exact_mod_cast h
  obtain ⟨hpace, hrate, hstate, hspin⟩ := forall_mem_toList.mp hv.within
  obtain ⟨hpace', hrate', hstate', hspin'⟩ := forall_mem_toList.mp hw.within
  have hall := within_add_four (hproduct hpace hpace') (hproduct hrate hrate')
    (hproduct hstate hstate') (hproduct hspin hspin') (by norm_num)
  exact hall.mono (by norm_num) le_rfl

/-- The product of such a vector with itself is in `[1, 4]`. -/
theorem UnitMax.within_dot_self (hv : v.UnitMax) : Within 1 4 (v.dot v) := by
  have hsquare (x : Float) (hx : x ∈ v.toList) {low : ℤ} (hlow : low.natAbs < 2 ^ 53)
      (hle : low ≤ |value x| * |value x|) : Within low 1 (x * x) := by
    have hfinite := (hv.within x hx).finite
    have hone : |value x| ≤ 1 := abs_le.mpr ⟨(hv.within x hx).low_le, (hv.within x hx).le_high⟩
    refine (rounds_mul hfinite hfinite).within (isDouble_intCast hlow) isDouble_one ?_ ?_
    · rwa [← abs_mul_abs_self]
    · rw [← abs_mul_abs_self]
      exact mul_le_one₀ hone (abs_nonneg _) hone
  have hnonneg (x : Float) (hx : x ∈ v.toList) : Within (0 : ℤ) 1 (x * x) :=
    hsquare x hx (by norm_num) (by exact_mod_cast mul_nonneg (abs_nonneg _) (abs_nonneg _))
  have hfull (x : Float) (hx : x ∈ v.toList) (hsize : |value x| = 1) : Within (1 : ℤ) 1 (x * x) :=
    hsquare x hx (by norm_num) (by rw [hsize]; norm_num)
  obtain ⟨x, hx, hsize⟩ := hv.full
  rw [forall_mem_toList] at hnonneg hfull
  obtain ⟨hpace, hrate, hstate, hspin⟩ := hnonneg
  obtain ⟨hpace', hrate', hstate', hspin'⟩ := hfull
  have hcases : x = v.pace ∨ x = v.rate ∨ x = v.state ∨ x = v.spin := by simpa [toList] using hx
  rcases hcases with rfl | rfl | rfl | rfl
  · have hsum := within_add_four (hpace' hsize) hrate hstate hspin (by norm_num)
    exact hsum.mono (by norm_num) le_rfl
  · have hsum := within_add_four hpace (hrate' hsize) hstate hspin (by norm_num)
    exact hsum.mono (by norm_num) le_rfl
  · have hsum := within_add_four hpace hrate (hstate' hsize) hspin (by norm_num)
    exact hsum.mono (by norm_num) le_rfl
  · have hsum := within_add_four hpace hrate hstate (hspin' hsize) (by norm_num)
    exact hsum.mono (by norm_num) le_rfl

theorem within_clampTo {low high x : Float} (hlow : low.isFinite) (hhigh : high.isFinite)
    (hle : value low ≤ value high) (hx : x.isFinite) :
    Within (value low) (value high) (clampTo low high x) := by
  unfold clampTo
  split
  · exact (within_value hlow).mono le_rfl hle
  · rename_i hge
    rw [lt_iff hx hlow, not_lt] at hge
    split
    · exact (within_value hhigh).mono hle le_rfl
    · rename_i hle
      rw [gt_iff_lt, lt_iff hhigh hx, not_lt] at hle
      exact ⟨hx, hge, hle⟩

end SpiralVector

/-! ### Scores -/

namespace Resonance

open SpiralVector

/-- A score that is not too large is still finite when it was drawn to the golden ratio. -/
theorem isFinite_snap {score : Float} (h : Within (-4) 4 score) : (snap score).isFinite := by
  unfold snap
  split
  · have height : IsDouble (4 * 2) := by
      exact_mod_cast isDouble_natCast 8 (by norm_num)
    exact (h.mul within_golden height).finite
  · split
    · have hbound : IsDouble (4 * 1) := by
        rw [mul_one]
        exact isDouble_ofNat (by norm_num)
      exact (h.mul within_goldenInverse hbound).finite
    · exact h.finite

/-- Two vectors of whatever doubles resonate by a number in `[0, golden]`. -/
theorem within_pair (v w : SpiralVector) : Within 0 (value golden) (pair v w) := by
  obtain ⟨hzero, hvalue⟩ := value_zero
  obtain ⟨hgolden, hle⟩ : golden.isFinite ∧ 0 ≤ value golden := by decide +kernel
  unfold pair
  split
  · rename_i v' w' hv hw
    have hv := unitMax_of_unitMax? hv
    have hw := unitMax_of_unitMax? hw
    have hfirst := hv.within_dot_self
    have hsecond := hw.within_dot_self
    have hproduct : Within (1 ^ 2) (4 ^ 2) (v'.dot v' * w'.dot w') := by
      have hlow := mul_le_mul hfirst.low_le hsecond.low_le zero_le_one
        (zero_le_one.trans hfirst.low_le)
      have hhigh := mul_le_mul hfirst.le_high hsecond.le_high
        (zero_le_one.trans hsecond.low_le) (by norm_num)
      rw [sq, sq]
      refine (rounds_mul hfirst.finite hsecond.finite).within ?_ ?_ hlow hhigh
      · exact_mod_cast isDouble_one
      · exact_mod_cast isDouble_natCast 16 (by norm_num)
    have hroot := hproduct.sqrt isDouble_one (isDouble_ofNat (by norm_num)) zero_le_one
      (by norm_num)
    have hcosine := (hv.within_dot hw).div hroot.finite hroot.low_le
      (isDouble_ofNat (by norm_num)).neg (isDouble_ofNat (by norm_num)) (by norm_num) (by norm_num)
    have hscore := within_clampTo hzero hgolden (by rwa [hvalue]) (isFinite_snap hcosine)
    rwa [hvalue] at hscore
  · exact ⟨hzero, hvalue.ge, hvalue.trans_le hle⟩

/-- At `2 ^ 60` a score is less than half the distance to the next double, so that a sum of
scores comes no further. -/
theorem within_foldl_add (scores : List Float) (hall : ∀ score ∈ scores, Within 0 2 score)
    {start : Float} (hstart : Within 0 (2 ^ 60) start) :
    Within 0 (2 ^ 60) (scores.foldl (· + ·) start) := by
  induction scores generalizing start with
  | nil => exact hstart
  | cons score rest ih =>
    have hscore := hall score List.mem_cons_self
    refine ih (fun other hother ↦ hall other (List.mem_cons_of_mem _ hother)) ?_
    have hpair : Canonical (2 ^ 52) 8 := ⟨by norm_num, by norm_num, .inl le_rfl⟩
    have hpower : ((2 ^ 52 : ℕ) : ℚ) * 2 ^ (8 : ℤ) = 2 ^ 60 := by norm_num
    have hdouble : IsDouble (2 ^ 60 + 2 ^ 60) := by
      rw [← two_mul, ← pow_succ']
      exact isDouble_two_pow (by norm_num)
    have hnonneg := add_nonneg hstart.low_le hscore.low_le
    have hle := add_le_add hstart.le_high hscore.le_high
    have hnearest := (rounds_add hstart.finite hscore.finite).nearest_of_le hdouble <| by
      rw [abs_of_nonneg hnonneg, abs_of_nonneg (by norm_num)]
      linarith
    refine ⟨hnearest.finite, hnearest.le_value isDouble_zero hnonneg, ?_⟩
    rw [← hpower]
    refine hnearest.value_le_of_lt_half hpair (by norm_num) (hle.trans_lt ?_)
    norm_num

/-- A mean of scores is finite, however many there are. -/
theorem within_mean {scores : List Float} (hall : ∀ score ∈ scores, Within 0 2 score) :
    Within 0 (2 ^ 60) (mean scores) := by
  cases scores with
  | nil =>
    obtain ⟨hfinite, hlow, hhigh⟩ :
        neutral.isFinite ∧ 0 ≤ value neutral ∧ value neutral ≤ 2 ^ 60 := by decide +kernel
    exact ⟨hfinite, hlow, hhigh⟩
  | cons score rest =>
    obtain ⟨hfinite, hzero⟩ := value_zero
    have hsum := within_foldl_add _ hall ⟨hfinite, hzero.ge, by rw [hzero]; positivity⟩
    show Within 0 (2 ^ 60)
      ((score :: rest).foldl (· + ·) 0.0 / Float.ofNat (score :: rest).length)
    have hdouble : IsDouble (2 ^ 60) := isDouble_two_pow (by norm_num)
    have hone : (1 : ℚ) ≤ (score :: rest).length := by
      exact_mod_cast List.length_pos_iff.mpr (List.cons_ne_nil _ _)
    cases rounds_ofNat (score :: rest).length (by simp) with
    | nearest hcount _ =>
      exact hsum.div hcount.finite (hcount.le_value isDouble_one hone) isDouble_zero hdouble le_rfl
        (by norm_num)
    | overflow hcount _ =>
      exact (within_div_of_isInf hsum.finite (isInf_of_unpack hcount)).mono le_rfl (by norm_num)

end Resonance

namespace Mesh

/-- The resonance of a mesh of whatever nodes is a number in `[0, 2 ^ 60]`. -/
theorem within_resonance (mesh : Mesh) : Within 0 (2 ^ 60) mesh.resonance := by
  have hgolden : value golden ≤ 2 := by decide +kernel
  refine Resonance.within_mean fun score hscore ↦ ?_
  obtain ⟨⟨source, target⟩, -, rfl⟩ := List.mem_map.mp hscore
  exact (Resonance.within_pair _ _).mono le_rfl hgolden

end Mesh

end SpiralMachine
