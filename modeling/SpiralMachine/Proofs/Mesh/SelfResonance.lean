import SpiralMachine.Proofs.Mesh.Resonance

/-!
# Self-resonance is one

A finite vector that is not zero resonates with itself by exactly one (`pair_self`): divided by
its largest component, it has a product with itself in `[1, 4]`, the root of the square of that is
the product again, and a double divided by itself is one. A mean of ones is one as well, as long as
they can be counted by a double (`mean_replicate_one`), so that a mesh whose nodes all hold the same
vector resonates by one (`Mesh.resonance_of_same`).
-/

set_option autoImplicit false

namespace SpiralMachine

open Number

namespace Number

/-- A double that is rounded from one is one. -/
theorem Rounds.eq_one {x : Float} (h : Rounds 1 x) : x = 1.0 := by
  obtain ⟨hfinite, hvalue⟩ := h.exact isDouble_one
  obtain ⟨hone, hvalueOne⟩ := value_one
  exact eq_of_value_eq hfinite hone (by rw [hvalue]; exact one_ne_zero)
    (hvalue.trans hvalueOne.symm)

/-- A double divided by itself is one. -/
theorem div_self_eq_one {x : Float} (hx : x.isFinite) (hne : value x ≠ 0) : x / x = 1.0 := by
  have hround := rounds_div hx hx hne
  rw [div_self hne] at hround
  exact hround.eq_one

end Number

namespace Resonance

open SpiralVector

variable {v w : SpiralVector}

/-- The largest component of a finite vector is zero exactly if all its components are. -/
theorem maxAbs_eq_zero_iff (h : v.isFinite) : v.maxAbs == 0.0 ↔ v.isZero := by
  obtain ⟨hmost, hle, hreached⟩ := maxAbs_spec h
  have hcomponents : v.isZero ↔ ∀ x ∈ v.toList, value x = 0 := by
    rw [isZero, List.all_eq_true]
    refine forall₂_congr fun x hx ↦ ?_
    rw [beq_zero_iff (isFinite_iff.mp h x hx)]
  rw [beq_zero_iff hmost, hcomponents]
  constructor
  · intro heq x hx
    exact abs_nonpos_iff.mp ((hle x hx).trans_eq heq)
  · intro hall
    rcases hreached with heq | ⟨x, hx, heq⟩
    · exact heq
    · rw [← heq, hall x hx, abs_zero]

theorem unitMax?_eq_none_iff : unitMax? v = none ↔ v.isZero ∨ ¬v.isFinite := by
  unfold unitMax?
  dsimp only
  rw [ite_eq_left_iff, Bool.or_eq_true, Bool.not_eq_true']
  by_cases hfinite : v.isFinite
  · simp [hfinite, maxAbs_eq_zero_iff]
  · simp [hfinite]

/-- A vector that is zero or not finite does not resonate. -/
theorem pair_eq_zero (h : v.isZero ∨ ¬v.isFinite ∨ w.isZero ∨ ¬w.isFinite) : pair v w = 0.0 := by
  rw [← or_assoc, ← unitMax?_eq_none_iff, ← unitMax?_eq_none_iff] at h
  unfold pair
  rcases h with hnone | hnone
  · rw [hnone]
  · rw [hnone]
    cases unitMax? v <;> rfl

/-- A finite vector that is not zero resonates with itself by exactly one. -/
theorem pair_self (hfinite : v.isFinite) (hnonzero : ¬v.isZero) : pair v v = 1.0 := by
  obtain ⟨unit, hunit⟩ : ∃ unit, unitMax? v = some unit := by
    rw [← Option.ne_none_iff_exists', Ne, unitMax?_eq_none_iff]
    exact fun h ↦ h.elim hnonzero fun hnot ↦ hnot hfinite
  have hdot := (unitMax_of_unitMax? hunit).within_dot_self
  have hroot : (unit.dot unit * unit.dot unit).sqrt = unit.dot unit := by
    refine sqrt_mul_self hdot.finite (le_trans ?_ hdot.low_le) (hdot.le_high.trans_lt ?_)
    · exact zpow_le_one_of_nonpos₀ one_le_two (by norm_num)
    · calc (4 : ℚ) = 2 ^ (2 : ℤ) := by norm_num
        _ < 2 ^ (511 : ℤ) := zpow_lt_zpow_right₀ one_lt_two (by norm_num)
  have hcosine : unit.dot unit / unit.dot unit = 1.0 :=
    div_self_eq_one hdot.finite (zero_lt_one.trans_le hdot.low_le).ne'
  have hscore : clampTo 0.0 golden (snap 1.0) = 1.0 := by
    decide +kernel
  unfold pair
  rw [hunit]
  dsimp only
  rw [hroot, hcosine, hscore]

/-- A sum of ones counts them, as long as a double can. -/
theorem foldl_ones (count : ℕ) {start : Float} {before : ℕ} (hstart : start.isFinite)
    (hvalue : value start = before) (hlt : before + count < 2 ^ 53) :
    let sum := (List.replicate count 1.0).foldl (· + ·) start
    sum.isFinite ∧ value sum = (before + count : ℕ) := by
  induction count generalizing start before with
  | zero => exact ⟨hstart, hvalue⟩
  | succ count ih =>
    obtain ⟨hone, hvalueOne⟩ := value_one
    have hround := rounds_add hstart hone
    rw [hvalue, hvalueOne] at hround
    obtain ⟨hnext, hvalueNext⟩ := hround.exact
      (by exact_mod_cast isDouble_natCast (before + 1) (by omega))
    rw [← Nat.cast_succ] at hvalueNext
    have hsum := ih hnext hvalueNext (by omega)
    rwa [Nat.succ_add_eq_add_succ] at hsum

/-- The mean of ones is one. -/
theorem mean_replicate_one {count : ℕ} (hpos : 0 < count) (hlt : count < 2 ^ 53) :
    mean (List.replicate count 1.0) = 1.0 := by
  obtain ⟨rest, rfl⟩ : ∃ rest, count = rest + 1 := ⟨count - 1, by omega⟩
  obtain ⟨hzeroFinite, hzero⟩ := value_zero
  obtain ⟨hsum, hvalueSum⟩ := foldl_ones (rest + 1) hzeroFinite
    (show value 0.0 = (0 : ℕ) by exact_mod_cast hzero) (by omega)
  obtain ⟨hcount, hvalueCount⟩ :=
    (rounds_ofNat (rest + 1) hpos).exact (isDouble_natCast (rest + 1) hlt)
  have hround := rounds_div hsum hcount (by rw [hvalueCount]; positivity)
  rw [hvalueSum, hvalueCount, zero_add, div_self (by positivity)] at hround
  show (List.replicate (rest + 1) 1.0).foldl (· + ·) 0.0 /
    Float.ofNat (List.replicate (rest + 1) (1.0 : Float)).length = 1.0
  rw [List.length_replicate, hround.eq_one]

end Resonance

namespace Mesh

variable {mesh : Mesh}

/-- Both ends of an edge are nodes of the mesh. -/
theorem mem_nodes_of_mem_edges {source target : String × Node} (h : (source, target) ∈ mesh.edges) :
    source.2 ∈ mesh.nodes ∧ target.2 ∈ mesh.nodes := by
  obtain ⟨entry, hentry, h⟩ := List.mem_flatMap.mp h
  obtain ⟨name, -, h⟩ := List.mem_filterMap.mp h
  obtain ⟨node, hnode, h⟩ := Option.map_eq_some_iff.mp h
  cases h
  exact ⟨List.mem_map_of_mem hentry, List.mem_map_of_mem (Keyed.mem_of_lookup hnode)⟩

/-- A mesh of one vector resonates by one, if a double can count its edges. -/
theorem resonance_of_same {v : SpiralVector} (hfinite : v.isFinite) (hnonzero : ¬v.isZero)
    (hsame : ∀ node ∈ mesh.nodes, node.vector = v) (hpos : 0 < mesh.edges.length)
    (hlt : mesh.edges.length < 2 ^ 53) : mesh.resonance = 1.0 := by
  have hscores : (mesh.edges.map fun edge ↦ Resonance.pair edge.1.2.vector edge.2.2.vector) =
      List.replicate mesh.edges.length 1.0 := by
    rw [List.eq_replicate_iff]
    refine ⟨List.length_map _, fun score hscore ↦ ?_⟩
    obtain ⟨edge, hedge, rfl⟩ := List.mem_map.mp hscore
    obtain ⟨hsource, htarget⟩ := mem_nodes_of_mem_edges hedge
    rw [hsame _ hsource, hsame _ htarget, Resonance.pair_self hfinite hnonzero]
  exact (congrArg Resonance.mean hscores).trans (Resonance.mean_replicate_one hpos hlt)

end Mesh

namespace Resonance

/-- Two vectors of whatever doubles resonate by a number in `[0, golden]`, and by zero if one of
them is zero or not finite. Any other vector resonates with itself by exactly one, and so does a
mesh whose nodes all hold it and which has edges, but fewer than `2 ^ 53`. -/
theorem pair_bounded_self_one (v w : SpiralVector) :
    Within 0 (value golden) (pair v w) ∧
      ((v.isZero ∨ ¬v.isFinite ∨ w.isZero ∨ ¬w.isFinite) → pair v w = 0.0) ∧
      (v.isFinite → ¬v.isZero → pair v v = 1.0 ∧
        ∀ mesh : Mesh, (∀ node ∈ mesh.nodes, node.vector = v) → 0 < mesh.edges.length →
          mesh.edges.length < 2 ^ 53 → mesh.resonance = 1.0) :=
  ⟨within_pair v w, pair_eq_zero, fun hfinite hnonzero ↦ ⟨pair_self hfinite hnonzero,
    fun _ hsame hpos hlt ↦ Mesh.resonance_of_same hfinite hnonzero hsame hpos hlt⟩⟩

/-- The largest double next to the smallest one resonates with itself by one, and by zero with a
vector that has an undefined or an infinite component; two nodes with the smallest double alone,
which are connected to each other and to themselves, resonate by one. -/
theorem pair_bounded_of_extremes :
    let wide : SpiralVector := ⟨1.7976931348623157e308, -5e-324, -0.0, 1.0⟩
    let undefined : SpiralVector := ⟨1.0, 0.0 / 0.0, 1.0 / 0.0, 0.0⟩
    let small : SpiralVector := ⟨0.0, 5e-324, -5e-324, 0.0⟩
    let mesh : Mesh := .ofList
      [("a", { Node.new small with connections := ["b", "a"] }),
        ("b", { Node.new small with connections := ["a", "b", "ghost"] })]
    pair wide wide = 1.0 ∧ pair wide undefined = 0.0 ∧ pair small small = 1.0 ∧
      mesh.edges.length = 4 ∧ mesh.resonance = 1.0 := by
  intro wide undefined small mesh
  obtain ⟨-, hzero, hself⟩ := pair_bounded_self_one wide undefined
  obtain ⟨-, -, hsmall⟩ := pair_bounded_self_one small small
  obtain ⟨hpair, hmesh⟩ := hsmall (by decide +kernel) (by decide +kernel)
  have hedges : mesh.edges.length = 4 := by decide +kernel
  have hnodes : mesh.nodes = [{ Node.new small with connections := ["b", "a"] },
      { Node.new small with connections := ["a", "b", "ghost"] }] := rfl
  refine ⟨(hself (by decide +kernel) (by decide +kernel)).1,
    hzero (.inr (.inr (.inr (by decide +kernel)))), hpair, hedges,
    hmesh mesh ?_ (by rw [hedges]; norm_num) (by rw [hedges]; norm_num)⟩
  rw [hnodes]
  simp [Node.new]

end Resonance

end SpiralMachine
