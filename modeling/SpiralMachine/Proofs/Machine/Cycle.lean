import SpiralMachine.Proofs.Core.Cycle
import SpiralMachine.Proofs.Machine.NoTrace

/-!
# Cycles of a machine

What is known of the cycles of a core, said of the instruction that a machine carries out. A cycle
changes the mesh and nothing else (`dispatch_cycle`). `dispatch_cycle_split` cuts its range in two,
and says where it stops if there is no room; `dispatch_cycle_effect` says what it leaves under each
id of the mesh. The counts of two cycles over one range add up, and so do those of two spirals of
one register (`dispatch_counts_add`).
-/

set_option autoImplicit false

namespace SpiralMachine

/-- Two spirals of one register come to one, from any depth. -/
theorem Core.spiral_spiral (core : Core) (register : Register) {first second : UInt32}
    (h : first.toNat + second.toNat < UInt32.size) :
    (core.spiral first register).spiral second register = core.spiral (first + second) register := by
  have hturns : SpiralVector.rotateBy second.toNat ∘ SpiralVector.rotateBy first.toNat =
      SpiralVector.rotateBy (first + second).toNat := by
    rw [toNat_add_of_lt h]
    exact funext fun v ↦ (v.rotateBy_add first.toNat second.toNat).symm
  unfold spiral
  rw [RegisterFile.modify_modify, hturns, deepen_deepen _ h]

namespace Machine

/-- A cycle changes the core, and nothing else. -/
theorem dispatch_cycle (machine : Machine) (host : Host) (flags : Config) (count : UInt32)
    (start stop : Nat) :
    machine.dispatch host flags (.cycle count start stop) =
      machine.settle host flags.maxMeshNodes
        (machine.toCore.cycle flags.maxMeshNodes count start stop) :=
  rfl

/-- What becomes of a machine does not depend on the core that it had, unless that is left. -/
theorem settle_withCore (machine : Machine) (host : Host) (budget : Nat) (core : Core)
    {change : Change} (h : ∀ fault, change ≠ .fault fault) :
    { machine with toCore := core }.settle host budget change =
      machine.settle host budget change := by
  cases change with
  | fault fault => exact absurd rfl (h fault)
  | _ => rfl

/-- A cycle that ends the run has met a full mesh. -/
theorem cycle_eq_full_of_fatal {machine : Machine} {host : Host} {flags : Config} {count : UInt32}
    {start stop : Nat} {error : RunError}
    (h : (machine.dispatch host flags (.cycle count start stop)).2 = .fatal error) :
    ∃ stopped, machine.toCore.cycle flags.maxMeshNodes count start stop = .full stopped ∧
      error = .capacityExceeded stopped.mesh.size flags.maxMeshNodes := by
  obtain ⟨stopped, hfull, hdone⟩ := dispatch_eq_of_fatal h
  rw [hdone] at h
  cases h
  exact ⟨stopped, hfull, rfl⟩

theorem cycle_eq_applied {machine : Machine} {host : Host} {flags : Config} {count : UInt32}
    {start stop : Nat}
    (h : (machine.dispatch host flags (.cycle count start stop)).2 = .applied) :
    ∃ reached, machine.toCore.cycle flags.maxMeshNodes count start stop = .applied reached := by
  rw [dispatch_cycle] at h
  cases hcycle : machine.toCore.cycle flags.maxMeshNodes count start stop with
  | applied reached => exact ⟨reached, rfl⟩
  | fault fault =>
    rw [hcycle] at h
    cases h
  | full stopped =>
    rw [hcycle] at h
    cases h

/-- The range of a cycle may be cut anywhere. Its first part is applied or ends the run, and the
cycle comes to what the second part makes of the machine that the first has left, or to what has
ended the run. Where a cycle ends the run there is an index of its range without a node, the machine
is the one that the cycle over the range before this index leaves when it is applied, and what is
reported is the size of that machine's mesh. -/
theorem dispatch_cycle_split (machine : Machine) (host : Host) (flags : Config) (count : UInt32)
    (start stop : Nat) :
    let whole := machine.dispatch host flags (.cycle count start stop)
    (∀ middle, start ≤ middle → middle ≤ stop →
      let first := machine.dispatch host flags (.cycle count start middle)
      let second := first.1.machine.dispatch first.1.host flags (.cycle count middle stop)
      (first.2 = .applied ∧ whole = second) ∨
        ((∃ error, first.2 = .fatal error) ∧ whole = first)) ∧
    ∀ error, whole.2 = .fatal error → ∃ index, start ≤ index ∧ index < stop ∧
      machine.dispatch host flags (.cycle count start index) = (whole.1, .applied) ∧
      Core.cycleId index ∉ whole.1.machine.mesh.ids ∧
      error = .capacityExceeded whole.1.machine.mesh.size flags.maxMeshNodes := by
  dsimp only
  refine ⟨fun middle hstart hstop ↦ ?_, fun error herror ↦ ?_⟩
  · rw [dispatch_cycle machine, dispatch_cycle machine]
    rcases machine.toCore.cycle_split flags.maxMeshNodes count hstart hstop with
      ⟨reached, hfirst, hwhole⟩ | ⟨stopped, hfirst, hwhole⟩
    · rw [hfirst, hwhole]
      exact .inl ⟨rfl, (machine.settle_withCore host _ reached (Core.cycle_ne_fault hstop)).symm⟩
    · rw [hfirst, hwhole]
      exact .inr ⟨⟨_, rfl⟩, rfl⟩
  · obtain ⟨stopped, hfull, rfl⟩ := cycle_eq_full_of_fatal herror
    obtain ⟨index, hstart, hstop, hreached, habsent⟩ := Core.cycle_stopped hfull
    rw [dispatch_cycle machine host flags count start stop, hfull]
    refine ⟨index, hstart, hstop, ?_, habsent, rfl⟩
    rw [dispatch_cycle, hreached]
    rfl

/-- There is room for one node more, and the cycle needs two. It stops at the second of them, past
a node that was there. -/
theorem cycle_split_of_full_mesh :
    let machine := { Machine.new .default .none with
      mesh := .ofList [("origin", .new .seed), ("cycle_1", .new .seed)] }
    let host : Host := ⟨.empty, [], 0⟩
    let flags := { Config.default with maxMeshNodes := 3 }
    let whole := machine.dispatch host flags (.cycle 4 0 5)
    let first := machine.dispatch host flags (.cycle 4 0 1)
    whole = first.1.machine.dispatch first.1.host flags (.cycle 4 1 5) ∧
      whole.2 = .fatal (.capacityExceeded 3 3) ∧
      ∃ index, machine.dispatch host flags (.cycle 4 0 index) = (whole.1, .applied) ∧
        Core.cycleId index ∉ whole.1.machine.mesh.ids := by
  intro machine host flags whole first
  obtain ⟨hsplit, hstopped⟩ := machine.dispatch_cycle_split host flags 4 0 5
  have hfirst : first.2 = .applied := rfl
  have hwhole : whole.2 = .fatal (.capacityExceeded 3 3) := rfl
  have hparts := (hsplit 1 (by decide) (by decide)).resolve_right fun h ↦ by
    obtain ⟨error, herror⟩ := h.1
    exact nomatch hfirst.symm.trans herror
  obtain ⟨index, -, -, hindex, habsent, -⟩ := hstopped _ hwhole
  exact ⟨hparts.2, hwhole, index, hindex, habsent⟩

/-- What a cycle that is applied does to a machine. Its range is not reversed, and it changes the
mesh and nothing else: the nodes that are missing in the range are made, in order and after all
others. Each of them is connected to the one before it, unless it is the first and there was none,
and has register A, turned as often as the cycle counts. The nodes of the range that were there have
their vectors turned as often, and all other nodes are as they were. -/
theorem dispatch_cycle_effect (machine : Machine) (host : Host) (flags : Config) (count : UInt32)
    (start stop : Nat)
    (h : (machine.dispatch host flags (.cycle count start stop)).2 = .applied) :
    let old := machine.mesh
    let done := (machine.dispatch host flags (.cycle count start stop)).1
    let new := done.machine.mesh
    start ≤ stop ∧
    done = ⟨{ machine with mesh := new }, host⟩ ∧
    new.ids = old.ids ++
      ((List.range' start (stop - start)).filter (Core.cycleId · ∉ old.ids)).map Core.cycleId ∧
    (∀ index, start ≤ index → index < stop → Core.cycleId index ∉ old.ids →
      new.get? (Core.cycleId index) = some
        { vector := machine.registers.a.rotateBy count.toNat
          memory := []
          connections :=
            if start < index ∨
                index = start ∧ 1 ≤ start ∧ Core.cycleId (start - 1) ∈ old.ids then
              [Core.cycleId (index - 1)]
            else []
          resonance := 1.0 }) ∧
    (∀ index node, start ≤ index → index < stop →
      old.get? (Core.cycleId index) = some node →
        new.get? (Core.cycleId index) =
          some { node with vector := node.vector.rotateBy count.toNat }) ∧
    ∀ id, (∀ index, start ≤ index → index < stop → id ≠ Core.cycleId index) →
      new.get? id = old.get? id := by
  obtain ⟨reached, hreached⟩ := cycle_eq_applied h
  have hdone : machine.dispatch host flags (.cycle count start stop) =
      (⟨{ machine with toCore := reached }, host⟩, .applied) := by
    rw [dispatch_cycle, hreached]
    rfl
  obtain ⟨hle, mesh, hmesh, rfl⟩ := Core.cycle_eq_applied_iff.mp hreached
  obtain ⟨hrange, hothers⟩ := Core.get?_cycleNodes hmesh
  rw [hdone]
  dsimp only
  refine ⟨hle, rfl, Core.ids_cycleNodes hmesh, fun index hstart hstop habsent ↦ ?_,
    fun index node hstart hstop hnode ↦ ?_, fun id hid ↦ ?_⟩
  · obtain ⟨offset, rfl⟩ := Nat.exists_eq_add_of_le hstart
    rw [hrange offset (by omega), Core.entered, Mesh.get?_eq_none_iff.mpr habsent]
    have hconnected : (start < start + offset ∨
        0 < start + offset ∧ Core.cycleId (start + offset - 1) ∈ machine.mesh.ids) ↔
      (start < start + offset ∨
        start + offset = start ∧ 1 ≤ start ∧ Core.cycleId (start - 1) ∈ machine.mesh.ids) := by
      cases offset with
      | zero => simp [Nat.one_le_iff_ne_zero, Nat.pos_iff_ne_zero]
      | succ offset => simp
    rw [if_congr hconnected rfl rfl]
    rfl
  · obtain ⟨offset, rfl⟩ := Nat.exists_eq_add_of_le hstart
    rw [hrange offset (by omega), Core.entered_of_get? hnode]
    rfl
  · exact hothers id fun offset hoffset ↦ hid (start + offset) (Nat.le_add_right ..) (by omega)

/-- A cycle over a range with holes: its first and its last node are missing, the one in the middle
is there, and so is the one before its range. -/
theorem cycle_effect_of_holes :
    let node : Node :=
      { vector := .seed, memory := [("note", .string "kept")], connections := ["cycle_2"],
        resonance := 0.5 }
    let machine := { Machine.new .default .none with
      mesh := .ofList [("cycle_2", node), ("cycle_0", .new .seed)] }
    let host : Host := ⟨.empty, [], 0⟩
    let done := machine.dispatch host .default (.cycle 2 1 4)
    let new := done.1.machine.mesh
    done.2 = .applied ∧
      new.ids = ["cycle_2", "cycle_0", "cycle_1", "cycle_3"] ∧
      new.get? (Core.cycleId 1) = some
        { Node.new (machine.registers.a.rotateBy 2) with connections := [Core.cycleId 0] } ∧
      new.get? (Core.cycleId 2) = some { node with vector := node.vector.rotateBy 2 } ∧
      new.get? (Core.cycleId 3) = some
        { Node.new (machine.registers.a.rotateBy 2) with connections := [Core.cycleId 2] } ∧
      new.get? "cycle_0" = machine.mesh.get? "cycle_0" := by
  intro node machine host
  have happlied : (machine.dispatch host .default (.cycle 2 1 4)).2 = .applied := rfl
  have heffect := machine.dispatch_cycle_effect host .default 2 1 4 happlied
  have hbefore : Core.cycleId 0 ∈ machine.mesh.ids := by decide +kernel
  have hthere : machine.mesh.get? (Core.cycleId 2) = some node := rfl
  -- what is known of the cycle is enough, so that it need not be run
  generalize machine.dispatch host .default (.cycle 2 1 4) = done at happlied heffect ⊢
  obtain ⟨-, -, hids, hmade, hturned, hothers⟩ := heffect
  have hfirst := hmade 1 (by decide) (by decide) (by decide +kernel)
  have hlast := hmade 3 (by decide) (by decide) (by decide +kernel)
  rw [if_pos (.inr ⟨rfl, Nat.le_refl 1, hbefore⟩)] at hfirst
  rw [if_pos (.inl (by decide))] at hlast
  exact ⟨happlied, hids.trans (by decide +kernel), hfirst,
    hturned 2 node (by decide) (by decide) hthere, hlast, hothers "cycle_0" (by decide +kernel)⟩

/-- Counts add up. Two spirals of one register leave what one leaves that has both increments, from
any depth, and a cycle that is applied and another one over the same range what one leaves that
counts as often as both. -/
theorem dispatch_counts_add (machine : Machine) (host : Host) (flags : Config)
    (first second : UInt32) (hsum : first.toNat + second.toNat < UInt32.size) :
    (∀ register,
      let done := (machine.dispatch host flags (.spiral first register)).1
      done.machine.dispatch done.host flags (.spiral second register) =
        machine.dispatch host flags (.spiral (first + second) register)) ∧
    ∀ start stop,
      let done := machine.dispatch host flags (.cycle first start stop)
      done.2 = .applied →
        done.1.machine.dispatch done.1.host flags (.cycle second start stop) =
          machine.dispatch host flags (.cycle (first + second) start stop) := by
  refine ⟨fun register ↦ ?_, fun start stop happlied ↦ ?_⟩
  · have hspirals := machine.toCore.spiral_spiral register hsum
    change ((⟨{ machine with toCore := (machine.toCore.spiral first register).spiral second register },
      host⟩ : Effect), Outcome.applied) = _
    rw [hspirals]
    rfl
  · obtain ⟨reached, hreached⟩ := cycle_eq_applied happlied
    have hcycles := Core.cycle_cycle hsum hreached
    obtain ⟨hle, -⟩ := Core.cycle_eq_applied_iff.mp hreached
    rw [dispatch_cycle machine host flags first, hreached, dispatch_cycle machine, ← hcycles]
    exact machine.settle_withCore host _ reached (Core.cycle_ne_fault hle)

/-- The first of two spirals comes to the greatest depth, and a cycle makes a node that the next one
finds. -/
theorem counts_add_of_greatest_depth :
    let machine := { Machine.new .default .none with
      mesh := .ofList [("cycle_1", .new .seed)]
      spiralDepth := 0xFFFFFFFE }
    let host : Host := ⟨.empty, [], 0⟩
    let spiral := (machine.dispatch host .default (.spiral 2 .b)).1
    let cycle := machine.dispatch host .default (.cycle 2 0 2)
    spiral.machine.spiralDepth = 0xFFFFFFFF ∧
      spiral.machine.dispatch spiral.host .default (.spiral 3 .b) =
        machine.dispatch host .default (.spiral 5 .b) ∧
      cycle.2 = .applied ∧
      cycle.1.machine.dispatch cycle.1.host .default (.cycle 3 0 2) =
        machine.dispatch host .default (.cycle 5 0 2) := by
  intro machine host spiral cycle
  obtain ⟨hspirals, hcycles⟩ := machine.dispatch_counts_add host .default 2 3 (by decide)
  have happlied : cycle.2 = .applied := rfl
  exact ⟨by decide +kernel, hspirals .b, happlied, hcycles 0 2 happlied⟩

end Machine

end SpiralMachine
