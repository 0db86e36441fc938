import SpiralMachine.Proofs.Machine.Finite
import SpiralMachine.Proofs.Vector.Blend

/-!
# A FLOW moves its node

A FLOW stores the vector half way between two nodes, and would fail if that were not finite. A blend
of finite vectors is (`SpiralVector.isFinite_blend`), so that on a mesh of finite vectors no
instruction fails in that way (`dispatch_ne_nonFinite_flow`), nor does one in any run of a machine
that is reached by runs and crystals from texts: its vectors are finite at every step
(`exists_reached_of_mem_dispatches`).
-/

set_option autoImplicit false

namespace SpiralMachine

namespace Core

variable {core : Core}

/-- On a mesh of finite vectors a FLOW does not make one that is not finite. -/
theorem flow_ne_nonFinite (h : core.mesh.Every fun node ↦ node.vector.isFinite)
    (source target : Option String) : core.flow source target ≠ .error (.nonFinite .flow) := by
  intro hflow
  unfold flow at hflow
  dsimp only at hflow
  rcases Except.error_of_bind hflow with hfault | ⟨source, -, hflow⟩
  · cases (eq_none_of_elim hfault).2
  rcases Except.error_of_bind hflow with hfault | ⟨target, -, hflow⟩
  · cases (eq_none_of_elim hfault).2
  rcases Except.error_of_bind hflow with hfault | ⟨origin, horigin, hflow⟩
  · cases (eq_none_of_elim hfault).2
  rcases Except.error_of_bind hflow with hfault | ⟨node, hnode, hflow⟩
  · cases (eq_none_of_elim hfault).2
  have hblend := SpiralVector.isFinite_blend (h.of_get? (eq_some_of_elim hnode))
    (h.of_get? (eq_some_of_elim horigin)) (show 0.0 ≤ (0.5 : Float) by decide +kernel)
    (show (0.5 : Float) ≤ 1.0 by decide +kernel)
  rcases Except.error_of_bind hflow with hfault | ⟨vector, -, hflow⟩
  · rw [finite, if_pos hblend] at hfault
    cases hfault
  · split at hflow <;> cases hflow

theorem target_ne_nonFinite (op failed : Opcode) (node : Option String) :
    core.target op node ≠ .error (.nonFinite failed) := by
  intro h
  unfold target at h
  split at h
  · split at h <;> cases h
  · cases (eq_none_of_elim h).2

/-- On a mesh of finite vectors no instruction fails as a FLOW to a vector that is not finite. -/
theorem apply_ne_nonFinite_flow (h : core.mesh.Every fun node ↦ node.vector.isFinite) (budget : ℕ)
    (lesson : Option Lesson) (instruction : Instruction) :
    core.apply budget lesson instruction ≠ .fault (.nonFinite .flow) := by
  intro hfault
  cases instruction with
  | flow source target => exact flow_ne_nonFinite h source target (eq_error_of_ofExcept hfault)
  | init clears =>
    change core.initialise budget clears = _ at hfault
    unfold initialise at hfault
    dsimp only at hfault
    split at hfault
    · cases hfault
    · split at hfault <;> cases hfault
  | mesh id connect => exact place_ne_fault _ _ _ _ _ _ hfault
  | forge id connect => exact place_ne_fault _ _ _ _ _ _ hfault
  | bound register min max =>
    have hbound := eq_error_of_ofExcept hfault
    unfold bound at hbound
    split at hbound <;> cases hbound
  | seek node register =>
    have hseek := eq_error_of_ofExcept hfault
    unfold seek at hseek
    dsimp only at hseek
    split at hseek <;> split at hseek <;> cases hseek
  | cycle count start stop =>
    change core.cycle budget count start stop = _ at hfault
    unfold cycle at hfault
    split at hfault
    · cases hfault
    · split at hfault <;> cases hfault
  | mask node register =>
    rcases Except.error_of_bind (eq_error_of_ofExcept hfault) with htarget | ⟨id, -, hmask⟩
    · exact target_ne_nonFinite _ _ _ htarget
    · split at hmask <;> cases hmask
  | cryst node =>
    rcases Except.error_of_bind (eq_error_of_ofExcept hfault) with htarget | ⟨id, -, hcryst⟩
    · exact target_ne_nonFinite _ _ _ htarget
    · cases hcryst
  | spec =>
    rcases Except.error_of_bind (eq_error_of_ofExcept hfault) with hspec | ⟨vector, -, hspec⟩
    · unfold finite at hspec
      split at hspec <;> cases hspec
    · cases hspec
  | _ => cases hfault

end Core

namespace Machine

/-- No dispatch on a mesh of finite vectors fails as a FLOW to a vector that is not finite. -/
theorem dispatch_ne_nonFinite_flow {machine : Machine}
    (h : machine.mesh.Every fun node ↦ node.vector.isFinite) (host : Host) (flags : Config)
    (instruction : Instruction) :
    (machine.dispatch host flags instruction).2 ≠ .recoverable (.nonFinite .flow) := by
  intro hfault
  unfold dispatch at hfault
  split at hfault
  · rename_i hchange
    cases hfault
    exact Core.apply_ne_nonFinite_flow h _ _ _ hchange
  · cases hfault
  · split at hfault
    · cases hfault
    · -- saving is the one instruction that can fail after it was applied
      unfold saveOpcode at hfault
      dsimp only at hfault
      split at hfault
      · cases hfault
      · split at hfault <;> cases hfault
    · cases hfault

/-- Every dispatch of a run is that of a machine which has all that every step preserves. -/
theorem exists_reached_of_mem_dispatches (holds : Machine → Prop) {flags : Config}
    (hperform : ∀ machine host step, holds machine →
      holds (machine.perform host flags step).1.machine)
    {steps : List Step} {machine : Machine} (h : holds machine) {host : Host} {dispatch : Dispatch}
    (hmem : dispatch ∈ dispatches flags steps machine host) :
    ∃ step reached host, holds reached ∧ dispatch = dispatched reached host flags step := by
  induction steps generalizing machine host with
  | nil => cases hmem
  | cons step rest ih =>
    have hnext := hperform machine host step h
    rw [dispatches_cons] at hmem
    split at hmem
    · rw [List.mem_singleton.mp hmem]
      exact ⟨step, machine, host, h, rfl⟩
    · rcases List.mem_cons.mp hmem with rfl | hmem
      · exact ⟨step, machine, host, h, rfl⟩
      · exact ih hnext hmem

/-- A blend of finite vectors by a weight in `[0, 1]` is finite, however large they are and however
the weights are rounded. So no instruction on a mesh of finite vectors fails as a FLOW to a vector
that is not finite, and none does in any run of a machine that is reached by runs and by crystals
from texts. -/
theorem flow_never_nonFinite :
    (∀ (v target : SpiralVector) (t : Float), v.isFinite → target.isFinite → 0.0 ≤ t → t ≤ 1.0 →
      (v.blend target t).isFinite) ∧
    (∀ (machine : Machine) (host : Host) (flags : Config) (instruction : Instruction),
      (∀ entry ∈ machine.mesh.entries, entry.2.vector.isFinite) →
        (machine.dispatch host flags instruction).2 ≠ .recoverable (.nonFinite .flow)) ∧
    ∀ machine : Machine,
      Reachable (fun crystal ↦ ∃ text, Crystal.ofText? text = some crystal) machine →
      ∀ (host : Host) (program : Program) (mode : Mode),
      ∀ dispatch ∈ machine.executed host program mode,
        dispatch.outcome ≠ .recoverable (.nonFinite .flow) := by
  refine ⟨fun v target t hv htarget ↦ SpiralVector.isFinite_blend hv htarget,
    fun machine host flags instruction h ↦ dispatch_ne_nonFinite_flow h host flags instruction, ?_⟩
  intro machine hreachable host program mode dispatch hmem
  have hsettled := hreachable.settled
  have hstarted : (machine.started program mode).Settled :=
    ⟨⟨hsettled.nodes, hsettled.registers, hsettled.log⟩, hsettled.lessons⟩
  obtain ⟨step, reached, host, hreached, rfl⟩ := exists_reached_of_mem_dispatches Settled
    (fun _ host step hnext ↦ perform_settled hnext host _ step) hstarted hmem
  obtain ⟨_, _, _, hprepare⟩ := prepare_machine reached host machine.config step
  refine dispatch_ne_nonFinite_flow ?_ _ _ _
  rw [hprepare]
  exact fun entry hentry ↦ (hreached.nodes entry hentry).1

/-- The largest doubles, with a weight that is lost when it is taken from one, so that the two
weights add up to more than one; and a FLOW between nodes of the largest doubles of either sign. -/
theorem flow_between_extremes :
    let most : SpiralVector :=
      ⟨1.7976931348623157e308, 1.7976931348623157e308, 1.7976931348623157e308,
        -1.7976931348623157e308⟩
    let least : SpiralVector := most.scale (-1.0)
    let weight : Float := 5.551115123125783e-17
    let machine := { Machine.new .default .none with
      mesh := .ofList [("most", .new most), ("least", .new least)] }
    let host : Host := ⟨.empty, [], 0⟩
    0.0 < weight ∧ 1.0 - weight == 1.0 ∧ (most.blend most weight).isFinite ∧
      ¬(most + most).isFinite ∧
      (machine.dispatch host .default (.flow none none)).2 ≠ .recoverable (.nonFinite .flow) ∧
      Reachable (fun crystal ↦ ∃ text, Crystal.ofText? text = some crystal)
        (.new .default .none) ∧
      ∀ dispatch ∈ (Machine.new .default .none).executed host
          (.ofInstructions [.mesh none none, .flow none none]) .simulate,
        dispatch.outcome ≠ .recoverable (.nonFinite .flow) := by
  intro most least weight machine host
  obtain ⟨hblend, hdispatch, hruns⟩ := flow_never_nonFinite
  have hmost : most.isFinite := by decide +kernel
  have hreachable : Reachable (fun crystal ↦ ∃ text, Crystal.ofText? text = some crystal)
      (.new .default .none) := .new _ _
  refine ⟨by decide +kernel, by decide +kernel, ?_, by decide +kernel, ?_, hreachable,
    hruns _ hreachable _ _ _⟩
  · exact hblend most most weight hmost hmost (by decide +kernel) (by decide +kernel)
  · exact hdispatch machine host .default _ (by decide +kernel)

end Machine

end SpiralMachine
