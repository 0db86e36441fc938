import SpiralMachine.Proofs.Core.Change

/-!
# The spiral depth

Of all instructions `spiral` alone changes the depth (`apply_spiralDepth`). It adds to it up to the
greatest depth (`toNat_deepen`), so that what is added in two steps may be added in one
(`deepen_deepen`), and the depth never falls (`le_depthAfter`). What an instruction adds is its
`increment` (`toNat_depthAfter`).
-/

set_option autoImplicit false

namespace SpiralMachine

/-- Numbers whose sum is within bounds are added as they are. -/
theorem toNat_add_of_lt {first second : UInt32} (h : first.toNat + second.toNat < UInt32.size) :
    (first + second).toNat = first.toNat + second.toNat := by
  rw [UInt32.toNat_add]
  exact Nat.mod_eq_of_lt h

namespace Core

theorem toNat_deepen (depth increment : UInt32) :
    (deepen depth increment).toNat = min (depth.toNat + increment.toNat) (UInt32.size - 1) :=
  UInt32.toNat_ofNat_of_lt' (Nat.lt_of_le_of_lt (Nat.min_le_right _ _) (by decide))

/-- Two increments come to their sum, wherever the greatest depth is reached. -/
theorem deepen_deepen (depth : UInt32) {first second : UInt32}
    (h : first.toNat + second.toNat < UInt32.size) :
    deepen (deepen depth first) second = deepen depth (first + second) := by
  refine UInt32.toNat_inj.mp ?_
  rw [toNat_deepen, toNat_deepen, toNat_deepen, toNat_add_of_lt h]
  omega

theorem le_deepen (depth increment : UInt32) : depth ≤ deepen depth increment := by
  have hdepth : depth.toNat < UInt32.size := depth.toNat_lt
  rw [UInt32.le_iff_toNat_le, toNat_deepen]
  omega

end Core

/-- What an instruction makes of the depth. -/
def Instruction.depthAfter : Instruction → UInt32 → UInt32
  | spiral increment _, depth => Core.deepen depth increment
  | _, depth => depth

theorem Instruction.depthAfter_of_ne_spiral {instruction : Instruction}
    (h : instruction.opcode ≠ .spiral) (depth : UInt32) : instruction.depthAfter depth = depth := by
  cases instruction with
  | spiral increment register => exact absurd rfl h
  | _ => rfl

theorem Instruction.le_depthAfter (instruction : Instruction) (depth : UInt32) :
    depth ≤ instruction.depthAfter depth := by
  cases instruction with
  | spiral increment register => exact Core.le_deepen depth increment
  | _ => exact UInt32.le_refl depth

/-- What an instruction adds to the depth. -/
def Instruction.increment : Instruction → Nat
  | spiral increment _ => increment.toNat
  | _ => 0

theorem Instruction.toNat_depthAfter (instruction : Instruction) (depth : UInt32) :
    (instruction.depthAfter depth).toNat =
      min (depth.toNat + instruction.increment) (UInt32.size - 1) := by
  cases instruction with
  | spiral increment register => exact Core.toNat_deepen depth increment
  | _ => exact (Nat.min_eq_left (Nat.le_sub_one_of_lt depth.toNat_lt)).symm

namespace Core

variable {core changed : Core}

theorem initialise_spiralDepth (budget : Nat) (clears : Bool) :
    ((core.initialise budget clears).result core).spiralDepth = core.spiralDepth := by
  unfold initialise
  dsimp only
  split
  · rfl
  · split <;> rfl

theorem place_spiralDepth (budget : Nat) (id : String) (vector : SpiralVector)
    (added initial : List String) :
    ((core.place budget id vector added initial).result core).spiralDepth = core.spiralDepth := by
  unfold place
  split
  · rfl
  · split <;> rfl

theorem flow_spiralDepth {source target : Option String}
    (h : core.flow source target = .ok changed) : changed.spiralDepth = core.spiralDepth := by
  obtain ⟨start, goal, vector, -, -, -, rfl⟩ := flow_ok h
  rfl

theorem cycle_spiralDepth (budget : Nat) (count : UInt32) (start stop : Nat) :
    ((core.cycle budget count start stop).result core).spiralDepth = core.spiralDepth := by
  unfold cycle
  split
  · rfl
  · split <;> rfl

theorem mask_spiralDepth {node : Option String} {register : Register}
    (h : core.mask node register = .ok changed) : changed.spiralDepth = core.spiralDepth := by
  obtain ⟨id, found, -, -, rfl⟩ := mask_ok h
  rfl

theorem cryst_spiralDepth {node : Option String} (h : core.cryst node = .ok changed) :
    changed.spiralDepth = core.spiralDepth := by
  obtain ⟨id, -, rfl⟩ := cryst_ok h
  rfl

/-- Whatever an instruction comes to, no other than `spiral` changes the depth. -/
theorem apply_spiralDepth (core : Core) (budget : Nat) (lesson : Option Lesson)
    (instruction : Instruction) :
    ((core.apply budget lesson instruction).result core).spiralDepth =
      instruction.depthAfter core.spiralDepth := by
  have hattempt {attempt : Except Fault Core}
      (hok : ∀ changed, attempt = .ok changed → changed.spiralDepth = core.spiralDepth) :
      ((Change.ofExcept attempt).result core).spiralDepth = core.spiralDepth :=
    result_ofExcept (·.spiralDepth = core.spiralDepth) rfl hok
  cases instruction with
  | init clears => exact initialise_spiralDepth budget clears
  | mesh id connect => exact place_spiralDepth ..
  | forge id connect => exact place_spiralDepth ..
  | bound register min max => exact hattempt fun changed h ↦ (bound_loads h).spiralDepth
  | flow source target => exact hattempt fun changed h ↦ flow_spiralDepth h
  | seek node register => exact hattempt fun changed h ↦ (seek_loads h).spiralDepth
  | cycle count start stop => exact cycle_spiralDepth ..
  | mask node register => exact hattempt fun changed h ↦ mask_spiralDepth h
  | cryst node => exact hattempt fun changed h ↦ cryst_spiralDepth h
  | spec => exact hattempt fun changed h ↦ (spec_loads h).spiralDepth
  | bloom => cases lesson <;> rfl
  | _ => rfl

end Core

end SpiralMachine
