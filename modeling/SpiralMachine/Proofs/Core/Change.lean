import SpiralMachine.Core
import SpiralMachine.Proofs.Attempt

/-!
# What is left of a core

An instruction that is applied leaves the core that it makes, one that is a fault the core as
it was, and one for which the node budget was too small the core as far as it came. This is
the `result` of a change, and `error?` what it reports of an exhausted budget.

Many instructions are attempts at a core. What they do to it is read off a success, since a
failed attempt changes nothing (`result_ofExcept`), and a success is taken apart once for each of
them (`flow_ok`, `mask_ok` and their like). Some load a register and do nothing else (`Loads`). Of
all instructions `bloom` alone looks at the last lesson (`apply_of_ne_bloom`).
-/

set_option autoImplicit false

namespace SpiralMachine

namespace Change

/-- The core that is left of one that was to be changed; a fault leaves it as it was. -/
def result (core : Core) : Change → Core
  | .applied changed => changed
  | .full changed => changed
  | .fault _ => core

/-- The error of a change for which the node budget was too small. -/
def error? (budget : Nat) : Change → Option RunError
  | .full changed => some (.capacityExceeded changed.mesh.size budget)
  | _ => none

end Change

namespace Core

variable {core changed : Core}

/-- What a core has, and every core that an attempt at it can make, is left after the
attempt. -/
theorem result_ofExcept (holds : Core → Prop) (h : holds core) {attempt : Except Fault Core}
    (hok : ∀ changed, attempt = .ok changed → holds changed) :
    holds ((Change.ofExcept attempt).result core) := by
  cases attempt with
  | error cause => exact h
  | ok changed => exact hok changed rfl

/-- Only `bloom` looks at the last lesson. -/
theorem apply_of_ne_bloom {instruction : Instruction} (h : instruction ≠ .bloom) (budget : Nat)
    (lesson other : Option Lesson) :
    core.apply budget lesson instruction = core.apply budget other instruction := by
  cases instruction with
  | bloom => exact absurd rfl h
  | _ => rfl

/-! ### What an attempt that fails reports -/

theorem eq_error_of_ofExcept {attempt : Except Fault Core} {fault : Fault}
    (h : Change.ofExcept attempt = .fault fault) : attempt = .error fault := by
  cases attempt with
  | error cause =>
    cases h
    rfl
  | ok changed => cases h

/-- What is looked up and missing is reported as it is to be. -/
theorem eq_none_of_elim {α : Type} {found : Option α} {cause fault : Fault}
    (h : found.elim (.error cause) .ok = (.error fault : Except Fault α)) :
    found = none ∧ fault = cause := by
  cases found with
  | none =>
    cases h
    exact ⟨rfl, rfl⟩
  | some value => cases h

/-- A node is placed, or there is no room for it. -/
theorem place_ne_fault (budget : Nat) (id : String) (vector : SpiralVector)
    (added initial : List String) (fault : Fault) :
    core.place budget id vector added initial ≠ .fault fault := by
  unfold place
  split
  · exact nofun
  · split <;> exact nofun

/-! ### What an attempt that succeeds has done -/

/-- What was looked for and is reported as missing otherwise was found. -/
theorem eq_some_of_elim {α : Type} {found : Option α} {cause : Fault} {value : α}
    (h : found.elim (.error cause) .ok = (.ok value : Except Fault α)) : found = some value := by
  cases found with
  | none => cases h
  | some other =>
    cases h
    rfl

/-- A vector that was checked is finite, and it is stored as it is. -/
theorem finite_ok {op : Opcode} {vector checked : SpiralVector}
    (h : finite op vector = .ok checked) : checked = vector ∧ vector.isFinite := by
  unfold finite at h
  split at h
  · rename_i hfinite
    cases h
    exact ⟨rfl, hfinite⟩
  · cases h

/-- The target of an instruction is the node that it names or else the last one, and it is there. -/
theorem target_ok {op : Opcode} {node : Option String} {id : String}
    (h : core.target op node = .ok id) :
    node.or core.mesh.lastId? = some id ∧ id ∈ core.mesh.ids := by
  unfold target at h
  split at h
  · split at h <;> cases h
    rename_i hcontains
    exact ⟨rfl, Mesh.contains_iff.mp hcontains⟩
  · have hlast := eq_some_of_elim h
    exact ⟨hlast, List.mem_of_getLast? hlast⟩

theorem bound_ok {register : Register} {min max : Float}
    (h : core.bound register min max = .ok changed) :
    min.isFinite ∧ max.isFinite ∧
      changed = core.setRegister register ((core.registers.get register).clamp min max) := by
  unfold bound at h
  split at h
  · cases h
  · rename_i hvalid
    cases h
    simp only [Bool.or_eq_true, Bool.not_eq_true', not_or, Bool.not_eq_false] at hvalid
    exact ⟨hvalid.1.1, hvalid.1.2, rfl⟩

theorem seek_ok {node : Option String} {register : Register}
    (h : core.seek node register = .ok changed) :
    ∃ vector, changed = core.setRegister register vector := by
  unfold seek at h
  dsimp only at h
  split at h <;> split at h <;> cases h <;> exact ⟨_, rfl⟩

theorem spec_ok (h : core.spec = .ok changed) :
    ∃ vector : SpiralVector, vector.isFinite ∧ changed = core.setRegister .d vector := by
  obtain ⟨spectrum, hspectrum, h⟩ := Except.exists_of_bind h
  cases h
  obtain ⟨rfl, hfinite⟩ := finite_ok hspectrum
  exact ⟨_, hfinite, rfl⟩

/-- A flow has moved the vector of its target to a finite one, and connected its source to it,
unless they are the same. -/
theorem flow_ok {source target : Option String} (h : core.flow source target = .ok changed) :
    ∃ start goal vector, source.or core.mesh.firstId? = some start ∧
      target.or core.mesh.lastId? = some goal ∧ vector.isFinite ∧
      let moved := core.mesh.modify goal fun node ↦ { node with vector }
      changed = { core with
        mesh := if start = goal then moved else moved.modify start (·.connect goal) } := by
  unfold flow at h
  obtain ⟨start, hstart, h⟩ := Except.exists_of_bind h
  obtain ⟨goal, hgoal, h⟩ := Except.exists_of_bind h
  obtain ⟨origin, -, h⟩ := Except.exists_of_bind h
  obtain ⟨node, -, h⟩ := Except.exists_of_bind h
  obtain ⟨vector, hvector, h⟩ := Except.exists_of_bind h
  obtain ⟨rfl, hfinite⟩ := finite_ok hvector
  refine ⟨start, goal, _, eq_some_of_elim hstart, eq_some_of_elim hgoal, hfinite, ?_⟩
  dsimp only at h ⊢
  split at h <;> rename_i heq <;> cases h
  · rw [if_pos heq]
  · rw [if_neg heq]

theorem mask_ok {node : Option String} {register : Register}
    (h : core.mask node register = .ok changed) :
    ∃ id found, core.target .mask node = .ok id ∧ core.mesh.get? id = some found ∧
      changed = { core with
        mesh := core.mesh.modify id fun node ↦
          { node with vector := core.registers.get register }
        registers := core.registers.set register found.vector } := by
  unfold mask at h
  obtain ⟨id, hid, h⟩ := Except.exists_of_bind h
  split at h <;> cases h
  rename_i found hfound
  exact ⟨id, found, hid, hfound, rfl⟩

theorem cryst_ok {node : Option String} (h : core.cryst node = .ok changed) :
    ∃ id, core.target .cryst node = .ok id ∧
      changed = { core with
        mesh := core.mesh.modify id fun node ↦ { node with
          memory := Keyed.insert "crystal_depth" (.integer core.spiralDepth.toNat)
            (Keyed.insert "crystal" (.reals core.registers.a.toList) node.memory) } } := by
  unfold cryst at h
  obtain ⟨id, hid, h⟩ := Except.exists_of_bind h
  cases h
  exact ⟨id, hid, rfl⟩

/-! ### Loading a register -/

/-- Cores that differ in one register at most. -/
def Loads (core changed : Core) : Prop :=
  ∃ register vector, changed = core.setRegister register vector

theorem Loads.mesh {changed : Core} : core.Loads changed → changed.mesh = core.mesh := by
  rintro ⟨register, vector, rfl⟩
  rfl

theorem Loads.spiralDepth {changed : Core} :
    core.Loads changed → changed.spiralDepth = core.spiralDepth := by
  rintro ⟨register, vector, rfl⟩
  rfl

theorem bound_loads {register : Register} {min max : Float}
    (h : core.bound register min max = .ok changed) : core.Loads changed :=
  ⟨register, _, (bound_ok h).2.2⟩

theorem seek_loads {node : Option String} {register : Register}
    (h : core.seek node register = .ok changed) : core.Loads changed :=
  ⟨register, seek_ok h⟩

theorem spec_loads (h : core.spec = .ok changed) : core.Loads changed := by
  obtain ⟨vector, -, hchanged⟩ := spec_ok h
  exact ⟨.d, vector, hchanged⟩

end Core

end SpiralMachine
