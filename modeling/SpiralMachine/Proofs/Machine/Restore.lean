import SpiralMachine.Machine.Basic
import SpiralMachine.Proofs.Crystal.Text

/-!
# Machines kept as text

A machine is written down as its crystal, and `restoreText_toText` says that the text gives
any machine the mesh, the registers, the depth and the log of the one it was written of,
and that a machine with a number which JSON cannot hold is not written down at all. The registers
go through their names: `namedRegisters_name` reads the names back, and
`registerFile_toList` fills a file with what they stand for.
-/

set_option autoImplicit false

namespace SpiralMachine

namespace Crystal

/-- The names of registers stand for these registers. -/
theorem namedRegisters_name (registers : List (Register × SpiralVector)) :
    namedRegisters (registers.map fun (register, vector) ↦ (register.name, vector)) =
      .ok registers := by
  induction registers with
  | nil => rfl
  | cons entry rest ih =>
    obtain ⟨register, vector⟩ := entry
    rw [List.map_cons, namedRegisters, Register.ofName?_name, ih]
    rfl

/-- A file that takes over what every register holds is that file. -/
theorem registerFile_toList (file : RegisterFile) : registerFile file.toList = file :=
  RegisterFile.ext fun register ↦ by cases register <;> rfl

end Crystal

namespace Machine

/-- A machine as it is after it has taken over what another keeps. -/
def holding (machine kept : Machine) : Machine :=
  { new machine.config machine.sink with
    mesh := kept.mesh
    registers := kept.registers
    spiralDepth := kept.spiralDepth
    log := kept.log }

/-- The numbers that a machine keeps are finite. -/
structure Finite (machine : Machine) : Prop where
  nodes : ∀ entry ∈ machine.mesh.entries, entry.2.Finite
  registers : ∀ register, (machine.registers.get register).isFinite
  log : ∀ entry ∈ machine.log, entry.isFinite

theorem crystal_finite_iff {machine : Machine} : machine.crystal.Finite ↔ machine.Finite := by
  have hregisters : (∀ entry ∈ machine.crystal.registers, entry.2.isFinite) ↔
      ∀ register, (machine.registers.get register).isFinite := by
    refine ⟨fun h register ↦ ?_, fun h entry hentry ↦ ?_⟩
    · refine h (register.name, machine.registers.get register) ?_
      exact List.mem_map_of_mem (List.mem_map_of_mem (by cases register <;> decide))
    · obtain ⟨held, hheld, rfl⟩ := List.mem_map.mp hentry
      obtain ⟨register, -, rfl⟩ := List.mem_map.mp hheld
      exact h register
  exact ⟨fun h ↦ ⟨h.nodes, hregisters.mp h.registers, h.log⟩,
    fun h ↦ ⟨h.nodes, hregisters.mpr h.registers, h.log⟩⟩

/-- The registers of a crystal stand in the order of their names. -/
theorem sorted_crystal_registers (machine : Machine) :
    Keyed.Sorted machine.crystal.registers := by
  show ["A", "B", "C", "D"].Pairwise (· < ·)
  decide

theorem restore_crystal (machine kept : Machine) :
    machine.restore kept.crystal = .ok (machine.holding kept) := by
  unfold restore crystal
  dsimp only
  rw [Crystal.namedRegisters_name]
  show Except.ok { new machine.config machine.sink with
    mesh := kept.mesh
    registers := Crystal.registerFile kept.registers.toList
    spiralDepth := kept.spiralDepth
    log := kept.log } = _
  rw [Crystal.registerFile_toList]
  rfl

/-- A machine with finite numbers and readable memories is written down, and any other machine
takes it over from that text. -/
theorem restoreText_text (machine : Machine) {kept : Machine} (hfinite : kept.Finite)
    (hlegible : kept.mesh.Legible) :
    kept.toText = .ok kept.crystal.text ∧
      machine.restoreText kept.crystal.text = .ok (machine.holding kept) := by
  have hcrystal := crystal_finite_iff.mpr hfinite
  constructor
  · rw [toText, Crystal.checkFinite, Crystal.flaw?_eq_none_iff.mpr hcrystal]
    rfl
  · rw [restoreText, Crystal.ofText?_text hcrystal kept.sorted_crystal_registers hlegible]
    exact machine.restore_crystal kept

/-- A machine whose numbers are finite and whose memories are no deeper than the reader goes is
written down, and any machine that takes over the text, whatever it held, has its mesh with
the nodes in their order, its registers, its depth and its log, and is a fresh machine in
all else. A machine with a number that is not finite is refused as invalid. -/
theorem restoreText_toText (machine : Machine) :
    (machine.Finite → machine.mesh.Legible →
      ∃ text, machine.toText = .ok text ∧
        ∀ other : Machine, other.restoreText text = .ok
          { new other.config other.sink with
            mesh := machine.mesh
            registers := machine.registers
            spiralDepth := machine.spiralDepth
            log := machine.log }) ∧
    (¬ machine.Finite → ∃ flaw, machine.toText = .error (.invalid flaw)) := by
  refine ⟨fun hfinite hlegible ↦ ?_, fun hfinite ↦ ?_⟩
  · refine ⟨machine.crystal.text, ?_, fun other ↦ ?_⟩
    · exact (restoreText_text machine hfinite hlegible).1
    · exact (restoreText_text other hfinite hlegible).2
  · have hflaw : machine.crystal.flaw? ≠ none :=
      fun h ↦ hfinite (crystal_finite_iff.mp (Crystal.flaw?_eq_none_iff.mp h))
    obtain ⟨flaw, hflaw⟩ := Option.ne_none_iff_exists'.mp hflaw
    refine ⟨flaw, ?_⟩
    rw [toText, Crystal.checkFinite, hflaw]
    rfl

/-- A node of extreme numbers that is connected to itself twice and to a node that is missing:
its machine is taken over from its text. With an infinite component it is refused. -/
theorem restoreText_toText_of_extremes :
    let node : Node :=
      { vector := ⟨-0.0, 5e-324, 1.7976931348623157e308, 0.1⟩
        memory := [("list", .list [.integer (-1), .real (-0.0), .object []]), ("text", .string "φ")]
        connections := ["self", "missing", "self"]
        resonance := -2.5 }
    let kept : Machine :=
      { new .default .none with
        mesh := Mesh.empty.insert "self" node
        spiralDepth := 4294967295
        log := [⟨"MESH", 1.0, -0.0, -1.0⟩] }
    let infinite : Machine :=
      { kept with registers := kept.registers.set .b ⟨0.0, 0.0, 1.0 / 0.0, 0.0⟩ }
    kept.Finite ∧ kept.mesh.Legible ∧ ¬ infinite.Finite ∧
      (∃ text, kept.toText = .ok text ∧
        ∀ other : Machine, other.restoreText text = .ok
          { new other.config other.sink with
            mesh := kept.mesh
            registers := kept.registers
            spiralDepth := kept.spiralDepth
            log := kept.log }) ∧
      ∃ flaw, infinite.toText = .error (.invalid flaw) := by
  intro node kept infinite
  have hentries : kept.mesh.entries = [("self", node)] := rfl
  have hfinite : kept.Finite := by
    refine ⟨?_, ?_, ?_⟩
    · rw [hentries, List.forall_mem_singleton]
      unfold Node.Finite
      decide +kernel
    · intro register
      cases register <;> decide +kernel
    · decide +kernel
  have hlegible : kept.mesh.Legible := by
    unfold Mesh.Legible
    rw [hentries, List.forall_mem_singleton]
    have hsorted : Keyed.Sorted node.memory := by
      show ["list", "text"].Pairwise (· < ·)
      decide
    have hreal : (-0.0 : Float).isFinite := by decide +kernel
    show Json.Readable (121 + 1 + 1 + 1) (.object node.memory)
    simpa [Json.Readable, node, Keyed.sorted_nil, hreal] using hsorted
  have hinfinite : ¬ infinite.Finite := fun h ↦ absurd (h.registers .b) (by decide +kernel)
  exact ⟨hfinite, hlegible, hinfinite, (restoreText_toText kept).1 hfinite hlegible,
    (restoreText_toText infinite).2 hinfinite⟩

end Machine

end SpiralMachine
