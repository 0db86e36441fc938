import SpiralMachine.Proofs.InPlace
import SpiralMachine.Proofs.Machine.Reachable
import SpiralMachine.Proofs.Machine.Restore

/-!
# Taking over a crystal in place

`takeOver` changes a machine step by step: the names of the registers are checked, all that comes
of earlier runs is wiped out, and then the registers and the nodes are put in one by one, and the
depth and the log. It could stop anywhere with a machine that is partly changed. `takeOver_run`
says that it does not: it comes to the machine that `restore` gives, or leaves everything as it
was.

The registers that are refused are those that no name stands for (`namedRegisters_spec`). Where
each has its name, the machine has the crystal that was taken over, filled up with zero vectors
(`restore_crystal_of_named`).
-/

set_option autoImplicit false

namespace SpiralMachine

namespace Crystal

/-- The names of all registers stand for some, or the first that does not is refused. -/
theorem namedRegisters_spec (entries : List (String × SpiralVector)) :
    ((∀ entry ∈ entries, Register.ofName? entry.1 ≠ none) ∧
        ∃ registers, namedRegisters entries = .ok registers) ∨
      ∃ before entry after, entries = before ++ entry :: after ∧
        (∀ earlier ∈ before, Register.ofName? earlier.1 ≠ none) ∧
        Register.ofName? entry.1 = none ∧
        namedRegisters entries = .error (.invalid (.unknownRegister entry.1)) := by
  induction entries with
  | nil => exact .inl ⟨nofun, [], rfl⟩
  | cons entry rest ih =>
    cases hname : Register.ofName? entry.1 with
    | none =>
      refine .inr ⟨[], entry, rest, rfl, nofun, hname, ?_⟩
      rw [namedRegisters, hname]
    | some register =>
      have hsome : Register.ofName? entry.1 ≠ none := hname ▸ Option.some_ne_none register
      rcases ih with
        ⟨hall, registers, hregisters⟩ | ⟨before, other, after, rfl, hall, hnone, herror⟩
      · refine .inl ⟨List.forall_mem_cons.mpr ⟨hsome, hall⟩, (register, entry.2) :: registers, ?_⟩
        rw [namedRegisters, hname, hregisters]
        rfl
      · refine .inr ⟨entry :: before, other, after, rfl, List.forall_mem_cons.mpr ⟨hsome, hall⟩,
          hnone, ?_⟩
        rw [namedRegisters, hname, herror]
        rfl

/-- Of registers that are set under different names, each holds what stands under its name. -/
theorem get_foldl_set_of_nodup {registers : List (Register × SpiralVector)}
    (h : (registers.map (·.1.name)).Nodup) (file : RegisterFile) (register : Register) :
    (registers.foldl (fun file (register, vector) ↦ file.set register vector) file).get register =
      ((registers.map fun (register, vector) ↦ (register.name, vector)).lookup
        register.name).getD (file.get register) := by
  induction registers generalizing file with
  | nil => rfl
  | cons held rest ih =>
    rw [List.map_cons, List.nodup_cons] at h
    rw [List.foldl_cons, ih h.2, List.map_cons, Keyed.lookup_cons, RegisterFile.get_set]
    by_cases heq : register = held.1
    · subst heq
      have hnone : (rest.map fun (register, vector) ↦ (register.name, vector)).lookup
          held.1.name = none := by
        rw [← Option.not_isSome_iff_eq_none, Keyed.lookup_isSome_iff, List.map_map]
        exact h.1
      rw [hnone, if_pos rfl, if_pos rfl]
      rfl
    · rw [if_neg heq, if_neg fun hname ↦ heq (Register.name_injective hname)]

/-- Entries under names of registers are what the names stand for. -/
theorem exists_eq_map_of_named {entries : List (String × SpiralVector)}
    (h : ∀ entry ∈ entries, entry.1 ∈ ["A", "B", "C", "D"]) :
    ∃ registers : List (Register × SpiralVector),
      entries = registers.map fun (register, vector) ↦ (register.name, vector) := by
  induction entries with
  | nil => exact ⟨[], rfl⟩
  | cons entry rest ih =>
    rw [List.forall_mem_cons] at h
    obtain ⟨register, -, hname⟩ :=
      List.mem_map.mp (show entry.1 ∈ Register.all.map Register.name from h.1)
    obtain ⟨registers, hregisters⟩ := ih h.2
    refine ⟨(register, entry.2) :: registers, ?_⟩
    rw [List.map_cons, ← hregisters]
    exact congrArg (fun name ↦ (name, entry.2) :: rest) hname.symm

/-- A register file that takes over vectors under the names of registers, each name once, holds
them, and zero elsewhere. -/
theorem registerFile_of_named {entries : List (String × SpiralVector)}
    (hnamed : ∀ entry ∈ entries, entry.1 ∈ ["A", "B", "C", "D"])
    (hnodup : (entries.map Prod.fst).Nodup) :
    ∃ registers, namedRegisters entries = .ok registers ∧ ∀ register,
      (registerFile registers).get register = (entries.lookup register.name).getD .zero := by
  obtain ⟨registers, rfl⟩ := exists_eq_map_of_named hnamed
  rw [List.map_map] at hnodup
  refine ⟨registers, namedRegisters_name registers, fun register ↦ ?_⟩
  exact (get_foldl_set_of_nodup hnodup .zero register).trans (by cases register <;> rfl)

end Crystal

namespace Machine

/-- Everything that is kept of earlier runs put back, field by field; the configuration and the
sink stay. -/
def wiped (machine : Machine) : Machine :=
  { machine with
    mesh := .empty
    registers := .zero
    ip := 0
    program := .empty
    mode := .simulate
    mansion := []
    spiralDepth := 0
    log := []
    failures := .empty
    forkCount := 0
    forks := [] }

/-- No field is forgotten. -/
theorem wiped_eq (machine : Machine) : machine.wiped = new machine.config machine.sink := rfl

/-- Puts a vector into a register. -/
def hold (machine : Machine) : Register × SpiralVector → Machine
  | (register, vector) => { machine with registers := machine.registers.set register vector }

/-- Puts a node into the mesh. -/
def put (machine : Machine) : String × Node → Machine
  | (id, node) => { machine with mesh := machine.mesh.insert id node }

/-- Takes over a crystal step by step, in place. -/
def takeOver (crystal : Crystal) : EStateM CrystalError Machine Unit := do
  let registers ← MonadExcept.ofExcept (Crystal.namedRegisters crystal.registers)
  modify wiped
  registers.forM fun held ↦ modify (·.hold held)
  crystal.mesh.entries.forM fun entry ↦ modify (·.put entry)
  modify fun machine ↦ { machine with spiralDepth := crystal.spiralDepth }
  modify fun machine ↦ { machine with log := crystal.log }

/-- Takes over the crystal that a text holds, in place. -/
def takeOverText (text : String) : EStateM CrystalError Machine Unit :=
  match Crystal.ofText? text with
  | some crystal => takeOver crystal
  | none => throw .notCrystal

/-- Registers that are set one by one leave everything else alone. -/
theorem foldl_hold (registers : List (Register × SpiralVector)) (machine : Machine) :
    registers.foldl hold machine =
      { machine with
        registers :=
          registers.foldl (fun file (register, vector) ↦ file.set register vector)
            machine.registers } := by
  induction registers generalizing machine with
  | nil => rfl
  | cons held rest ih => exact ih (machine.hold held)

/-- Nodes that are put in one by one leave everything else alone. -/
theorem foldl_put (entries : List (String × Node)) (machine : Machine) :
    entries.foldl put machine =
      { machine with
        mesh := entries.foldl (fun mesh (id, node) ↦ mesh.insert id node) machine.mesh } := by
  induction entries generalizing machine with
  | nil => rfl
  | cons entry rest ih => exact ih (machine.put entry)

theorem restore_of_named (machine : Machine) {crystal : Crystal}
    {registers : List (Register × SpiralVector)}
    (h : Crystal.namedRegisters crystal.registers = .ok registers) :
    machine.restore crystal = .ok
      { new machine.config machine.sink with
        mesh := crystal.mesh
        registers := Crystal.registerFile registers
        spiralDepth := crystal.spiralDepth
        log := crystal.log } := by
  rw [restore, h]
  rfl

theorem restore_of_unknown (machine : Machine) {crystal : Crystal} {cause : CrystalError}
    (h : Crystal.namedRegisters crystal.registers = .error cause) :
    machine.restore crystal = .error cause := by
  rw [restore, h]
  rfl

/-- Taking over a crystal in place comes to the machine that is restored from it, or leaves the
machine as it was. -/
theorem takeOver_run (crystal : Crystal) (machine : Machine) :
    takeOver crystal machine =
      match machine.restore crystal with
      | .ok restored => .ok () restored
      | .error cause => .error cause machine := by
  cases hregisters : Crystal.namedRegisters crystal.registers with
  | error cause =>
    rw [machine.restore_of_unknown hregisters, takeOver, hregisters]
    rfl
  | ok registers =>
    have hput : (crystal.mesh.entries.foldl put (registers.foldl hold machine.wiped)) =
        { new machine.config machine.sink with
          mesh := crystal.mesh
          registers := Crystal.registerFile registers } := by
      rw [wiped_eq, foldl_hold, foldl_put]
      congr 1
      exact congrArg (Core.mk · _ _) (Mesh.ofList_entries crystal.mesh)
    rw [machine.restore_of_named hregisters, takeOver, hregisters]
    refine (bind_of_ok rfl).trans <| (bind_of_ok rfl).trans <|
      (bind_of_ok (forM_modify registers hold _)).trans <|
      (bind_of_ok (forM_modify crystal.mesh.entries put _)).trans ?_
    rw [hput]
    rfl

/-- A machine takes over a crystal unless a name in it is no register's, the first of which is
reported. -/
theorem restore_spec (machine : Machine) (crystal : Crystal) :
    let known (entry : String × SpiralVector) : Prop :=
      Text.raiseAscii (Text.trim entry.1) ∈ ["A", "B", "C", "D"]
    ((∀ entry ∈ crystal.registers, known entry) ∧
        ∃ restored, machine.restore crystal = .ok restored) ∨
      ∃ before entry after, crystal.registers = before ++ entry :: after ∧
        (∀ earlier ∈ before, known earlier) ∧ ¬known entry ∧
        machine.restore crystal = .error (.invalid (.unknownRegister entry.1)) := by
  have hknown {text : String} (h : Register.ofName? text ≠ none) :
      Text.raiseAscii (Text.trim text) ∈ ["A", "B", "C", "D"] :=
    not_not.mp (mt Register.ofName?_eq_none_iff.mpr h)
  rcases Crystal.namedRegisters_spec crystal.registers with
    ⟨hall, registers, hregisters⟩ | ⟨before, entry, after, hsplit, hall, hnone, herror⟩
  · exact .inl ⟨fun entry hentry ↦ hknown (hall entry hentry), _,
      machine.restore_of_named hregisters⟩
  · exact .inr ⟨before, entry, after, hsplit, fun earlier hearlier ↦ hknown (hall earlier hearlier),
      Register.ofName?_eq_none_iff.mp hnone, machine.restore_of_unknown herror⟩

/-- What a machine takes over, it takes over under any configuration and sink, whatever it held. -/
theorem restore_other {machine restored : Machine} {crystal : Crystal}
    (h : machine.restore crystal = .ok restored) (other : Machine) :
    other.restore crystal = .ok { restored with config := other.config, sink := other.sink } := by
  obtain ⟨registers, hregisters, rfl⟩ := restore_eq h
  exact other.restore_of_named hregisters

/-- A machine that has taken over registers under their names has the crystal that it took, with
zero vectors under the names that were missing. -/
theorem restore_crystal_of_named (machine : Machine) {crystal : Crystal}
    (hnamed : ∀ entry ∈ crystal.registers, entry.1 ∈ ["A", "B", "C", "D"])
    (hnodup : (crystal.registers.map Prod.fst).Nodup) :
    ∃ restored, machine.restore crystal = .ok restored ∧
      restored.crystal =
        { crystal with
          registers := Register.all.map fun register ↦
            (register.name, (crystal.registers.lookup register.name).getD .zero) } := by
  obtain ⟨registers, hregisters, hfile⟩ := Crystal.registerFile_of_named hnamed hnodup
  refine ⟨_, machine.restore_of_named hregisters, ?_⟩
  unfold Machine.crystal RegisterFile.toList
  dsimp only
  rw [List.map_map]
  congr 1
  exact List.map_congr_left fun register _ ↦ congrArg (register.name, ·) (hfile register)

/-- A crystal is taken over as a whole or not at all. It is refused exactly if a name in it is no
register's, which is the first such name, and then the machine is left as it was, as it is by a
text that holds no crystal. Otherwise nothing of earlier runs is left: machines of one
configuration become equal but for their sinks, with the mode, the place, the program, the mansion,
the failures and the forks of a fresh one. What the machine keeps is then the crystal, with zero
vectors in the registers that it did not name. -/
theorem restore_all_or_nothing :
    (∀ (machine : Machine) (crystal : Crystal),
      let known (entry : String × SpiralVector) : Prop :=
        Text.raiseAscii (Text.trim entry.1) ∈ ["A", "B", "C", "D"]
      ((∃ cause, machine.restore crystal = .error cause) ↔
        ∃ entry ∈ crystal.registers, ¬known entry) ∧
      (∀ cause, machine.restore crystal = .error cause →
        takeOver crystal machine = .error cause machine ∧
          ∃ before entry after, crystal.registers = before ++ entry :: after ∧
            (∀ earlier ∈ before, known earlier) ∧ ¬known entry ∧
            cause = .invalid (.unknownRegister entry.1)) ∧
      (∀ restored, machine.restore crystal = .ok restored →
        takeOver crystal machine = .ok () restored ∧
          restored.mesh = crystal.mesh ∧ restored.spiralDepth = crystal.spiralDepth ∧
          restored.log = crystal.log ∧ restored.mode = .simulate ∧ restored.ip = 0 ∧
          restored.program = .empty ∧ restored.mansion = [] ∧ restored.failures = .empty ∧
          restored.forkCount = 0 ∧ restored.forks = [] ∧ restored.config = machine.config ∧
          ∀ other : Machine, other.config = machine.config →
            other.restore crystal = .ok { restored with sink := other.sink }) ∧
      ((∀ entry ∈ crystal.registers, entry.1 ∈ ["A", "B", "C", "D"]) →
        (crystal.registers.map Prod.fst).Nodup →
        ∃ restored, machine.restore crystal = .ok restored ∧
          restored.crystal =
            { crystal with
              registers := Register.all.map fun register ↦
                (register.name, (crystal.registers.lookup register.name).getD .zero) })) ∧
    ∀ (machine : Machine) (text : String),
      (Crystal.ofText? text = none →
        machine.restoreText text = .error .notCrystal ∧
          takeOverText text machine = .error .notCrystal machine) ∧
      ∀ crystal, Crystal.ofText? text = some crystal →
        machine.restoreText text = machine.restore crystal ∧
          takeOverText text machine = takeOver crystal machine := by
  refine ⟨fun machine crystal ↦ ?_, fun machine text ↦ ⟨fun hnone ↦ ?_, fun crystal hsome ↦ ?_⟩⟩
  · have hrun := takeOver_run crystal machine
    refine ⟨?_, fun cause hcause ↦ ?_, fun restored hrestored ↦ ?_,
      fun hnamed hnodup ↦ machine.restore_crystal_of_named hnamed hnodup⟩
    · rcases machine.restore_spec crystal with
        ⟨hall, restored, hrestored⟩ | ⟨before, entry, after, hsplit, -, hbad, herror⟩
      · refine iff_of_false ?_ ?_
        · rintro ⟨cause, hcause⟩
          exact nomatch hcause.symm.trans hrestored
        · rintro ⟨entry, hentry, hbad⟩
          exact hbad (hall entry hentry)
      · refine iff_of_true ⟨_, herror⟩ ⟨entry, ?_, hbad⟩
        rw [hsplit]
        exact List.mem_append_right _ List.mem_cons_self
    · rw [hcause] at hrun
      refine ⟨hrun, ?_⟩
      rcases machine.restore_spec crystal with
        ⟨-, restored, hrestored⟩ | ⟨before, entry, after, hsplit, hall, hbad, herror⟩
      · exact nomatch hrestored.symm.trans hcause
      · exact ⟨before, entry, after, hsplit, hall, hbad,
          Except.error.inj (hcause.symm.trans herror)⟩
    · rw [hrestored] at hrun
      have hother (other : Machine) (hconfig : other.config = machine.config) :
          other.restore crystal = .ok { restored with sink := other.sink } := by
        have hsame : restored.config = machine.config := by
          obtain ⟨_, -, rfl⟩ := restore_eq hrestored
          rfl
        rw [restore_other hrestored other, hconfig, ← hsame]
      obtain ⟨registers, -, rfl⟩ := restore_eq hrestored
      exact ⟨hrun, rfl, rfl, rfl, rfl, rfl, rfl, rfl, rfl, rfl, rfl, rfl, hother⟩
  · rw [restoreText, takeOverText, hnone]
    exact ⟨rfl, rfl⟩
  · rw [restoreText, takeOverText, hsome]
    exact ⟨rfl, rfl⟩

/-- A machine in the middle of its history, and crystals of one node. A name between blanks is
taken for the register's, but a second one that is no register's is refused, and so is a text that
is no crystal. -/
theorem restore_all_or_nothing_of_unknown_name :
    let machine : Machine :=
      { new .default .memory with
        spiralDepth := 7
        mode := .arm
        ip := 3
        mansion := [.of .exception .seed "lesson"]
        forkCount := 1
        forks := [1] }
    let other : Machine := new .default .none
    let crystal (names : List String) : Crystal :=
      { mesh := .ofList [("node", .new .seed)]
        registers := names.map (·, .seed)
        spiralDepth := 2
        log := [] }
    takeOver (crystal ["A", "Z"]) machine =
        .error (.invalid (.unknownRegister "Z")) machine ∧
      takeOverText "{}" machine = .error .notCrystal machine ∧
      (∃ restored, takeOver (crystal [" b\n"]) machine = .ok () restored ∧
        restored.mode = .simulate ∧ restored.forks = [] ∧
        other.restore (crystal [" b\n"]) = .ok { restored with sink := .none }) ∧
      ∃ restored, machine.restore (crystal ["B"]) = .ok restored ∧
        restored.crystal =
          { crystal [] with
            registers := [("A", .zero), ("B", .seed), ("C", .zero), ("D", .zero)] } := by
  intro machine other crystal
  obtain ⟨hcrystals, htexts⟩ := restore_all_or_nothing
  refine ⟨?_, ?_, ?_, ?_⟩
  · obtain ⟨-, hrefused, -, -⟩ := hcrystals machine (crystal ["A", "Z"])
    exact (hrefused _ (machine.restore_of_unknown rfl)).1
  · exact ((htexts machine "{}").1 (by rfl)).2
  · obtain ⟨-, -, htaken, -⟩ := hcrystals machine (crystal [" b\n"])
    obtain ⟨hrun, -, -, -, hmode, -, -, -, -, -, hforks, -, hother⟩ :=
      htaken _ (machine.restore_of_named rfl)
    exact ⟨_, hrun, hmode, hforks, hother other rfl⟩
  · obtain ⟨-, -, -, hnamed⟩ := hcrystals machine (crystal ["B"])
    exact hnamed (by decide) (by decide)

end Machine

end SpiralMachine
