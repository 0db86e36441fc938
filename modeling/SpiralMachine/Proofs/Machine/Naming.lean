import SpiralMachine.Proofs.Machine.TakeOver
import SpiralMachine.Proofs.Text.Keyed

/-!
# Two names for one register

The registers of a crystal are kept under names, and a register has many: blanks around a name
and the case of its letter do not count. So a crystal can have several entries for one register,
and what a machine holds after it has taken the crystal over is the last of them
(`Crystal.get_registerFile`). Nothing is lost exactly if the entries for a register agree
(`restore_holds_last`), as they do in a text in which every register has its own name.
-/

set_option autoImplicit false

namespace SpiralMachine

namespace Crystal

/-- The vector of the last entry whose name stands for a register. -/
def lastNamed? (entries : List (String × SpiralVector)) (register : Register) :
    Option SpiralVector :=
  (entries.filter fun entry ↦ Register.ofName? entry.1 = some register).getLast?.map Prod.snd

variable {entries : List (String × SpiralVector)} {registers : List (Register × SpiralVector)}

/-- Registers that are set one after another hold the last entry for each of them. -/
theorem get_foldl_set_last (h : namedRegisters entries = .ok registers) (file : RegisterFile)
    (register : Register) :
    (registers.foldl (fun file (register, vector) ↦ file.set register vector) file).get register =
      (lastNamed? entries register).getD (file.get register) := by
  induction entries generalizing registers file with
  | nil =>
    cases h
    rfl
  | cons entry rest ih =>
    unfold namedRegisters at h
    split at h
    · rename_i named hname
      obtain ⟨others, hothers, hregisters⟩ := Except.exists_of_bind h
      cases hregisters
      rw [List.foldl_cons, ih hothers, RegisterFile.get_set, lastNamed?, lastNamed?,
        List.filter_cons, hname]
      by_cases heq : register = named
      · rw [heq, if_pos rfl, if_pos (by simp), List.getLast?_cons]
        cases (List.filter _ rest).getLast? <;> rfl
      · rw [if_neg heq, if_neg (by simpa using Ne.symm heq)]
    · cases h

/-- A register file that was filled from named entries holds the last for each register, and zero
where there is none. -/
theorem get_registerFile (h : namedRegisters entries = .ok registers) (register : Register) :
    (registerFile registers).get register = (lastNamed? entries register).getD .zero := by
  rw [registerFile, get_foldl_set_last h]
  cases register <;> rfl

/-- An entry whose name stands for a register is among those of which the last counts. -/
theorem exists_lastNamed? {entry : String × SpiralVector} (hentry : entry ∈ entries)
    {register : Register} (hname : Register.ofName? entry.1 = some register) :
    ∃ last ∈ entries, Register.ofName? last.1 = some register ∧
      lastNamed? entries register = some last.2 := by
  have hmem : entry ∈ entries.filter fun entry ↦ Register.ofName? entry.1 = some register :=
    List.mem_filter.mpr ⟨hentry, decide_eq_true hname⟩
  obtain ⟨last, hlast⟩ := Option.isSome_iff_exists.mp
    (List.getLast?_isSome.mpr (List.ne_nil_of_mem hmem))
  obtain ⟨hlastMem, hlastName⟩ := List.mem_filter.mp (List.mem_of_getLast? hlast)
  refine ⟨last, hlastMem, of_decide_eq_true hlastName, ?_⟩
  rw [lastNamed?, hlast]
  rfl

/-- The names of the registers of a crystal that was read differ. -/
theorem nodup_names_of_ofText? {text : String} {crystal : Crystal}
    (h : ofText? text = some crystal) : (crystal.registers.map Prod.fst).Nodup := by
  suffices hsorted : Keyed.Sorted crystal.registers from
    List.Pairwise.imp (fun hlt ↦ ne_of_lt hlt) hsorted
  obtain ⟨document, -, h⟩ := Option.bind_eq_some_iff.mp h
  obtain ⟨fields, -, h⟩ := Option.bind_eq_some_iff.mp h
  split at h
  · obtain ⟨mesh, -, h⟩ := Option.bind_eq_some_iff.mp h
    obtain ⟨registers, hregisters, h⟩ := Option.bind_eq_some_iff.mp h
    obtain ⟨depth, -, h⟩ := Option.bind_eq_some_iff.mp h
    obtain ⟨log, -, h⟩ := Option.bind_eq_some_iff.mp h
    cases h
    obtain ⟨members, -, hregisters⟩ := Option.bind_eq_some_iff.mp hregisters
    obtain ⟨entries, -, hregisters⟩ := Option.bind_eq_some_iff.mp hregisters
    cases hregisters
    exact (Keyed.sorted_ofList entries).1
  · cases h

end Crystal

namespace Machine

/-- Nothing of a crystal's registers is lost in a machine: the register that each name stands for
holds the vector under that name. -/
def HoldsAll (machine : Machine) (entries : List (String × SpiralVector)) : Prop :=
  ∀ entry ∈ entries, ∀ register, Register.ofName? entry.1 = some register →
    machine.registers.get register = entry.2

variable {machine restored : Machine} {crystal : Crystal}

/-- Nothing is lost exactly if entries for one register agree. -/
theorem holdsAll_iff
    (hlast : ∀ register, restored.registers.get register =
      (Crystal.lastNamed? crystal.registers register).getD .zero) :
    restored.HoldsAll crystal.registers ↔
      ∀ entry ∈ crystal.registers, ∀ other ∈ crystal.registers, ∀ register,
        Register.ofName? entry.1 = some register → Register.ofName? other.1 = some register →
          entry.2 = other.2 := by
  constructor
  · intro hall entry hentry other hother register hname hotherName
    rw [← hall entry hentry register hname, ← hall other hother register hotherName]
  · intro hagree entry hentry register hname
    obtain ⟨last, hmem, hlastName, heq⟩ := Crystal.exists_lastNamed? hentry hname
    rw [hlast, heq]
    exact hagree last hmem entry hentry register hlastName hname

/-- After a crystal was taken over, each register holds the vector of the last entry whose name
stands for it, and zero if there is none. So every entry is held exactly if no two entries
for one register differ, and in particular if the crystal was read from a text in which registers
have their own names. -/
theorem restore_holds_last (h : machine.restore crystal = .ok restored) :
    (∀ register, restored.registers.get register =
      (Crystal.lastNamed? crystal.registers register).getD .zero) ∧
    (restored.HoldsAll crystal.registers ↔
      ∀ entry ∈ crystal.registers, ∀ other ∈ crystal.registers, ∀ register,
        Register.ofName? entry.1 = some register → Register.ofName? other.1 = some register →
          entry.2 = other.2) ∧
    ∀ text, Crystal.ofText? text = some crystal →
      (∀ entry ∈ crystal.registers, entry.1 ∈ ["A", "B", "C", "D"]) →
        restored.HoldsAll crystal.registers := by
  have hlast (register : Register) : restored.registers.get register =
      (Crystal.lastNamed? crystal.registers register).getD .zero := by
    obtain ⟨registers, hregisters, rfl⟩ := restore_eq h
    exact Crystal.get_registerFile hregisters register
  refine ⟨hlast, holdsAll_iff hlast, fun text htext hnamed ↦ (holdsAll_iff hlast).mpr ?_⟩
  intro entry hentry other hother register hname hotherName
  -- among the names of registers themselves, one register has one name
  have hself {entry : String × SpiralVector} (hentry : entry ∈ crystal.registers)
      (hname : Register.ofName? entry.1 = some register) : entry.1 = register.name := by
    obtain ⟨named, -, heq⟩ :=
      List.mem_map.mp (show entry.1 ∈ Register.all.map Register.name from hnamed entry hentry)
    rw [← heq, Register.ofName?_name] at hname
    rw [← heq, Option.some.inj hname]
  have heq : entry = other := List.inj_on_of_nodup_map (Crystal.nodup_names_of_ofText? htext)
    hentry hother ((hself hentry hname).trans (hself hother hotherName).symm)
  rw [heq]

/-- A crystal that has two entries for register A, of which the second is in lower case. -/
def twiceNamed : String :=
  "\x7b\"mesh\":\x7b\x7d,\"registers\":\x7b\"A\":[1,2,3,4],\"a\":[5,6,7,8]\x7d," ++
    "\"spiral_depth\":0,\"resonance_log\":[]\x7d"

theorem exists_twiceNamed : ∃ crystal, Crystal.ofText? twiceNamed = some crystal ∧
    crystal.registers = [("A", ⟨1.0, 2.0, 3.0, 4.0⟩), ("a", ⟨5.0, 6.0, 7.0, 8.0⟩)] :=
  ⟨_, rfl, rfl⟩

/-- A machine that has taken it over holds the second entry, and zero in the other registers. -/
theorem holds_last_of_twiceNamed :
    ∃ crystal restored, Crystal.ofText? twiceNamed = some crystal ∧
      (new .default .none).restore crystal = .ok restored ∧
      restored.registers.get .a = ⟨5.0, 6.0, 7.0, 8.0⟩ ∧ restored.registers.get .b = .zero := by
  obtain ⟨crystal, hcrystal, hregisters⟩ := exists_twiceNamed
  obtain ⟨restored, hrestored⟩ : ∃ restored, (new .default .none).restore crystal = .ok restored :=
    ⟨_, restore_of_named _ (by rw [hregisters]; rfl)⟩
  obtain ⟨hlast, -, -⟩ := restore_holds_last hrestored
  refine ⟨crystal, restored, hcrystal, hrestored, ?_, ?_⟩
  · rw [hlast, hregisters]
    rfl
  · rw [hlast, hregisters]
    rfl

/-- The first entry is lost, without a word. -/
theorem restore_loses_entry :
    ∃ crystal restored, Crystal.ofText? twiceNamed = some crystal ∧
      (new .default .none).restore crystal = .ok restored ∧
      ("A", ⟨1.0, 2.0, 3.0, 4.0⟩) ∈ crystal.registers ∧
      ("a", ⟨5.0, 6.0, 7.0, 8.0⟩) ∈ crystal.registers ∧
      Register.ofName? "A" = some .a ∧ Register.ofName? "a" = some .a ∧
      restored.registers.get .a ≠ ⟨1.0, 2.0, 3.0, 4.0⟩ ∧ ¬restored.HoldsAll crystal.registers := by
  obtain ⟨crystal, hcrystal, hregisters⟩ := exists_twiceNamed
  have hnamed : Crystal.namedRegisters crystal.registers =
      .ok [(.a, ⟨1.0, 2.0, 3.0, 4.0⟩), (.a, ⟨5.0, 6.0, 7.0, 8.0⟩)] := by
    rw [hregisters]
    rfl
  have hlost : (⟨5.0, 6.0, 7.0, 8.0⟩ : SpiralVector) ≠ ⟨1.0, 2.0, 3.0, 4.0⟩ := by
    intro heq
    have hpace := congrArg (fun v ↦ v.pace == 5.0) heq
    revert hpace
    decide +kernel
  refine ⟨crystal, _, hcrystal, restore_of_named _ hnamed, ?_, ?_, rfl, rfl, hlost, fun hall ↦ ?_⟩
  · rw [hregisters]
    exact List.mem_cons_self
  · rw [hregisters]
    exact List.mem_cons_of_mem _ List.mem_cons_self
  · refine hlost (hall ("A", ⟨1.0, 2.0, 3.0, 4.0⟩) ?_ .a rfl)
    rw [hregisters]
    exact List.mem_cons_self

end Machine

end SpiralMachine
