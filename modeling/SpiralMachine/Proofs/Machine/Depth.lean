import SpiralMachine.Proofs.Machine.AuditSchedule

/-!
# The depth of a run

A run adds to the spiral depth what its `spiral` instructions ask for, and nothing else changes it:
neither faults nor audits, nor clearing the mesh, nor the way in which the run ends. At the greatest
depth it stays (`Turn.Leads.spiralDepth_eq`). So it never falls in a run
(`Turn.Leads.after_spiralDepth_le`), nor in any number of runs, whatever configurations and event
sinks they have (`Continues.spiralDepth_le`): only taking over a crystal lowers it.

Audits are due at multiples of the depth. Their test divides by it, but not before it has seen that
it is not zero (`auditDue?_eq`).
-/

set_option autoImplicit false

namespace SpiralMachine

namespace Turn

/-- What turns add to the depth. -/
def descent (turns : List Turn) : Nat := (turns.map (·.step.instruction.increment)).sum

@[simp]
theorem descent_nil : descent [] = 0 := rfl

@[simp]
theorem descent_cons (turn : Turn) (rest : List Turn) :
    descent (turn :: rest) = turn.step.instruction.increment + descent rest :=
  List.sum_cons

theorem descent_append (first second : List Turn) :
    descent (first ++ second) = descent first + descent second := by
  rw [descent, List.map_append, List.sum_append]
  rfl

theorem toNat_after_spiralDepth (turn : Turn) :
    turn.dispatch.after.spiralDepth.toNat =
      min (turn.start.machine.spiralDepth.toNat + turn.step.instruction.increment)
        (UInt32.size - 1) := by
  rw [after_spiralDepth, Instruction.toNat_depthAfter]

/-- Turns add up what they add to the depth, up to the greatest depth. -/
theorem Leads.spiralDepth_eq {flags : Config} {start final : Machine.Effect} {turns : List Turn}
    (h : Leads flags start turns final) :
    final.machine.spiralDepth.toNat =
      min (start.machine.spiralDepth.toNat + descent turns) (UInt32.size - 1) := by
  induction h with
  | nil start =>
    exact (Nat.min_eq_left (Nat.le_sub_one_of_lt start.machine.spiralDepth.toNat_lt)).symm
  | cons turn _ _ ih =>
    have hstop : turn.stop.machine.spiralDepth = turn.dispatch.after.spiralDepth :=
      congrArg Core.spiralDepth turn.stop_core
    rw [ih, hstop, toNat_after_spiralDepth, descent_cons]
    omega

/-- The depth that a turn leaves, by what all turns up to it have added. -/
theorem Leads.after_spiralDepth_eq {flags : Config} {start final : Machine.Effect}
    {turns : List Turn} (h : Leads flags start turns final) {index : Nat} {turn : Turn}
    (hturn : turns[index]? = some turn) :
    turn.dispatch.after.spiralDepth.toNat =
      min (start.machine.spiralDepth.toNat + descent (turns.take (index + 1)))
        (UInt32.size - 1) := by
  have htake : descent (turns.take (index + 1)) =
      descent (turns.take index) + turn.step.instruction.increment := by
    rw [List.take_add_one, hturn, Option.toList_some, descent_append, descent_cons, descent_nil,
      Nat.add_zero]
  rw [toNat_after_spiralDepth, (h.take hturn).spiralDepth_eq, htake]
  omega

theorem descent_take_le (turns : List Turn) {first last : Nat} (h : first ≤ last) :
    descent (turns.take first) ≤ descent (turns.take last) := by
  obtain ⟨rest, hrest⟩ := List.take_prefix_take_left (l := turns) h
  rw [← hrest, descent_append]
  exact Nat.le_add_right _ _

/-- The depth does not fall from one turn to a later one. -/
theorem Leads.after_spiralDepth_le {flags : Config} {start final : Machine.Effect}
    {turns : List Turn} (h : Leads flags start turns final) {first last : Nat} {turn other : Turn}
    (hturn : turns[first]? = some turn) (hother : turns[last]? = some other)
    (hle : first ≤ last) :
    turn.dispatch.after.spiralDepth.toNat ≤ other.dispatch.after.spiralDepth.toNat := by
  have hdescent := descent_take_le turns (Nat.add_le_add_right hle 1)
  rw [h.after_spiralDepth_eq hturn, h.after_spiralDepth_eq hother]
  omega

/-- The depth does not fall from a turn to where all turns lead. -/
theorem Leads.after_spiralDepth_le_final {flags : Config} {start final : Machine.Effect}
    {turns : List Turn} (h : Leads flags start turns final) {index : Nat} {turn : Turn}
    (hturn : turns[index]? = some turn) :
    turn.dispatch.after.spiralDepth.toNat ≤ final.machine.spiralDepth.toNat := by
  have hlt : index + 1 ≤ turns.length := (List.getElem?_eq_some_iff.mp hturn).1
  have hdescent := descent_take_le turns hlt
  rw [List.take_length] at hdescent
  rw [h.after_spiralDepth_eq hturn, h.spiralDepth_eq]
  omega

end Turn

/-- The remainder of a division, which there is not by zero. -/
def remainder? (number divisor : Nat) : Option Nat :=
  if divisor = 0 then none else some (number % divisor)

namespace Machine

/-- The test whether an audit is due, with a remainder that fails for the divisor zero. It is not
taken unless the depth is positive. -/
def auditDue? (machine : Machine) : Option Bool :=
  if 0 < machine.spiralDepth.toNat then
    (remainder? machine.ip machine.spiralDepth.toNat).map (· = 0)
  else some false

/-- The remainder is never taken by zero. -/
theorem auditDue?_eq (machine : Machine) : machine.auditDue? = some machine.auditIsDue := by
  unfold auditDue? auditIsDue remainder?
  by_cases hdepth : 0 < machine.spiralDepth.toNat
  · rw [if_pos hdepth, if_neg hdepth.ne', decide_eq_true hdepth]
    rfl
  · rw [if_neg hdepth, decide_eq_false hdepth]
    rfl

theorem execute_spiralDepth_eq (machine : Machine) (host : Host) (program : Program)
    (mode : Mode) :
    (machine.execute host program mode).1.machine.spiralDepth.toNat =
      min (machine.spiralDepth.toNat + Turn.descent (machine.course host program mode))
        (UInt32.size - 1) := by
  rw [execute_machine]
  exact (machine.leads_course host program mode).spiralDepth_eq

/-- The machines that come of a machine by running programs and by a change of the configuration
or the event sink, without a crystal that is taken over. -/
inductive Continues (machine : Machine) : Machine → Prop where
  | refl : Continues machine machine
  | configure {later : Machine} (config : Config) (sink : EventSink) :
    Continues machine later → Continues machine { later with config, sink }
  | execute {later : Machine} (host : Host) (program : Program) (mode : Mode) :
    Continues machine later → Continues machine (later.execute host program mode).1.machine

/-- The depth does not fall. -/
theorem Continues.spiralDepth_le {machine later : Machine} (h : machine.Continues later) :
    machine.spiralDepth.toNat ≤ later.spiralDepth.toNat := by
  induction h with
  | refl => exact Nat.le_refl _
  | configure config sink _ ih => exact ih
  | execute host program mode _ ih =>
    have hbound : machine.spiralDepth.toNat < UInt32.size := machine.spiralDepth.toNat_lt
    rw [execute_spiralDepth_eq]
    omega

/-- The depth after a run is what it was and what the `spiral` instructions of the run have added,
or the greatest depth if that is less. The same is true after each instruction, so that a depth that
is once positive is so for the rest of the run and for all runs after it, until a crystal is taken
over. No audit divides by zero. -/
theorem execute_spiralDepth_saturates (machine : Machine) (host : Host) (program : Program)
    (mode : Mode) :
    let course := machine.course host program mode
    let final := (machine.execute host program mode).1.machine
    course.map Turn.step = program.steps.take course.length ∧
    final.spiralDepth.toNat =
      min (machine.spiralDepth.toNat + (course.map (·.step.instruction.increment)).sum)
        (2 ^ 32 - 1) ∧
    (0 < machine.spiralDepth.toNat →
      ∀ later, machine.Continues later → 0 < later.spiralDepth.toNat) ∧
    ∀ (index : Nat) (turn : Turn), course[index]? = some turn →
      let depth := turn.dispatch.after.spiralDepth.toNat
      depth =
        min (machine.spiralDepth.toNat +
          ((course.take (index + 1)).map (·.step.instruction.increment)).sum) (2 ^ 32 - 1) ∧
      (turn.dispatch.fatal? = none → turn.moved.spiralDepth.toNat = depth ∧
        turn.moved.auditDue? = some turn.audits) ∧
      (0 < depth →
        (∀ (next : Nat) (other : Turn), index ≤ next → course[next]? = some other →
          0 < other.dispatch.after.spiralDepth.toNat) ∧
        ∀ later, final.Continues later → 0 < later.spiralDepth.toNat) := by
  dsimp only
  have hcourse := machine.leads_course host program mode
  refine ⟨map_step_turns .., execute_spiralDepth_eq .., fun hdepth later hlater ↦
    Nat.lt_of_lt_of_le hdepth hlater.spiralDepth_le, fun index turn hturn ↦
    ⟨hcourse.after_spiralDepth_eq hturn, fun hfatal ↦ ⟨?_, ?_⟩, fun hdepth ↦
      ⟨fun next other hnext hother ↦ ?_, fun later hlater ↦ ?_⟩⟩⟩
  · exact congrArg (·.spiralDepth.toNat) turn.noted_core
  · rw [auditDue?_eq, Turn.audits, decide_eq_true hfatal, Bool.true_and]
  · exact Nat.lt_of_lt_of_le hdepth (hcourse.after_spiralDepth_le hturn hother hnext)
  · have hfinal := hlater.spiralDepth_le
    rw [execute_machine] at hfinal
    exact Nat.lt_of_lt_of_le hdepth ((hcourse.after_spiralDepth_le_final hturn).trans hfinal)

/-- One below the greatest depth, a program clears the mesh, meets a fault, goes on by three and
ends for want of room in the mesh. It leaves the greatest depth, and no later run leaves none. -/
theorem spiralDepth_saturates_of_aborted_run :
    let machine := { Machine.new { Config.default with maxMeshNodes := 1 } .none with
      spiralDepth := 0xFFFFFFFE }
    let program := Program.ofInstructions [.init true, .mask (some "lost") .b, .spiral 3 .c,
      .mesh (some "more") none, .spiral 1 .a]
    let course := machine.course ⟨.empty, [], 0⟩ program .simulate
    let final := (machine.execute ⟨.empty, [], 0⟩ program .simulate).1.machine
    course.length = 4 ∧ course.map (·.dispatch.fatal?.isSome) = [false, false, false, true] ∧
      0 < machine.spiralDepth.toNat ∧ final.spiralDepth.toNat = 2 ^ 32 - 1 ∧
      (∃ turn : Turn, course[2]? = some turn ∧ turn.dispatch.fatal? = none ∧
        turn.dispatch.after.spiralDepth.toNat = 2 ^ 32 - 1 ∧
        turn.moved.auditDue? = some turn.audits) ∧
      ∀ later, final.Continues later → 0 < later.spiralDepth.toNat := by
  intro machine program course final
  have hfatal : course.map (·.dispatch.fatal?.isSome) = [false, false, false, true] := by
    decide +kernel
  have hlength : course.length = 4 := by rw [← List.length_map, hfatal]; rfl
  have hdepth : 0 < machine.spiralDepth.toNat := by decide
  obtain ⟨hsteps, hfinal, -, hturns⟩ :=
    execute_spiralDepth_saturates machine ⟨.empty, [], 0⟩ program .simulate
  have hincrements : course.map (·.step.instruction.increment) = [0, 0, 3, 0] := by
    have hmap := congrArg (List.map (·.instruction.increment)) hsteps
    rw [List.map_map] at hmap
    exact hmap.trans (by rw [hlength]; rfl)
  obtain ⟨turn, hturn⟩ : ∃ turn, course[2]? = some turn :=
    ⟨_, List.getElem?_eq_getElem (by rw [hlength]; decide)⟩
  have hnone : turn.dispatch.fatal? = none := by
    have hplace := congrArg (·[2]?) hfatal
    simpa [hturn] using hplace
  obtain ⟨hafter, haudit, hlater⟩ := hturns 2 turn hturn
  have hstart : machine.spiralDepth.toNat = 2 ^ 32 - 2 := by decide
  have htaken : ((course.take 3).map (·.step.instruction.increment)).sum = 3 := by
    rw [List.map_take, hincrements]
    rfl
  have hall : (course.map (·.step.instruction.increment)).sum = 3 := by rw [hincrements]; rfl
  have hdone : turn.dispatch.after.spiralDepth.toNat = 2 ^ 32 - 1 := by
    rw [hafter, htaken, hstart]
    omega
  have hend : final.spiralDepth.toNat = 2 ^ 32 - 1 := by
    rw [hfinal, hall, hstart]
    omega
  have hpositive : 0 < turn.dispatch.after.spiralDepth.toNat := by rw [hdone]; decide
  exact ⟨hlength, hfatal, hdepth, hend, ⟨turn, hturn, hnone, hdone, (haudit hnone).2⟩,
    (hlater hpositive).2⟩

end Machine

end SpiralMachine
