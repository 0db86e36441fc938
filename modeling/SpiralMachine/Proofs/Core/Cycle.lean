import SpiralMachine.Proofs.Core.Budget
import SpiralMachine.Proofs.Core.Depth
import SpiralMachine.Proofs.Mesh.FreshId
import SpiralMachine.Proofs.Mesh.Lookup

/-!
# Cycles

A cycle comes to the indices of its range one after the other. A range is split anywhere into two
that are run in turn (`cycleNodes_add`), and a cycle that stops for want of room has run the part of
its range before the index where it stops (`cycleNodes_stopped`).

At each index the cycle finds a node or makes one, connected to the one before it (`entered`), and
turns it. That a cycle runs to the end of its range determines the mesh that it leaves: its ids
(`ids_cycleNodes`) and what stands under them (`get?_cycleNodes`). Hence two cycles over one range
come to one with the sum of their counts (`cycle_cycle`).
-/

set_option autoImplicit false

namespace SpiralMachine

theorem SpiralVector.rotateBy_add (first second : Nat) (v : SpiralVector) :
    v.rotateBy (first + second) = (v.rotateBy first).rotateBy second := by
  induction first generalizing v with
  | zero => rw [Nat.zero_add, rotateBy]
  | succ first ih => rw [Nat.succ_add, rotateBy, rotateBy, ih]

/-- A node whose vector has been turned a number of times. -/
def Node.turned (count : Nat) (node : Node) : Node :=
  { node with vector := node.vector.rotateBy count }

theorem Node.turned_turned (first second : Nat) (node : Node) :
    (node.turned first).turned second = node.turned (first + second) := by
  unfold turned
  rw [SpiralVector.rotateBy_add]

namespace Core

theorem cycleId_injective : Function.Injective cycleId :=
  Mesh.numbered_injective "cycle"

variable {mesh next later left : Mesh} {budget count length index : Nat} {seed : SpiralVector}

/-! ### Parts of a range -/

/-- A cycle over a range runs its first part and, unless that stops, the rest of it. -/
theorem cycleNodes_add (budget : Nat) (seed : SpiralVector) (count first second index : Nat)
    (mesh : Mesh) :
    let reached := cycleNodes budget seed count first index mesh
    cycleNodes budget seed count (first + second) index mesh =
      if reached.2 then cycleNodes budget seed count second (index + first) reached.1
      else reached := by
  induction first generalizing index mesh with
  | zero =>
    rw [Nat.zero_add]
    rfl
  | succ first ih =>
    dsimp only at ih ⊢
    rw [Nat.succ_add, cycleNodes, cycleNodes]
    cases cycleNode? mesh budget seed count index with
    | none => rfl
    | some next =>
      dsimp only
      rw [ih, Nat.add_assoc, Nat.add_comm 1]

/-- A cycle that stops has run the indices before one for which there is no room. -/
theorem cycleNodes_stopped (h : cycleNodes budget seed count length index mesh = (left, false)) :
    ∃ done < length, cycleNodes budget seed count done index mesh = (left, true) ∧
      cycleId (index + done) ∉ left.ids := by
  induction length generalizing index mesh with
  | zero => cases h
  | succ length ih =>
    rw [cycleNodes] at h
    rcases cycleNode?_spec mesh budget seed count index with
      ⟨hfull, hnone⟩ | ⟨-, next, hnext, -⟩
    · rw [hnone] at h
      cases h
      exact ⟨0, Nat.succ_pos length, rfl, (exhausts_singleton.mp hfull).1⟩
    · rw [hnext] at h
      obtain ⟨done, hdone, hreached, habsent⟩ := ih h
      refine ⟨done + 1, Nat.succ_lt_succ hdone, ?_, ?_⟩
      · rw [cycleNodes, hnext]
        exact hreached
      · rwa [Nat.add_comm done, ← Nat.add_assoc]

/-- However a cycle ends, it has run a part of its range. -/
theorem exists_cycleNodes (budget : Nat) (seed : SpiralVector) (count length index : Nat)
    (mesh : Mesh) :
    ∃ done ≤ length, cycleNodes budget seed count done index mesh =
      ((cycleNodes budget seed count length index mesh).1, true) := by
  rcases hreached : cycleNodes budget seed count length index mesh with ⟨left, complete⟩
  cases complete with
  | true => exact ⟨length, Nat.le_refl length, hreached⟩
  | false =>
    obtain ⟨done, hdone, hpart, -⟩ := cycleNodes_stopped hreached
    exact ⟨done, Nat.le_of_lt hdone, hpart⟩

/-! ### What a cycle leaves -/

/-- What a cycle from `start` on finds or makes at an index. A node that it makes is connected to
the one before it, if the cycle has been there or there was one. -/
def entered (mesh : Mesh) (seed : SpiralVector) (start index : Nat) : Node :=
  (mesh.get? (cycleId index)).getD
    { Node.new seed with
      connections :=
        if start < index ∨ 0 < index ∧ cycleId (index - 1) ∈ mesh.ids then [cycleId (index - 1)]
        else [] }

theorem entered_of_get? {node : Node} (h : mesh.get? (cycleId index) = some node)
    (seed : SpiralVector) (start : Nat) : entered mesh seed start index = node := by
  rw [entered, h, Option.getD_some]

theorem get?_cycleNode? (h : cycleNode? mesh budget seed count index = some next) (id : String) :
    next.get? id =
      if id = cycleId index then some ((entered mesh seed index index).turned count)
      else mesh.get? id := by
  unfold cycleNode? at h
  dsimp only at h
  split at h
  · rename_i hcontains
    cases h
    obtain ⟨node, hnode⟩ := Option.isSome_iff_exists.mp
      (Mesh.get?_isSome_iff.mpr (Mesh.contains_iff.mp hcontains))
    rw [Mesh.get?_modify, entered_of_get? hnode]
    split
    · rename_i heq
      rw [heq, hnode]
      rfl
    · rfl
  · rename_i hcontains
    split at h <;> cases h
    have hnone : mesh.get? (cycleId index) = none :=
      Mesh.get?_eq_none_iff.mpr (mt Mesh.contains_iff.mpr hcontains)
    rw [Mesh.get?_modify, Mesh.get?_insert]
    split
    · rw [Option.map_some, entered, hnone, Option.getD_none]
      simp only [Mesh.contains_iff, Nat.lt_irrefl, false_or]
      split <;> rfl
    · rfl

/-- What is left for a cycle to do after its first index is what it has to do from the second
on. -/
theorem entered_cycleNode? (h : cycleNode? mesh budget seed count index = some next) {other : Nat}
    (hother : index < other) :
    entered next seed (index + 1) other = entered mesh seed index other := by
  have hne : cycleId other ≠ cycleId index := fun heq ↦
    Nat.ne_of_gt hother (cycleId_injective heq)
  have hhere : cycleId index ∈ next.ids := by
    refine Mesh.get?_isSome_iff.mp ?_
    rw [get?_cycleNode? h, if_pos rfl]
    rfl
  have hconnected : index + 1 < other ∨ 0 < other ∧ cycleId (other - 1) ∈ next.ids := by
    rcases Nat.lt_or_eq_of_le (Nat.succ_le_of_lt hother) with hlater | rfl
    · exact .inl hlater
    · exact .inr ⟨Nat.succ_pos index, hhere⟩
  rw [entered, entered, get?_cycleNode? h, if_neg hne, if_pos hconnected, if_pos (.inl hother)]

/-- A cycle that runs to the end of its range leaves a turned node under the id of each index, and
all others as they were. -/
theorem get?_cycleNodes (h : cycleNodes budget seed count length index mesh = (later, true)) :
    (∀ offset < length, later.get? (cycleId (index + offset)) =
      some ((entered mesh seed index (index + offset)).turned count)) ∧
    ∀ id, (∀ offset < length, id ≠ cycleId (index + offset)) → later.get? id = mesh.get? id := by
  induction length generalizing index mesh with
  | zero =>
    cases h
    exact ⟨fun offset hoffset ↦ absurd hoffset (Nat.not_lt_zero offset), fun _ _ ↦ rfl⟩
  | succ length ih =>
    rw [cycleNodes] at h
    cases hnext : cycleNode? mesh budget seed count index with
    | none =>
      rw [hnext] at h
      cases h
    | some next =>
      rw [hnext] at h
      obtain ⟨hrange, hothers⟩ := ih h
      have hfirst := get?_cycleNode? hnext
      have hshift (offset : Nat) : index + 1 + offset = index + (offset + 1) := by omega
      refine ⟨fun offset hoffset ↦ ?_, fun id hid ↦ ?_⟩
      · cases offset with
        | zero =>
          -- the rest of the range leaves the first index alone
          have hbehind : ∀ offset < length, cycleId index ≠ cycleId (index + 1 + offset) := by
            intro offset _ heq
            have hindex := cycleId_injective heq
            omega
          rw [Nat.add_zero, hothers _ hbehind, hfirst, if_pos rfl]
        | succ offset =>
          rw [← hshift, hrange offset (Nat.lt_of_succ_lt_succ hoffset),
            entered_cycleNode? hnext (by omega)]
      · have hbehind : ∀ offset < length, id ≠ cycleId (index + 1 + offset) := by
          intro offset hoffset
          rw [hshift]
          exact hid (offset + 1) (Nat.succ_lt_succ hoffset)
        have hne : id ≠ cycleId index := hid 0 (Nat.succ_pos length)
        rw [hothers id hbehind, hfirst, if_neg hne]

/-- A cycle that runs to the end of its range has found room for the nodes that are missing there,
and made them. -/
theorem cycleNodes_complete
    (h : cycleNodes budget seed count length index mesh = (later, true)) :
    let wanted := (List.range' index length).map cycleId
    ¬Exhausts budget mesh.ids wanted ∧ later.ids = present mesh.ids wanted := by
  have hnodes := cycleNodes_spec budget seed count length index mesh
  rw [h] at hnodes
  obtain ⟨hroom, -, hids⟩ := hnodes.resolve_left fun hstopped ↦ nomatch hstopped.2
  exact ⟨hroom, hids⟩

/-- A cycle runs to the end of its range if there is room for the nodes that are missing there. -/
theorem exists_cycleNodes_complete (seed : SpiralVector) (count : Nat)
    (h : ¬Exhausts budget mesh.ids ((List.range' index length).map cycleId)) :
    ∃ later, cycleNodes budget seed count length index mesh = (later, true) := by
  obtain ⟨-, hcomplete, -⟩ :=
    (cycleNodes_spec budget seed count length index mesh).resolve_left fun hstopped ↦ h hstopped.1
  exact ⟨_, Prod.ext rfl hcomplete⟩

/-- The nodes that a cycle makes are those missing in its range, in order. -/
theorem ids_cycleNodes (h : cycleNodes budget seed count length index mesh = (later, true)) :
    later.ids = mesh.ids ++
      ((List.range' index length).filter (cycleId · ∉ mesh.ids)).map cycleId := by
  have hnodup : ((List.range' index length).map cycleId).Nodup :=
    List.Nodup.map cycleId_injective List.nodup_range'
  rw [(cycleNodes_complete h).2, present_of_nodup hnodup, List.filter_map]
  rfl

/-- After a cycle another one over the same range finds all its nodes, and the two turn them as one
that makes both counts of turns. -/
theorem cycleNodes_cycleNodes {first : Nat} (second : Nat) {reached : Mesh}
    (h : cycleNodes budget seed first length index mesh = (reached, true)) :
    cycleNodes budget seed second length index reached =
      cycleNodes budget seed (first + second) length index mesh := by
  obtain ⟨hroom, hids⟩ := cycleNodes_complete h
  obtain ⟨hrange, hothers⟩ := get?_cycleNodes h
  have hfound : ∀ id ∈ (List.range' index length).map cycleId, id ∈ reached.ids := by
    intro id hid
    obtain ⟨place, hplace, rfl⟩ := List.mem_map.mp hid
    obtain ⟨offset, hoffset, rfl⟩ := List.mem_range'.mp hplace
    rw [Nat.one_mul]
    exact Mesh.mem_ids_of_get? (hrange offset hoffset)
  have hnone : ¬Exhausts budget reached.ids ((List.range' index length).map cycleId) :=
    not_exhausts_of_subset hfound
  obtain ⟨later, hlater⟩ := exists_cycleNodes_complete seed second hnone
  obtain ⟨joint, hjoint⟩ := exists_cycleNodes_complete seed (first + second) hroom
  obtain ⟨hlaterRange, hlaterOthers⟩ := get?_cycleNodes hlater
  obtain ⟨hjointRange, hjointOthers⟩ := get?_cycleNodes hjoint
  rw [hlater, hjoint]
  suffices heq : later = joint by rw [heq]
  refine Mesh.eq_of_get? ?_ fun id ↦ ?_
  · rw [(cycleNodes_complete hlater).2, present_eq_self hfound, hids,
      (cycleNodes_complete hjoint).2]
  · by_cases hid : ∃ offset < length, id = cycleId (index + offset)
    · obtain ⟨offset, hoffset, rfl⟩ := hid
      rw [hlaterRange offset hoffset, hjointRange offset hoffset,
        entered_of_get? (hrange offset hoffset), Node.turned_turned]
    · push Not at hid
      rw [hlaterOthers id hid, hothers id hid, hjointOthers id hid]

/-! ### The instruction -/

variable {core reached stopped : Core} {start stop : Nat}

theorem cycle_of_le (core : Core) (budget : Nat) (count : UInt32) (h : start ≤ stop) :
    let reached := cycleNodes budget core.registers.a count.toNat (stop - start) start core.mesh
    core.cycle budget count start stop =
      if reached.2 then .applied { core with mesh := reached.1 }
      else .full { core with mesh := reached.1 } := by
  rw [cycle, if_neg (Nat.not_lt_of_le h)]
  rcases cycleNodes budget core.registers.a count.toNat (stop - start) start core.mesh with
    ⟨reached, complete⟩
  cases complete <;> rfl

theorem cycle_ne_fault {count : UInt32} (h : start ≤ stop) (fault : Fault) :
    core.cycle budget count start stop ≠ .fault fault := by
  rw [cycle_of_le core budget count h]
  split <;> exact nofun

/-- A cycle is applied if it runs to the end of its range, and otherwise finds no room. -/
theorem cycle_eq_iff {count : UInt32} (complete : Bool) :
    core.cycle budget count start stop = (if complete then .applied reached else .full reached) ↔
      start ≤ stop ∧
        ∃ mesh, cycleNodes budget core.registers.a count.toNat (stop - start) start core.mesh =
          (mesh, complete) ∧ reached = { core with mesh } := by
  by_cases h : start ≤ stop
  · rw [cycle_of_le core budget count h, and_iff_right h]
    rcases cycleNodes budget core.registers.a count.toNat (stop - start) start core.mesh with
      ⟨mesh, found⟩
    cases found <;> cases complete <;> simp [eq_comm]
  · rw [cycle, if_pos (Nat.lt_of_not_le h)]
    cases complete <;> simp [h]

theorem cycle_eq_applied_iff {count : UInt32} :
    core.cycle budget count start stop = .applied reached ↔ start ≤ stop ∧
      ∃ mesh, cycleNodes budget core.registers.a count.toNat (stop - start) start core.mesh =
        (mesh, true) ∧ reached = { core with mesh } :=
  cycle_eq_iff true

theorem cycle_eq_full_iff {count : UInt32} :
    core.cycle budget count start stop = .full reached ↔ start ≤ stop ∧
      ∃ mesh, cycleNodes budget core.registers.a count.toNat (stop - start) start core.mesh =
        (mesh, false) ∧ reached = { core with mesh } :=
  cycle_eq_iff false

/-- A cycle over two ranges that meet runs the first and, unless that stops, the second. -/
theorem cycle_split (core : Core) (budget : Nat) (count : UInt32) {middle : Nat}
    (hstart : start ≤ middle) (hstop : middle ≤ stop) :
    (∃ reached, core.cycle budget count start middle = .applied reached ∧
        core.cycle budget count start stop = reached.cycle budget count middle stop) ∨
      ∃ stopped, core.cycle budget count start middle = .full stopped ∧
        core.cycle budget count start stop = .full stopped := by
  have hlength : stop - start = (middle - start) + (stop - middle) := by omega
  have hparts := cycleNodes_add budget core.registers.a count.toNat (middle - start)
    (stop - middle) start core.mesh
  rw [← hlength, Nat.add_sub_cancel' hstart] at hparts
  rw [cycle_of_le core budget count (hstart.trans hstop), cycle_of_le core budget count hstart,
    hparts]
  rcases cycleNodes budget core.registers.a count.toNat (middle - start) start core.mesh with
    ⟨reached, complete⟩
  cases complete with
  | true =>
    refine .inl ⟨{ core with mesh := reached }, rfl, ?_⟩
    rw [cycle_of_le _ budget count hstop]
    rfl
  | false => exact .inr ⟨_, rfl, rfl⟩

/-- A cycle for which there is no room has come to an index without a node, and left what the cycle
over the range before it makes. -/
theorem cycle_stopped {count : UInt32} (h : core.cycle budget count start stop = .full stopped) :
    ∃ index, start ≤ index ∧ index < stop ∧
      core.cycle budget count start index = .applied stopped ∧ cycleId index ∉ stopped.mesh.ids := by
  obtain ⟨hle, left, hleft, rfl⟩ := cycle_eq_full_iff.mp h
  obtain ⟨done, hdone, hreached, habsent⟩ := cycleNodes_stopped hleft
  refine ⟨start + done, Nat.le_add_right start done, by omega, ?_, habsent⟩
  rw [cycle_eq_applied_iff, Nat.add_sub_cancel_left]
  exact ⟨Nat.le_add_right start done, left, hreached, rfl⟩

/-- Two cycles over one range come to one with the sum of their counts. -/
theorem cycle_cycle {first second : UInt32} (hsum : first.toNat + second.toNat < UInt32.size)
    (h : core.cycle budget first start stop = .applied reached) :
    reached.cycle budget second start stop = core.cycle budget (first + second) start stop := by
  obtain ⟨hle, mesh, hmesh, rfl⟩ := cycle_eq_applied_iff.mp h
  rw [cycle_of_le _ budget second hle, cycle_of_le core budget _ hle,
    toNat_add_of_lt hsum, ← cycleNodes_cycleNodes second.toNat hmesh]

end Core

end SpiralMachine
