import Mathlib.Order.MinMax
import SpiralMachine.Proofs.Core.Change

/-!
# The node budget

Four instructions create nodes: each comes to one id after another (`wanted`), beginning with
the ids of a mesh (`ground`), and creates a node where there is none. `Exhausts` says that it
comes to an id without a node while the mesh has as many nodes as the budget allows.
`apply_full_iff` says that exactly then the instruction is left undone for want of room, whichever
it is, and `apply_ids` which ids the mesh has otherwise. `apply_size_le` bounds the mesh by its
size before and the budget.
-/

set_option autoImplicit false

namespace SpiralMachine

namespace Core

/-! ### Going through ids -/

/-- The ids of a mesh after nodes were created for those of a list that had none. -/
def present (ids : List String) : List String → List String
  | [] => ids
  | id :: rest => present (if id ∈ ids then ids else ids ++ [id]) rest

/-- Creating nodes for a list of ids, one after the other, comes to an id without a node while
there are as many nodes as the budget allows. -/
def Exhausts (budget : Nat) (ids wanted : List String) : Prop :=
  ∃ done id rest, wanted = done ++ id :: rest ∧ id ∉ present ids done ∧
    budget ≤ (present ids done).length

theorem not_exhausts_nil (budget : Nat) (ids : List String) : ¬Exhausts budget ids [] := by
  rintro ⟨done, id, rest, hsplit, -, -⟩
  simp at hsplit

/-- Either there is no room at the first id, or later on. -/
theorem exhausts_cons {budget : Nat} {ids rest : List String} {id : String} :
    Exhausts budget ids (id :: rest) ↔
      (id ∉ ids ∧ budget ≤ ids.length) ∨ Exhausts budget (present ids [id]) rest := by
  constructor
  · rintro ⟨done, last, others, hsplit, habsent, hfull⟩
    rcases List.cons_eq_append_iff.mp hsplit with ⟨rfl, hothers⟩ | ⟨tail, rfl, hrest⟩
    · obtain ⟨rfl, -⟩ := List.cons.inj hothers
      exact .inl ⟨habsent, hfull⟩
    · exact .inr ⟨tail, last, others, hrest, habsent, hfull⟩
  · rintro (⟨habsent, hfull⟩ | ⟨done, last, others, hsplit, habsent, hfull⟩)
    · exact ⟨[], id, rest, rfl, habsent, hfull⟩
    · exact ⟨id :: done, last, others, congrArg (id :: ·) hsplit, habsent, hfull⟩

theorem exhausts_singleton {budget : Nat} {ids : List String} {id : String} :
    Exhausts budget ids [id] ↔ id ∉ ids ∧ budget ≤ ids.length := by
  rw [exhausts_cons, or_iff_left (not_exhausts_nil budget _)]

/-- Where all ids have nodes none is created. -/
theorem present_eq_self {ids wanted : List String} (h : ∀ id ∈ wanted, id ∈ ids) :
    present ids wanted = ids := by
  induction wanted with
  | nil => rfl
  | cons id rest ih =>
    rw [List.forall_mem_cons] at h
    rw [present, if_pos h.1]
    exact ih h.2

/-- Ids that have nodes do not exhaust a budget, however small. -/
theorem not_exhausts_of_subset {budget : Nat} {ids wanted : List String}
    (h : ∀ id ∈ wanted, id ∈ ids) : ¬Exhausts budget ids wanted := by
  rintro ⟨done, id, rest, rfl, habsent, -⟩
  rw [List.forall_mem_append, List.forall_mem_cons] at h
  rw [present_eq_self h.1] at habsent
  exact habsent h.2.1

/-- An id that was put to others makes no difference to ids that are all different from it. -/
theorem filter_notMem_append {ids rest : List String} {id : String} (h : id ∉ rest) :
    rest.filter (· ∉ ids ++ [id]) = rest.filter (· ∉ ids) :=
  List.filter_congr fun other hother ↦ by
    have hne : other ≠ id := fun heq ↦ h (heq ▸ hother)
    simp [hne]

/-- Ids that are wanted once each are created where they are absent, after those that are there. -/
theorem present_of_nodup {ids wanted : List String} (h : wanted.Nodup) :
    present ids wanted = ids ++ wanted.filter (· ∉ ids) := by
  induction wanted generalizing ids with
  | nil => exact (List.append_nil _).symm
  | cons id rest ih =>
    rw [List.nodup_cons] at h
    rw [present, ih h.2]
    by_cases hid : id ∈ ids
    · rw [if_pos hid, List.filter_cons_of_neg (by simpa using hid)]
    · rw [if_neg hid, filter_notMem_append h.1, List.filter_cons_of_pos (by simpa using hid),
        List.append_assoc, List.singleton_append]

/-- Ids that are wanted once each exhaust the budget exactly if some are absent and there is no room
for all of these. -/
theorem exhausts_iff_of_nodup {budget : Nat} {ids wanted : List String} (h : wanted.Nodup) :
    Exhausts budget ids wanted ↔ wanted.filter (· ∉ ids) ≠ [] ∧
      budget < ids.length + (wanted.filter (· ∉ ids)).length := by
  induction wanted generalizing ids with
  | nil => exact iff_of_false (not_exhausts_nil budget ids) fun hnone ↦ hnone.1 rfl
  | cons id rest ih =>
    rw [List.nodup_cons] at h
    rw [exhausts_cons, present, present, ih h.2]
    by_cases hid : id ∈ ids
    · rw [if_pos hid, List.filter_cons_of_neg (by simpa using hid)]
      exact or_iff_right fun hnew ↦ hnew.1 hid
    · rw [if_neg hid, filter_notMem_append h.1, List.filter_cons_of_pos (by simpa using hid)]
      rw [and_iff_right hid, and_iff_right (List.cons_ne_nil _ _), ← List.length_pos_iff,
        List.length_append, List.length_singleton, List.length_cons]
      -- one id more is there, and one less is to come
      omega

/-! ### What instructions create -/

/-- The mesh in which an instruction begins to create nodes. -/
def ground (core : Core) : Instruction → Mesh
  | .init true => .empty
  | _ => core.mesh

/-- The ids for which an instruction needs nodes, in the order in which it comes to them. -/
def wanted (core : Core) : Instruction → List String
  | .init true => [originId]
  | .mesh id _ => [id.getD (core.mesh.nextId "node")]
  | .forge id _ => [id.getD (core.mesh.nextId "forge")]
  | .cycle _ start stop => (List.range' start (stop - start)).map cycleId
  | _ => []

/-- A mesh admits an id unless that exhausts the budget. -/
theorem admits_iff {mesh : Mesh} {budget : Nat} {id : String} :
    admits mesh budget id ↔ ¬Exhausts budget mesh.ids [id] := by
  rw [exhausts_singleton, Mesh.length_ids, admits, Bool.or_eq_true, Mesh.contains_iff,
    decide_eq_true_iff, not_and_or, not_not, not_le]

/-- A node is placed unless it is missing and there is no room. -/
theorem place_spec (core : Core) (budget : Nat) (id : String) (vector : SpiralVector)
    (added initial : List String) :
    (Exhausts budget core.mesh.ids [id] ∧ core.place budget id vector added initial = .full core) ∨
      (¬Exhausts budget core.mesh.ids [id] ∧
        ∃ changed, core.place budget id vector added initial = .applied changed ∧
          changed.mesh.ids = present core.mesh.ids [id]) := by
  unfold place
  split
  · rename_i hcontains
    have hmem : id ∈ core.mesh.ids := Mesh.contains_iff.mp hcontains
    refine .inr ⟨fun h ↦ (exhausts_singleton.mp h).1 hmem, _, rfl, ?_⟩
    rw [Mesh.ids_modify, present, if_pos hmem]
    rfl
  · split
    · rename_i hadmits
      refine .inr ⟨admits_iff.mp hadmits, _, rfl, ?_⟩
      rw [Mesh.ids_insert]
      rfl
    · rename_i hadmits
      exact .inl ⟨not_not.mp fun h ↦ hadmits (admits_iff.mpr h), rfl⟩

/-- The node of an index is there afterwards, unless it is missing and there is no room. -/
theorem cycleNode?_spec (mesh : Mesh) (budget : Nat) (seed : SpiralVector) (count index : Nat) :
    (Exhausts budget mesh.ids [cycleId index] ∧
        cycleNode? mesh budget seed count index = none) ∨
      (¬Exhausts budget mesh.ids [cycleId index] ∧
        ∃ next, cycleNode? mesh budget seed count index = some next ∧
          next.ids = present mesh.ids [cycleId index]) := by
  unfold cycleNode?
  dsimp only
  split
  · rename_i hcontains
    have hmem : cycleId index ∈ mesh.ids := Mesh.contains_iff.mp hcontains
    refine .inr ⟨fun h ↦ (exhausts_singleton.mp h).1 hmem, _, rfl, ?_⟩
    rw [Mesh.ids_modify, present, if_pos hmem]
    rfl
  · split
    · rename_i hadmits
      refine .inr ⟨admits_iff.mp hadmits, _, rfl, ?_⟩
      rw [Mesh.ids_modify, Mesh.ids_insert]
      rfl
    · rename_i hadmits
      exact .inl ⟨not_not.mp fun h ↦ hadmits (admits_iff.mpr h), rfl⟩

/-- The nodes of all indices are there afterwards, unless one is missing where there is no
room. -/
theorem cycleNodes_spec (budget : Nat) (seed : SpiralVector) (count length index : Nat)
    (mesh : Mesh) :
    let wanted := (List.range' index length).map cycleId
    let reached := cycleNodes budget seed count length index mesh
    (Exhausts budget mesh.ids wanted ∧ reached.2 = false) ∨
      (¬Exhausts budget mesh.ids wanted ∧ reached.2 = true ∧
        reached.1.ids = present mesh.ids wanted) := by
  induction length generalizing index mesh with
  | zero => exact .inr ⟨not_exhausts_nil budget _, rfl, rfl⟩
  | succ length ih =>
    dsimp only
    rw [List.range'_succ, List.map_cons, exhausts_cons, cycleNodes]
    rcases cycleNode?_spec mesh budget seed count index with
      ⟨hfull, hnone⟩ | ⟨hroom, next, hnext, hids⟩
    · rw [hnone]
      exact .inl ⟨.inl (exhausts_singleton.mp hfull), rfl⟩
    · rw [hnext, or_iff_right (exhausts_singleton.not.mp hroom)]
      have hlater := ih (index + 1) next
      rwa [hids] at hlater

theorem flow_ids {core changed : Core} {source target : Option String}
    (h : core.flow source target = .ok changed) : changed.mesh.ids = core.mesh.ids := by
  obtain ⟨start, goal, vector, -, -, -, rfl⟩ := flow_ok h
  dsimp only
  split
  · exact Mesh.ids_modify ..
  · exact (Mesh.ids_modify ..).trans (Mesh.ids_modify ..)

theorem mask_ids {core changed : Core} {node : Option String} {register : Register}
    (h : core.mask node register = .ok changed) : changed.mesh.ids = core.mesh.ids := by
  obtain ⟨id, found, -, -, rfl⟩ := mask_ok h
  exact Mesh.ids_modify ..

theorem cryst_ids {core changed : Core} {node : Option String}
    (h : core.cryst node = .ok changed) : changed.mesh.ids = core.mesh.ids := by
  obtain ⟨id, -, rfl⟩ := cryst_ok h
  exact Mesh.ids_modify ..

/-- What is tried on a core and keeps its ids creates nothing. -/
theorem ofExcept_ids {core : Core} {attempt : Except Fault Core}
    (hok : ∀ changed, attempt = .ok changed → changed.mesh.ids = core.mesh.ids) :
    (∀ left, Change.ofExcept attempt ≠ .full left) ∧
      ((Change.ofExcept attempt).result core).mesh.ids = core.mesh.ids := by
  cases attempt with
  | error cause => exact ⟨nofun, rfl⟩
  | ok changed => exact ⟨nofun, hok changed rfl⟩

/-- An instruction is left undone for want of room, or it has created a node for each id that it
needs one for. -/
theorem apply_spec (core : Core) (budget : Nat) (lesson : Option Lesson)
    (instruction : Instruction) :
    (Exhausts budget (core.ground instruction).ids (core.wanted instruction) ∧
        ∃ left, core.apply budget lesson instruction = .full left) ∨
      (¬Exhausts budget (core.ground instruction).ids (core.wanted instruction) ∧
        (∀ left, core.apply budget lesson instruction ≠ .full left) ∧
        ((core.apply budget lesson instruction).result core).mesh.ids =
          present (core.ground instruction).ids (core.wanted instruction)) := by
  have hkeeps {change : Change} (h : (∀ left, change ≠ .full left) ∧
      (change.result core).mesh.ids = core.mesh.ids) :
      ¬Exhausts budget core.mesh.ids [] ∧ (∀ left, change ≠ .full left) ∧
        (change.result core).mesh.ids = present core.mesh.ids [] :=
    ⟨not_exhausts_nil budget _, h⟩
  have hplace (id : String) (vector : SpiralVector) (added initial : List String) :
      (Exhausts budget core.mesh.ids [id] ∧
          ∃ left, core.place budget id vector added initial = .full left) ∨
        (¬Exhausts budget core.mesh.ids [id] ∧
          (∀ left, core.place budget id vector added initial ≠ .full left) ∧
          ((core.place budget id vector added initial).result core).mesh.ids =
            present core.mesh.ids [id]) := by
    rcases core.place_spec budget id vector added initial with
      ⟨hfull, hplaced⟩ | ⟨hroom, changed, hplaced, hids⟩
    · exact .inl ⟨hfull, core, hplaced⟩
    · rw [hplaced]
      exact .inr ⟨hroom, nofun, hids⟩
  cases instruction with
  | init clears =>
    cases clears with
    | false => exact .inr (hkeeps ⟨nofun, rfl⟩)
    | true =>
      show (Exhausts budget Mesh.empty.ids [originId] ∧ ∃ left, core.initialise budget true =
        .full left) ∨ (¬Exhausts budget Mesh.empty.ids [originId] ∧ _)
      rw [apply, initialise, if_neg (by decide)]
      by_cases hadmits : admits .empty budget originId
      · rw [if_pos hadmits]
        exact .inr ⟨admits_iff.mp hadmits, nofun, Mesh.ids_insert ..⟩
      · rw [if_neg hadmits]
        exact .inl ⟨not_not.mp fun h ↦ hadmits (admits_iff.mpr h), _, rfl⟩
  | mesh id connect => exact hplace ..
  | phi register => exact .inr (hkeeps ⟨nofun, rfl⟩)
  | rot register => exact .inr (hkeeps ⟨nofun, rfl⟩)
  | bound register min max =>
    exact .inr (hkeeps (ofExcept_ids fun changed h ↦ congrArg Mesh.ids (bound_loads h).mesh))
  | flow source target => exact .inr (hkeeps (ofExcept_ids fun changed h ↦ flow_ids h))
  | seek node register =>
    exact .inr (hkeeps (ofExcept_ids fun changed h ↦ congrArg Mesh.ids (seek_loads h).mesh))
  | spiral increment register => exact .inr (hkeeps ⟨nofun, rfl⟩)
  | cycle count start stop =>
    show _ ∨ (_ ∧ (∀ left, core.cycle budget count start stop ≠ .full left) ∧
      ((core.cycle budget count start stop).result core).mesh.ids = _)
    by_cases hreversed : stop < start
    · have hnone : core.wanted (.cycle count start stop) = [] := by
        show (List.range' start (stop - start)).map cycleId = []
        rw [Nat.sub_eq_zero_of_le hreversed.le]
        rfl
      rw [hnone, cycle, if_pos hreversed]
      exact .inr (hkeeps ⟨nofun, rfl⟩)
    · have hnodes := cycleNodes_spec budget core.registers.a count.toNat (stop - start) start
        core.mesh
      rw [apply, cycle, if_neg hreversed]
      split <;> rename_i hmesh <;> rw [hmesh] at hnodes
      · obtain ⟨hroom, -, hids⟩ := hnodes.resolve_left fun h ↦ nomatch h.2
        exact .inr ⟨hroom, nofun, hids⟩
      · exact .inl ⟨(hnodes.resolve_right fun h ↦ nomatch h.2.1).1, _, rfl⟩
  | forge id connect => exact hplace ..
  | sync here remote => exact .inr (hkeeps ⟨nofun, Mesh.ids_mapNodes ..⟩)
  | mask node register => exact .inr (hkeeps (ofExcept_ids fun changed h ↦ mask_ids h))
  | cryst node => exact .inr (hkeeps (ofExcept_ids fun changed h ↦ cryst_ids h))
  | spec => exact .inr (hkeeps (ofExcept_ids fun changed h ↦ congrArg Mesh.ids (spec_loads h).mesh))
  | bloom => cases lesson <;> exact .inr (hkeeps ⟨nofun, rfl⟩)
  | save path => exact .inr (hkeeps ⟨nofun, rfl⟩)

/-- An instruction is left undone for want of room exactly if it exhausts the budget. -/
theorem apply_full_iff {core : Core} {budget : Nat} (lesson : Option Lesson)
    {instruction : Instruction} :
    (∃ left, core.apply budget lesson instruction = .full left) ↔
      Exhausts budget (core.ground instruction).ids (core.wanted instruction) := by
  rcases core.apply_spec budget lesson instruction with ⟨hfull, hleft⟩ | ⟨hroom, hleft, -⟩
  · exact iff_of_true hleft hfull
  · exact iff_of_false (fun ⟨left, h⟩ ↦ hleft left h) hroom

/-- An instruction that does not exhaust the budget leaves a node for each id that it needs one
for, and no others that are new. -/
theorem apply_ids {core : Core} {budget : Nat} {lesson : Option Lesson} {instruction : Instruction}
    (h : ¬Exhausts budget (core.ground instruction).ids (core.wanted instruction)) :
    ((core.apply budget lesson instruction).result core).mesh.ids =
      present (core.ground instruction).ids (core.wanted instruction) := by
  rcases core.apply_spec budget lesson instruction with ⟨hfull, -⟩ | ⟨-, -, hids⟩
  · exact absurd hfull h
  · exact hids

/-! ### The size of the mesh -/

/-- Ids that do not exhaust the budget add up to no more nodes than it allows. -/
theorem length_present_le {budget : Nat} {ids wanted : List String}
    (h : ¬Exhausts budget ids wanted) :
    (present ids wanted).length ≤ max ids.length budget := by
  induction wanted generalizing ids with
  | nil => exact le_max_left _ _
  | cons id rest ih =>
    rw [exhausts_cons, not_or] at h
    refine (ih h.2).trans (max_le ?_ (le_max_right _ _))
    unfold present
    split
    · exact le_max_left _ _
    · rename_i habsent
      have hroom : ids.length < budget := not_le.mp fun hfull ↦ h.1 ⟨habsent, hfull⟩
      rw [present, List.length_append]
      exact le_max_of_le_right hroom

/-- At every index of a cycle the mesh is within the budget, or no larger than it was. -/
theorem cycleNodes_size_le (budget : Nat) (seed : SpiralVector) (count length index : Nat)
    (mesh : Mesh) :
    (cycleNodes budget seed count length index mesh).1.size ≤ max mesh.size budget := by
  induction length generalizing index mesh with
  | zero => exact le_max_left _ _
  | succ length ih =>
    rw [cycleNodes]
    rcases cycleNode?_spec mesh budget seed count index with
      ⟨-, hnone⟩ | ⟨hroom, next, hnext, hids⟩
    · rw [hnone]
      exact le_max_left _ _
    · rw [hnext]
      refine (ih (index + 1) next).trans (max_le ?_ (le_max_right _ _))
      rw [← Mesh.length_ids, ← Mesh.length_ids, hids]
      exact length_present_le hroom

/-- An instruction that is left undone for want of room has not made the mesh too large. -/
theorem full_size_le {core left : Core} {budget : Nat} {lesson : Option Lesson}
    {instruction : Instruction} (h : core.apply budget lesson instruction = .full left) :
    left.mesh.size ≤ max core.mesh.size budget := by
  have hplace {id : String} {vector : SpiralVector} {added initial : List String}
      (hplaced : core.place budget id vector added initial = .full left) :
      left.mesh.size ≤ max core.mesh.size budget := by
    rcases core.place_spec budget id vector added initial with ⟨-, hfull⟩ | ⟨-, _, hplain, -⟩
    · cases hfull.symm.trans hplaced
      exact le_max_left _ _
    · cases hplain.symm.trans hplaced
  have hattempt {attempt : Except Fault Core} : Change.ofExcept attempt ≠ .full left := by
    cases attempt <;> exact nofun
  cases instruction with
  | init clears =>
    change core.initialise budget clears = .full left at h
    unfold initialise at h
    dsimp only at h
    split at h
    · cases h
    · split at h <;> cases h
      exact Nat.zero_le _
  | mesh id connect => exact hplace h
  | forge id connect => exact hplace h
  | cycle count start stop =>
    have hsize := cycleNodes_size_le budget core.registers.a count.toNat (stop - start) start
      core.mesh
    change core.cycle budget count start stop = .full left at h
    unfold cycle at h
    split at h
    · cases h
    · split at h <;> rename_i hmesh <;> rw [hmesh] at hsize <;> cases h
      exact hsize
  | bound register min max => exact absurd h hattempt
  | flow source target => exact absurd h hattempt
  | seek node register => exact absurd h hattempt
  | mask node register => exact absurd h hattempt
  | cryst node => exact absurd h hattempt
  | spec => exact absurd h hattempt
  | _ => cases h

/-- No instruction makes a mesh larger than the budget, or than it was. -/
theorem apply_size_le (core : Core) (budget : Nat) (lesson : Option Lesson)
    (instruction : Instruction) :
    ((core.apply budget lesson instruction).result core).mesh.size ≤
      max core.mesh.size budget := by
  rcases core.apply_spec budget lesson instruction with ⟨-, left, hleft⟩ | ⟨hroom, -, hids⟩
  · rw [hleft]
    exact full_size_le hleft
  · have hground : (core.ground instruction).size ≤ core.mesh.size := by
      unfold ground
      split
      · exact Nat.zero_le _
      · exact le_rfl
    rw [← Mesh.length_ids, hids]
    refine (length_present_le hroom).trans (max_le ?_ (le_max_right _ _))
    rw [Mesh.length_ids]
    exact le_max_of_le_left hground

end Core

end SpiralMachine
