import Mathlib.Data.List.MinMax
import SpiralMachine.Proofs.Machine.NoTrace
import SpiralMachine.Proofs.Mesh.Resonance

/-!
# Seeking the best match

A SEEK that names no node looks for the one that resonates most with its register. The scores are
finite, so that they are compared as numbers and the search is the maximum of a list
(`best_eq_argmax`). Of several nodes with the greatest score it gives the one created first
(`dispatch_seek_firstBest`).
-/

set_option autoImplicit false

namespace SpiralMachine

open Number

/-- A node at a place in the order of creation that no other node surpasses and that surpasses all
nodes before it. -/
structure Mesh.FirstBest (mesh : Mesh) (score : Node → Float) (place : ℕ) (node : Node) : Prop where
  at_place : mesh.nodes[place]? = some node
  greatest : ∀ other ∈ mesh.nodes, score other ≤ score node
  first : ∀ index < place, ∀ other, mesh.nodes[index]? = some other → score other < score node

/-- The maximum of a list is found where it stands first. -/
theorem exists_first_of_mem_argmax {α : Type} {key : α → ℚ} {items : List α} {top : α}
    (h : top ∈ items.argmax key) :
    ∃ place : ℕ, items[place]? = some top ∧ (∀ other ∈ items, key other ≤ key top) ∧
      ∀ index < place, ∀ other, items[index]? = some other → key other < key top := by
  classical
  refine ⟨items.idxOf top, List.getElem?_idxOf (List.argmax_mem h),
    fun other hother ↦ List.le_of_mem_argmax hother h, fun index hindex other hother ↦ ?_⟩
  by_contra hle
  have hearlier : items.idxOf top ≤ items.idxOf other :=
    List.index_of_argmax h (List.mem_of_getElem? hother) (not_lt.mp hle)
  obtain ⟨hlength, hother⟩ := List.getElem?_eq_some_iff.mp hother
  have hne := List.not_of_lt_findIdx (hindex.trans_le hearlier)
  simp [hother] at hne

namespace Core

theorem best_concat (earlier : List (Float × SpiralVector)) (last : Float × SpiralVector) :
    best (earlier ++ [last]) =
      match best earlier with
      | none => some last
      | some top => if last.1 > top.1 then some last else some top := by
  rw [best, List.foldl_concat]
  rfl

/-- Among finite scores the best is the first that is greatest as a number. -/
theorem best_eq_argmax {scored : List (Float × SpiralVector)}
    (h : ∀ candidate ∈ scored, candidate.1.isFinite) :
    best scored = scored.argmax fun candidate ↦ value candidate.1 := by
  induction scored using List.reverseRecOn with
  | nil => rfl
  | append_singleton earlier last ih =>
    simp only [List.mem_append, List.mem_singleton, or_imp, forall_and, forall_eq] at h
    rw [best_concat, List.argmax_concat, ih h.1]
    cases htop : earlier.argmax fun candidate ↦ value candidate.1 with
    | none => rfl
    | some top =>
      have hfinite : top.1.isFinite := h.1 top (List.argmax_mem htop)
      simp only [gt_iff_lt, lt_iff hfinite h.2]

/-- A search among nodes ends at the first of the best. -/
theorem seek_firstBest (core : Core) (register : Register) (h : core.mesh.nodes ≠ []) :
    let score (node : Node) := Resonance.pair node.vector (core.registers.get register)
    ∃ place node, core.mesh.FirstBest score place node ∧
      core.seek none register = .ok (core.setRegister register node.vector) := by
  intro score
  let scored := core.mesh.nodes.map fun node ↦ (score node, node.vector)
  have hfinite (node : Node) : (score node).isFinite := (Resonance.within_pair _ _).finite
  have hbest : best scored = scored.argmax fun candidate ↦ value candidate.1 :=
    best_eq_argmax (by simp [scored, hfinite])
  obtain ⟨top, htop⟩ : ∃ top, scored.argmax (fun candidate ↦ value candidate.1) = some top := by
    rw [← Option.ne_none_iff_exists', ne_eq, List.argmax_eq_none]
    simpa [scored] using h
  obtain ⟨place, hplace, hgreatest, hfirst⟩ := exists_first_of_mem_argmax htop
  obtain ⟨node, hnode, rfl⟩ : ∃ node, core.mesh.nodes[place]? = some node ∧
      (score node, node.vector) = top := by
    simpa [scored] using hplace
  refine ⟨place, node, ⟨hnode, fun other hother ↦ ?_, fun index hindex other hother ↦ ?_⟩, ?_⟩
  · rw [le_iff (hfinite other) (hfinite node)]
    exact hgreatest (score other, other.vector) (List.mem_map.mpr ⟨other, hother, rfl⟩)
  · rw [lt_iff (hfinite other) (hfinite node)]
    exact hfirst index hindex (score other, other.vector) (by simp [scored, hother])
  · unfold seek
    dsimp only
    rw [show best _ = some (score node, node.vector) from hbest.trans htop]

end Core

namespace Machine

/-- A SEEK without a node, on a mesh that has nodes, loads its register with the vector of the first
of those that resonate most with what the register held, and changes nothing else. -/
theorem dispatch_seek_firstBest (machine : Machine) (host : Host) (flags : Config)
    (register : Register) (h : machine.mesh.isEmpty = false) :
    let score (node : Node) := Resonance.pair node.vector (machine.registers.get register)
    let done := machine.dispatch host flags (.seek none register)
    ∃ place node, machine.mesh.FirstBest score place node ∧
      done.2 = .applied ∧
      done.1 = ⟨{ machine with registers := done.1.machine.registers }, host⟩ ∧
      done.1.machine.registers.get register = node.vector ∧
      ∀ other ≠ register,
        done.1.machine.registers.get other = machine.registers.get other := by
  intro score done
  have hnodes : machine.mesh.nodes ≠ [] := by
    simpa [Mesh.nodes, Mesh.isEmpty] using h
  obtain ⟨place, node, hfirst, hseek⟩ := machine.toCore.seek_firstBest register hnodes
  have hdone : done = machine.settle host flags.maxMeshNodes
      (.ofExcept (machine.toCore.seek none register)) := rfl
  rw [hdone, hseek]
  refine ⟨place, node, hfirst, rfl, rfl, ?_, fun other hother ↦ ?_⟩
  · exact (RegisterFile.get_set _ _ _ _).trans (if_pos rfl)
  · exact (RegisterFile.get_set _ _ _ _).trans (if_neg hother)

/-- Of two nodes that lie in the direction of the register the one that was created first is taken,
and neither the last one nor the node before it. -/
theorem seek_firstBest_of_tie :
    let machine := { Machine.new .default .none with
      mesh := .ofList [("across", .new ⟨0.0, 3.0, 0.0, 0.0⟩), ("along", .new ⟨2.0, 0.0, 0.0, 0.0⟩),
        ("again", .new ⟨1.0, 0.0, 0.0, 0.0⟩)]
      registers := RegisterFile.zero.set .b ⟨1.0, 0.0, 0.0, 0.0⟩ }
    let host : Host := ⟨.empty, [], 0⟩
    let done := machine.dispatch host .default (.seek none .b)
    machine.mesh.isEmpty = false ∧ done.2 = .applied ∧
      done.1.machine.registers.get .b = ⟨2.0, 0.0, 0.0, 0.0⟩ ∧
      done.1.machine.registers.get .a = .zero ∧ done.1.machine.mesh = machine.mesh := by
  intro machine host done
  have hempty : machine.mesh.isEmpty = false := by decide +kernel
  obtain ⟨place, node, hfirst, happlied, hchanged, hloaded, hothers⟩ :=
    machine.dispatch_seek_firstBest host .default .b hempty
  refine ⟨hempty, happlied, ?_, hothers .a nofun, congrArg (·.machine.mesh) hchanged⟩
  rw [hloaded]
  have hnode := hfirst.at_place
  have halong : Node.new ⟨2.0, 0.0, 0.0, 0.0⟩ ∈ machine.mesh.nodes :=
    List.mem_of_getElem? (show machine.mesh.nodes[1]? = _ from rfl)
  rcases place with _ | _ | _ | place
  · cases hnode
    exact absurd (hfirst.greatest _ halong) (by decide +kernel)
  · cases hnode
    rfl
  · cases hnode
    exact absurd (hfirst.first 1 (by decide) _ rfl) (by decide +kernel)
  · cases hnode

end Machine

end SpiralMachine
