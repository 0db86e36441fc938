import Mathlib.Data.List.Basic
import SpiralMachine.Mesh.Resonance

/-!
# What stands under the ids

A mesh is its ids, in their order, and what stands under them (`eq_of_get?`). A node that is changed
stays between the same nodes (`exists_entries_modify`). The resonance of a mesh looks at no more
than the ids, the vectors and the connections (`resonance_congr`): the scores of the edges are
found by looking up one id after the other (`resonance_eq`).
-/

set_option autoImplicit false

namespace SpiralMachine.Mesh

theorem get?_eq_none_iff {mesh : Mesh} {id : String} : mesh.get? id = none ↔ id ∉ mesh.ids := by
  rw [← get?_isSome_iff, Option.not_isSome_iff_eq_none]

/-- Every node of a mesh is found under its id. -/
theorem get?_of_mem {mesh : Mesh} {entry : String × Node} (h : entry ∈ mesh.entries) :
    mesh.get? entry.1 = some entry.2 :=
  Keyed.lookup_of_mem mesh.ids_nodup h

theorem mem_ids_of_get? {mesh : Mesh} {id : String} {node : Node} (h : mesh.get? id = some node) :
    id ∈ mesh.ids :=
  get?_isSome_iff.mp (Option.isSome_of_eq_some h)

/-- The entries of a mesh, looked up one id after the other. -/
theorem entries_eq (mesh : Mesh) :
    mesh.entries = mesh.ids.map fun id ↦ (id, (mesh.get? id).getD (.new .zero)) := by
  rw [ids, List.map_map]
  refine (List.map_id mesh.entries).symm.trans (List.map_congr_left fun entry hentry ↦ ?_)
  rw [Function.comp_apply, get?_of_mem hentry]
  rfl

theorem eq_of_get? {mesh other : Mesh} (hids : mesh.ids = other.ids)
    (hget : ∀ id, mesh.get? id = other.get? id) : mesh = other := by
  ext1
  rw [entries_eq mesh, entries_eq other, hids]
  exact List.map_congr_left fun id _ ↦ by rw [hget]

/-! ### Changing one node -/

theorem modify_modify (mesh : Mesh) (id : String) (first second : Node → Node) :
    (mesh.modify id first).modify id second = mesh.modify id (second ∘ first) := by
  ext1
  simp only [modify, mapNodes, List.map_map]
  refine List.map_congr_left fun entry _ ↦ ?_
  dsimp only [Function.comp_apply]
  split <;> rfl

/-- A change that leaves the node under an id as it is leaves the mesh as it is. -/
theorem modify_eq_self {mesh : Mesh} {id : String} {change : Node → Node}
    (h : ∀ node, mesh.get? id = some node → change node = node) : mesh.modify id change = mesh := by
  refine eq_of_get? (mesh.ids_modify id change) fun other ↦ ?_
  rw [get?_modify]
  split
  · rename_i heq
    subst heq
    cases hnode : mesh.get? other with
    | none => rfl
    | some node => rw [Option.map_some, h node hnode]
  · rfl

/-- A node that is changed stays where it stands, between the same nodes. -/
theorem exists_entries_modify {mesh : Mesh} {id : String} {node : Node}
    (h : mesh.get? id = some node) :
    ∃ before after, mesh.entries = before ++ (id, node) :: after ∧
      ∀ change, (mesh.modify id change).entries = before ++ (id, change node) :: after := by
  obtain ⟨before, after, hentries⟩ := List.append_of_mem (Keyed.mem_of_lookup h)
  have hnodup := mesh.ids_nodup
  rw [hentries, List.map_append, List.map_cons, List.nodup_append, List.nodup_cons] at hnodup
  obtain ⟨-, ⟨hafter, -⟩, hbefore⟩ := hnodup
  have hfirst : id ∉ before.map Prod.fst := fun hid ↦ hbefore id hid id List.mem_cons_self rfl
  have hothers (change : Node → Node) (entries : List (String × Node))
      (hid : id ∉ entries.map Prod.fst) :
      (entries.map fun entry ↦ (entry.1, if entry.1 = id then change entry.2 else entry.2)) =
        entries := by
    refine (List.map_congr_left fun entry hentry ↦ ?_).trans (List.map_id entries)
    have hne : entry.1 ≠ id := fun heq ↦ hid (heq ▸ List.mem_map_of_mem hentry)
    rw [if_neg hne]
    rfl
  refine ⟨before, after, hentries, fun change ↦ ?_⟩
  change mesh.entries.map (fun entry ↦
    (entry.1, if entry.1 = id then change entry.2 else entry.2)) = _
  rw [hentries, List.map_append, List.map_cons, hothers change before hfirst,
    hothers change after hafter, if_pos rfl]

/-! ### What resonates -/

/-- The scores of the edges of a node, in the order of its connections. -/
def scores (mesh : Mesh) (node : Node) : List Float :=
  node.connections.filterMap fun target ↦
    (mesh.get? target).map fun other ↦ Resonance.pair node.vector other.vector

/-- A mesh resonates by the scores of its edges, node by node. -/
theorem resonance_eq (mesh : Mesh) :
    mesh.resonance =
      Resonance.mean (mesh.ids.flatMap fun id ↦ (mesh.get? id).elim [] mesh.scores) := by
  rw [resonance, edges, ids, List.map_flatMap, List.flatMap_map]
  congr 1
  refine List.flatMap_congr fun entry hentry ↦ ?_
  rw [get?_of_mem hentry, List.map_filterMap]
  simp only [Option.elim_some, scores, Option.map_map, Function.comp_def]

/-- A node has the same edges in two meshes, with the same scores, if its targets have the same
vectors. -/
theorem scores_congr {mesh other : Mesh} {node later : Node} (hvector : later.vector = node.vector)
    (hconnections : later.connections = node.connections)
    (htargets : ∀ target ∈ node.connections,
      (other.get? target).map Node.vector = (mesh.get? target).map Node.vector) :
    other.scores later = mesh.scores node := by
  rw [scores, scores, hvector, hconnections]
  refine List.filterMap_congr fun target htarget ↦ ?_
  have h := congrArg (Option.map (Resonance.pair node.vector)) (htargets target htarget)
  rwa [Option.map_map, Option.map_map] at h

/-- Meshes with the same ids, vectors and connections resonate alike. -/
theorem resonance_congr {mesh other : Mesh} (hids : other.ids = mesh.ids)
    (hnodes : ∀ id node, mesh.get? id = some node → ∃ later, other.get? id = some later ∧
      later.vector = node.vector ∧ later.connections = node.connections) :
    other.resonance = mesh.resonance := by
  have hnone {id : String} (h : mesh.get? id = none) : other.get? id = none := by
    rwa [get?_eq_none_iff, hids, ← get?_eq_none_iff]
  have hvectors (target : String) :
      (other.get? target).map Node.vector = (mesh.get? target).map Node.vector := by
    cases htarget : mesh.get? target with
    | none => rw [hnone htarget]
    | some found =>
      obtain ⟨last, hlast, hfound, -⟩ := hnodes target found htarget
      rw [hlast, Option.map_some, Option.map_some, hfound]
  rw [resonance_eq, resonance_eq, hids]
  congr 1
  refine List.flatMap_congr fun id _ ↦ ?_
  cases hnode : mesh.get? id with
  | none =>
    rw [hnone hnode]
    rfl
  | some node =>
    obtain ⟨later, hlater, hvector, hconnections⟩ := hnodes id node hnode
    rw [hlater, Option.elim_some, Option.elim_some]
    exact scores_congr hvector hconnections fun target _ ↦ hvectors target

end SpiralMachine.Mesh
