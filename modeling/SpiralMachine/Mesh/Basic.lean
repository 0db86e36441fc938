import SpiralMachine.Json.Basic
import SpiralMachine.Vector

/-!
# The mesh

Nodes under distinct ids, in the order of their creation. A node holds a vector, free
memory, directed connections to ids that need not exist, and a resonance score.
Inserting under an id that is taken replaces the node where it stands: `ids_insert`
says what becomes of the ids, and `get?_insert` of what stands under them.
-/

set_option autoImplicit false

namespace SpiralMachine

structure Node where
  vector : SpiralVector
  /-- Members in the order of their keys. -/
  memory : Json.Members
  connections : List String
  resonance : Float

namespace Node

/-- A node without memory or connections. -/
def new (vector : SpiralVector) : Node :=
  { vector, memory := [], connections := [], resonance := 1.0 }

/-- Adds a connection unless it is there. -/
def connect (node : Node) (target : String) : Node :=
  if target ∈ node.connections then node
  else { node with connections := node.connections ++ [target] }

def connectAll (node : Node) (targets : List String) : Node :=
  targets.foldl connect node

def isConnectedTo (node : Node) (target : String) : Bool := target ∈ node.connections

end Node

structure Mesh where
  entries : List (String × Node)
  ids_nodup : (entries.map Prod.fst).Nodup

namespace Mesh

def empty : Mesh := ⟨[], List.nodup_nil⟩

def ids (mesh : Mesh) : List String := mesh.entries.map Prod.fst

def nodes (mesh : Mesh) : List Node := mesh.entries.map Prod.snd

def size (mesh : Mesh) : Nat := mesh.entries.length

def isEmpty (mesh : Mesh) : Bool := mesh.entries.isEmpty

def get? (mesh : Mesh) (id : String) : Option Node := mesh.entries.lookup id

def contains (mesh : Mesh) (id : String) : Bool := id ∈ mesh.ids

def firstId? (mesh : Mesh) : Option String := mesh.ids.head?

def lastId? (mesh : Mesh) : Option String := mesh.ids.getLast?

/-- Changes every node, which may look at its id. -/
def mapNodes (mesh : Mesh) (change : String → Node → Node) : Mesh where
  entries := mesh.entries.map fun (id, node) ↦ (id, change id node)
  ids_nodup := by
    simpa [List.map_map, Function.comp_def] using mesh.ids_nodup

/-- Changes the node under `id`, if there is one. -/
def modify (mesh : Mesh) (id : String) (change : Node → Node) : Mesh :=
  mesh.mapNodes fun other node ↦ if other = id then change node else node

/-- Puts a node under a new id, after all others. -/
def append (mesh : Mesh) (id : String) (node : Node) (isNew : id ∉ mesh.ids) : Mesh where
  entries := mesh.entries ++ [(id, node)]
  ids_nodup := by
    rw [List.map_append, List.nodup_append]
    refine ⟨mesh.ids_nodup, by simp, ?_⟩
    intro other hother last hlast
    simp only [List.map_cons, List.map_nil, List.mem_singleton] at hlast
    exact fun h ↦ isNew (hlast ▸ h ▸ hother)

/-- Puts a node under `id`, in place of the node that is there. -/
def insert (mesh : Mesh) (id : String) (node : Node) : Mesh :=
  if h : id ∈ mesh.ids then mesh.modify id fun _ ↦ node else mesh.append id node h

def ofList (entries : List (String × Node)) : Mesh :=
  entries.foldl (fun mesh (id, node) ↦ mesh.insert id node) empty

/-- The first of the indices from `index` on that is free, if one of the first `tries`
is; the next one otherwise. -/
def freeIndex (isTaken : Nat → Bool) : (tries index : Nat) → Nat
  | 0, index => index
  | tries + 1, index => if isTaken index then freeIndex isTaken tries (index + 1) else index

/-- The first id `stem_n` that is free, counting from the number of nodes. So many
nodes cannot take more indices than there are nodes. -/
def nextId (mesh : Mesh) (stem : String) : String :=
  let name (n : Nat) : String := s!"{stem}_{n}"
  name (freeIndex (fun n ↦ mesh.contains (name n)) mesh.size mesh.size)

/-- The connections whose target exists, node by node in the order of creation. -/
def edges (mesh : Mesh) : List ((String × Node) × (String × Node)) :=
  mesh.entries.flatMap fun source ↦
    source.2.connections.filterMap fun target ↦
      (mesh.get? target).map fun node ↦ (source, (target, node))

@[ext]
theorem ext {mesh other : Mesh} (h : mesh.entries = other.entries) : mesh = other := by
  cases mesh
  cases other
  congr

@[simp]
theorem ids_mapNodes (mesh : Mesh) (change : String → Node → Node) :
    (mesh.mapNodes change).ids = mesh.ids := by
  simp [ids, mapNodes, List.map_map, Function.comp_def]

@[simp]
theorem ids_modify (mesh : Mesh) (id : String) (change : Node → Node) :
    (mesh.modify id change).ids = mesh.ids :=
  mesh.ids_mapNodes _

theorem ids_insert (mesh : Mesh) (id : String) (node : Node) :
    (mesh.insert id node).ids = if id ∈ mesh.ids then mesh.ids else mesh.ids ++ [id] := by
  unfold insert
  split
  · simp
  · simp [append, ids]

theorem contains_iff {mesh : Mesh} {id : String} : mesh.contains id ↔ id ∈ mesh.ids := by
  simp [contains]

theorem length_ids (mesh : Mesh) : mesh.ids.length = mesh.size := by
  simp [size, ids]

theorem get?_isSome_iff {mesh : Mesh} {id : String} : (mesh.get? id).isSome ↔ id ∈ mesh.ids :=
  Keyed.lookup_isSome_iff

theorem get?_mapNodes (mesh : Mesh) (change : String → Node → Node) (id : String) :
    (mesh.mapNodes change).get? id = (mesh.get? id).map (change id) := by
  simp only [get?, mapNodes]
  induction mesh.entries with
  | nil => rfl
  | cons entry rest ih =>
    rw [List.map_cons, Keyed.lookup_cons, Keyed.lookup_cons, ih]
    split
    · rename_i h
      rw [h, Option.map_some]
    · rfl

theorem get?_modify (mesh : Mesh) (id other : String) (change : Node → Node) :
    (mesh.modify id change).get? other =
      if other = id then (mesh.get? other).map change else mesh.get? other := by
  rw [modify, get?_mapNodes]
  split <;> simp

theorem get?_insert (mesh : Mesh) (id other : String) (node : Node) :
    (mesh.insert id node).get? other = if other = id then some node else mesh.get? other := by
  unfold insert
  split
  · rename_i h
    rw [get?_modify]
    by_cases hid : other = id
    · subst hid
      obtain ⟨found, hfound⟩ := Option.isSome_iff_exists.mp (get?_isSome_iff.mpr h)
      rw [if_pos rfl, if_pos rfl, hfound, Option.map_some]
    · rw [if_neg hid, if_neg hid]
  · rename_i h
    simp only [append, get?, List.lookup_append, Keyed.lookup_cons, List.lookup_nil]
    by_cases hid : other = id
    · subst hid
      have hnone : mesh.entries.lookup other = none := by
        rw [← Option.not_isSome_iff_eq_none]
        exact fun hs ↦ h (get?_isSome_iff.mp hs)
      rw [if_pos rfl, if_pos rfl, hnone, Option.none_or]
    · rw [if_neg hid, if_neg hid, Option.or_none]

end Mesh

end SpiralMachine
