import Mathlib.Data.List.Basic
import Mathlib.Data.Prod.Lex
import Mathlib.Logic.Relation
import SpiralMachine.Proofs.Mesh.Lookup

/-!
# Live edges

A connection is a live edge if its target is in the mesh. The edges of a mesh are its live edges,
each once for every place where it stands, node by node and connection by connection
(`edges_eq_placed`, `pairwise_placed`, `mem_placed_iff`). Nothing else resonates: an `Edit` adds
connections whose target does not exist, changes what a node remembers or scores, or appends nodes
that no edge leads to or from, and the mesh resonates as before (`resonance_edit`).
-/

set_option autoImplicit false

namespace SpiralMachine.Mesh

variable {mesh other : Mesh}

/-! ### The places of edges -/

/-- The source, a node at a place in the order of creation, has a connection at a place in its list
whose target is in the mesh. -/
structure LiveEdge (mesh : Mesh) (place : ℕ × ℕ) (edge : (String × Node) × (String × Node)) :
    Prop where
  source : mesh.entries[place.1]? = some edge.1
  connection : edge.1.2.connections[place.2]? = some edge.2.1
  target : mesh.get? edge.2.1 = some edge.2.2

/-- The edges of a mesh with their places. -/
def placed (mesh : Mesh) : List ((ℕ × ℕ) × (String × Node) × (String × Node)) :=
  mesh.entries.zipIdx.flatMap fun source ↦
    source.1.2.connections.zipIdx.filterMap fun target ↦
      (mesh.get? target.1).map fun node ↦
        ((source.2, target.2), source.1, target.1, node)

theorem edges_eq_placed (mesh : Mesh) : mesh.edges = mesh.placed.map Prod.snd := by
  have hsources : mesh.edges = mesh.entries.zipIdx.flatMap fun source ↦
      source.1.2.connections.filterMap fun target ↦
        (mesh.get? target).map fun node ↦ (source.1, (target, node)) := by
    rw [edges, ← List.zipIdx_map_fst 0 mesh.entries, List.flatMap_map, List.zipIdx_map_fst]
  rw [hsources, placed, List.map_flatMap]
  refine List.flatMap_congr fun source _ ↦ ?_
  rw [← List.zipIdx_map_fst 0 source.1.2.connections, List.filterMap_map, List.zipIdx_map_fst,
    List.map_filterMap]
  simp only [Function.comp_def, Option.map_map]

/-- The places of edges are in lexicographic order. -/
theorem pairwise_placed (mesh : Mesh) :
    (mesh.placed.map Prod.fst).Pairwise (Prod.Lex (· < ·) (· < ·)) := by
  have hincreasing {α : Type} (items : List α) :
      items.zipIdx.Pairwise fun first second ↦ first.2 < second.2 := by
    rw [← List.pairwise_map (f := Prod.snd), List.zipIdx_map_snd]
    exact List.pairwise_lt_range'
  rw [List.pairwise_map, placed, List.pairwise_flatMap]
  constructor
  · intro source _
    rw [List.pairwise_filterMap]
    refine (hincreasing source.1.2.connections).imp fun hlt edge hedge later hlater ↦ ?_
    obtain ⟨_, -, rfl⟩ := Option.map_eq_some_iff.mp hedge
    obtain ⟨_, -, rfl⟩ := Option.map_eq_some_iff.mp hlater
    exact .right _ hlt
  · refine (hincreasing mesh.entries).imp fun hlt edge hedge later hlater ↦ ?_
    obtain ⟨_, -, hedge⟩ := List.mem_filterMap.mp hedge
    obtain ⟨_, -, hlater⟩ := List.mem_filterMap.mp hlater
    obtain ⟨_, -, rfl⟩ := Option.map_eq_some_iff.mp hedge
    obtain ⟨_, -, rfl⟩ := Option.map_eq_some_iff.mp hlater
    exact .left _ _ hlt

theorem mem_placed_iff {place : ℕ × ℕ} {edge : (String × Node) × (String × Node)} :
    (place, edge) ∈ mesh.placed ↔ mesh.LiveEdge place edge := by
  rw [placed, List.mem_flatMap]
  constructor
  · rintro ⟨source, hsource, h⟩
    obtain ⟨target, htarget, h⟩ := List.mem_filterMap.mp h
    obtain ⟨node, hnode, h⟩ := Option.map_eq_some_iff.mp h
    cases h
    exact ⟨List.mem_zipIdx_iff_getElem?.mp hsource, List.mem_zipIdx_iff_getElem?.mp htarget, hnode⟩
  · rintro ⟨hsource, hconnection, htarget⟩
    refine ⟨(edge.1, place.1), List.mem_zipIdx_iff_getElem?.mpr hsource, ?_⟩
    refine List.mem_filterMap.mpr
      ⟨(edge.2.1, place.2), List.mem_zipIdx_iff_getElem?.mpr hconnection, ?_⟩
    rw [htarget]
    rfl

/-! ### What does not resonate -/

/-- An edit that gives and takes no live edge. -/
inductive Edit (mesh : Mesh) : Mesh → Prop where
  /-- Targets that do not exist are put at a place among the connections of a node. -/
  | dangle (id : String) (place : ℕ) (targets : List String)
      (hdead : ∀ target ∈ targets, target ∉ mesh.ids) :
      Edit mesh (mesh.modify id fun node ↦ { node with
        connections := node.connections.take place ++ targets ++ node.connections.drop place })
  /-- What a node remembers and scores is replaced. -/
  | annotate (id : String) (memory : Json.Members) (resonance : Float) :
      Edit mesh (mesh.modify id fun node ↦ { node with memory, resonance })
  /-- Nodes are appended whose ids no connection names and that are connected to no node. -/
  | extend {other : Mesh} (new : List (String × Node))
      (hentries : other.entries = mesh.entries ++ new)
      (hunnamed : ∀ node ∈ mesh.nodes, ∀ target ∈ node.connections, target ∉ new.map Prod.fst)
      (hdead : ∀ entry ∈ new, ∀ target ∈ entry.2.connections, target ∉ other.ids) :
      Edit mesh other

/-- Only connections to nodes of the mesh give scores. -/
theorem scores_filter (mesh : Mesh) (node : Node) :
    mesh.scores node =
      mesh.scores { node with connections := node.connections.filter (· ∈ mesh.ids) } := by
  rw [scores, scores, List.filterMap_filter]
  refine List.filterMap_congr fun target _ ↦ ?_
  by_cases h : target ∈ mesh.ids
  · rw [if_pos (by simpa using h)]
  · rw [if_neg (by simpa using h), get?_eq_none_iff.mpr h, Option.map_none]

/-- A mesh resonates as before if a node keeps its vector and its connections to nodes. -/
theorem resonance_modify (id : String) {change : Node → Node}
    (hvector : ∀ node, (change node).vector = node.vector)
    (hconnections : ∀ node : Node, (change node).connections.filter (· ∈ mesh.ids) =
      node.connections.filter (· ∈ mesh.ids)) :
    (mesh.modify id change).resonance = mesh.resonance := by
  have hids : (mesh.modify id change).ids = mesh.ids := ids_modify mesh id change
  have htargets (target : String) : ((mesh.modify id change).get? target).map Node.vector =
      (mesh.get? target).map Node.vector := by
    rw [get?_modify]
    split
    · rw [Option.map_map]
      exact congrArg (Option.map · _) (funext hvector)
    · rfl
  rw [resonance_eq, resonance_eq, hids]
  congr 1
  refine List.flatMap_congr fun name _ ↦ ?_
  rw [get?_modify]
  cases mesh.get? name with
  | none => split <;> rfl
  | some node =>
    split
    · rw [Option.map_some, Option.elim_some, Option.elim_some, scores_filter, scores_filter mesh]
      refine scores_congr (hvector node) ?_ fun target _ ↦ htargets target
      rw [hids]
      exact hconnections node
    · rw [Option.elim_some, Option.elim_some]
      exact scores_congr rfl rfl fun target _ ↦ htargets target

/-- A mesh resonates as before if nodes are appended that no edge leads to or from. -/
theorem resonance_of_entries_append {new : List (String × Node)}
    (hentries : other.entries = mesh.entries ++ new)
    (hunnamed : ∀ node ∈ mesh.nodes, ∀ target ∈ node.connections, target ∉ new.map Prod.fst)
    (hdead : ∀ entry ∈ new, ∀ target ∈ entry.2.connections, target ∉ other.ids) :
    other.resonance = mesh.resonance := by
  have hscores (mesh : Mesh) :
      mesh.resonance = Resonance.mean (mesh.entries.flatMap fun entry ↦ mesh.scores entry.2) := by
    rw [resonance_eq, ids, List.flatMap_map]
    congr 1
    refine List.flatMap_congr fun entry hentry ↦ ?_
    rw [get?_of_mem hentry, Option.elim_some]
  have hnew : (new.flatMap fun entry ↦ other.scores entry.2) = [] := by
    rw [List.flatMap_eq_nil_iff]
    intro entry hentry
    rw [scores, List.filterMap_eq_nil_iff]
    intro target htarget
    rw [get?_eq_none_iff.mpr (hdead entry hentry target htarget), Option.map_none]
  rw [hscores, hscores, hentries, List.flatMap_append, hnew, List.append_nil]
  congr 1
  refine List.flatMap_congr fun entry hentry ↦ scores_congr rfl rfl fun target htarget ↦ ?_
  have hnone : new.lookup target = none := by
    rw [← Option.not_isSome_iff_eq_none, Keyed.lookup_isSome_iff]
    exact hunnamed entry.2 (List.mem_map_of_mem hentry) target htarget
  rw [get?, hentries, List.lookup_append, hnone, Option.or_none]
  rfl

theorem resonance_edit (h : mesh.Edit other) : other.resonance = mesh.resonance := by
  cases h with
  | dangle id place targets hdead =>
    refine resonance_modify id (fun _ ↦ rfl) fun node ↦ ?_
    have hnone : targets.filter (· ∈ mesh.ids) = [] := by simpa using hdead
    rw [List.filter_append, List.filter_append, hnone, List.append_nil, ← List.filter_append,
      List.take_append_drop]
  | annotate id memory resonance => exact resonance_modify id (fun _ ↦ rfl) fun _ ↦ rfl
  | extend new hentries hunnamed hdead => exact resonance_of_entries_append hentries hunnamed hdead

/-- A mesh resonates with its live edges only. Its edges are these, once for each place where one
stands and in the order of the places; edits that give and take none leave the resonance as it was,
however many they are; and without any the mesh is neutral. -/
theorem resonance_liveEdges (mesh : Mesh) :
    (∃ placed : List ((ℕ × ℕ) × (String × Node) × (String × Node)),
      placed.map Prod.snd = mesh.edges ∧
      (placed.map Prod.fst).Pairwise (Prod.Lex (· < ·) (· < ·)) ∧
      ∀ place edge, (place, edge) ∈ placed ↔ mesh.LiveEdge place edge) ∧
    (∀ other, Relation.ReflTransGen Edit mesh other → other.resonance = mesh.resonance) ∧
    ((∀ place edge, ¬mesh.LiveEdge place edge) → mesh.resonance = 1.0) := by
  refine ⟨⟨mesh.placed, mesh.edges_eq_placed.symm, mesh.pairwise_placed,
    fun place edge ↦ mem_placed_iff⟩, fun other hedits ↦ ?_, fun hnone ↦ ?_⟩
  · induction hedits with
    | refl => rfl
    | tail _ hedit ih => exact (resonance_edit hedit).trans ih
  · have hplaced : mesh.placed = [] :=
      List.eq_nil_iff_forall_not_mem.mpr fun entry hentry ↦
        hnone entry.1 entry.2 (mem_placed_iff.mp hentry)
    rw [resonance, edges_eq_placed, hplaced]
    rfl

/-- Two nodes at a right angle, one of which is connected to the other twice, resonate by zero, also
after targets that do not exist, another memory and a third node that is connected to none of them.
A node that is connected to nothing but such a target is neutral. -/
theorem liveEdges_of_ghosts :
    let across : Mesh := .ofList
      [("a", { Node.new ⟨1.0, 0.0, 0.0, 0.0⟩ with connections := ["b", "ghost", "b"] }),
        ("b", .new ⟨0.0, 1.0, 0.0, 0.0⟩)]
    let dangling := across.modify "a" fun node ↦ { node with
      connections := node.connections.take 1 ++ ["ghost", "shade"] ++ node.connections.drop 1 }
    let annotated := dangling.modify "b" fun node ↦ { node with
      memory := [("seen", .boolean true)], resonance := 0.5 }
    let extended := annotated.insert "c" { Node.new .seed with connections := ["nobody"] }
    let lonely : Mesh := .ofList [("a", { Node.new .seed with connections := ["ghost"] })]
    across.Edit dangling ∧ dangling.Edit annotated ∧ annotated.Edit extended ∧
      extended.edges.length = 2 ∧ extended.resonance = across.resonance ∧ across.resonance = 0.0 ∧
      (∀ place edge, ¬lonely.LiveEdge place edge) ∧ lonely.resonance = 1.0 := by
  intro across dangling annotated extended lonely
  have hdangle : across.Edit dangling := .dangle "a" 1 ["ghost", "shade"] (by decide +kernel)
  have hannotate : dangling.Edit annotated := .annotate "b" [("seen", .boolean true)] 0.5
  have hextend : annotated.Edit extended :=
    .extend [("c", { Node.new .seed with connections := ["nobody"] })] rfl (by decide +kernel)
      (by decide +kernel)
  have hedits : Relation.ReflTransGen Edit across extended :=
    ((Relation.ReflTransGen.single hdangle).tail hannotate).tail hextend
  have hlonely : lonely.placed = [] := List.length_eq_zero_iff.mp (by decide +kernel)
  have hnone (place : ℕ × ℕ) (edge : (String × Node) × (String × Node)) :
      ¬lonely.LiveEdge place edge := fun h ↦ by
    have hmem := mem_placed_iff.mpr h
    rw [hlonely] at hmem
    exact List.not_mem_nil hmem
  obtain ⟨-, hresonance, -⟩ := across.resonance_liveEdges
  obtain ⟨-, -, hneutral⟩ := lonely.resonance_liveEdges
  exact ⟨hdangle, hannotate, hextend, by decide +kernel, hresonance extended hedits,
    by decide +kernel, hnone, hneutral hnone⟩

end SpiralMachine.Mesh
