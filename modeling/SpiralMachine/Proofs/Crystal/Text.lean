import SpiralMachine.Crystal.Document
import SpiralMachine.Proofs.Json.Value

/-!
# Crystals read back

A record is written as an object of its fields in order, and `fields?_record` says that such an
object gives back just these fields. Every record of a crystal is read by it, and what a field
holds by the lemma of its kind. `ofText?_text` puts them together: a crystal without a flaw,
with its registers in order and with memories that the reader can follow, is read from its
own text. `flaw?_eq_none_iff` says which numbers a flaw can be in.
-/

set_option autoImplicit false

namespace SpiralMachine

namespace Json.Document

/-! ### Fields -/

/-- A finite double is read from its document. -/
theorem float?_toDocument {x : Float} (h : x.isFinite) :
    (toDocument (.real x)).float? = some x := by
  rw [toDocument, if_pos h]
  exact (float?_realNumeral h).2

theorem string?_toDocument (text : String) : (toDocument (.string text)).string? = some text := by
  rw [toDocument]
  exact text?_pieces text

/-- A natural number below the bound is read from its document. -/
theorem natural?_toDocument {value bound : ℕ} (h : value < bound) :
    (toDocument (.integer value)).natural? bound = some value := by
  rw [toDocument]
  show (integerNumeral (.ofNat value)).natural? bound = some value
  unfold Number.Numeral.natural? integerNumeral
  dsimp only
  rw [decide_eq_true h]
  rfl

theorem strings?_toDocument (texts : List String) :
    strings? (toDocument (.list (texts.map .string))) = some texts := by
  rw [toDocument, toDocuments_eq, List.map_map]
  exact mapM_map_eq fun text _ ↦ string?_toDocument text

/-! ### Records -/

theorem members?_toDocument (members : List (String × Json)) :
    (toDocument (.object members)).members? =
      some (members.map fun (key, value) ↦ (key, toDocument value)) := by
  rw [toDocument, memberDocuments_eq]
  refine mapM_map fun member _ ↦ ?_
  dsimp only
  rw [text?_pieces, Option.map_some]

/-- Under a key that is not repeated stands one value. -/
theorem single?_eq {members : List (String × Document)} (hnodup : (members.map Prod.fst).Nodup)
    {member : String × Document} (hmember : member ∈ members) :
    single? members member.1 = some (some member.2) := by
  have hfilter : members.filter (·.1 = member.1) = [member] := by
    induction members with
    | nil => cases hmember
    | cons head rest ih =>
      rw [List.map_cons, List.nodup_cons] at hnodup
      rcases List.mem_cons.mp hmember with rfl | hrest
      · rw [List.filter_cons_of_pos (by simp), List.filter_eq_nil_iff.mpr]
        intro other hother hkey
        exact hnodup.1 (of_decide_eq_true hkey ▸ List.mem_map_of_mem hother)
      · rw [List.filter_cons_of_neg, ih hnodup.2 hrest]
        intro hkey
        exact hnodup.1 (of_decide_eq_true hkey ▸ List.mem_map_of_mem hrest)
  unfold single?
  rw [hfilter]

/-- A record that is written as an object of its fields is read field by field. -/
theorem fields?_record {names : List String} {members : List (String × Json)}
    (hnames : members.map Prod.fst = names) (hnodup : names.Nodup) :
    fields? names (toDocument (.object members)) =
      some (members.map fun (_, value) ↦ some (toDocument value)) := by
  have hobject : fields? names (toDocument (.object members)) =
      (toDocument (.object members)).members?.bind fun read ↦ names.mapM (single? read) := by
    rw [toDocument]
    rfl
  have hkeys : (members.map fun (key, value) ↦ (key, toDocument value)).map Prod.fst = names := by
    rw [List.map_map]
    exact hnames
  rw [hobject, members?_toDocument, Option.bind_some]
  rw [← hkeys] at hnodup
  rw [← hnames]
  exact mapM_map fun member hmember ↦ single?_eq hnodup (List.mem_map_of_mem hmember)

end Json.Document

open Json (Document Readable toDocument)
open Json.Document

/-! ### The parts of a crystal -/

/-- A finite vector is read from its document. -/
theorem SpiralVector.ofDocument?_toJson {v : SpiralVector} (h : v.isFinite) :
    ofDocument? (toDocument v.toJson) = some v := by
  have hreals : ((v.toList.map Json.real).map toDocument).mapM float? = some v.toList := by
    rw [List.map_map]
    exact Json.mapM_map_eq fun x hx ↦ float?_toDocument (List.all_eq_true.mp h x hx)
  rw [toJson, toDocument, Json.toDocuments_eq, ofDocument?, hreals]
  exact ofList?_toList v

namespace Node

/-- The numbers of a node are finite. -/
def Finite (node : Node) : Prop := node.vector.isFinite ∧ node.resonance.isFinite

/-- The memory of a node is such as the reader gives at its depth in the text of a crystal: it
lies in a node, the node in the mesh, and the mesh in the crystal. -/
def Legible (node : Node) : Prop := Readable (Json.depthLimit - 3) (.object node.memory)

theorem memory?_toDocument {limit : ℕ} {memory : Json.Members}
    (h : Readable limit (.object memory)) :
    memory? limit (toDocument (.object memory)) = some memory := by
  rw [memory?, Json.ofDocument?_toDocument h]

/-- A node with finite numbers is read from its document if its memory can be. -/
theorem ofDocument?_toJson {limit : ℕ} {node : Node} (hfinite : node.Finite)
    (hmemory : Readable limit (.object node.memory)) :
    ofDocument? (limit + 1) (toDocument node.toJson) = some node := by
  rw [ofDocument?, toJson, fields?_record]
  · dsimp only [members, List.map, ofFields?, orDefault, Option.bind_eq_bind,
      Option.bind_some]
    rw [SpiralVector.ofDocument?_toJson hfinite.1, Nat.add_sub_cancel, memory?_toDocument hmemory,
      strings?_toDocument, float?_toDocument hfinite.2]
    rfl
  · rfl
  · decide

end Node

/-- An entry of the log is read from its document. -/
theorem ResonanceEntry.ofDocument?_toJson {entry : ResonanceEntry} (h : entry.isFinite) :
    ofDocument? (toDocument entry.toJson) = some entry := by
  rw [isFinite, Bool.and_eq_true, Bool.and_eq_true] at h
  rw [ofDocument?, toJson, fields?_record]
  · dsimp only [List.map, Option.bind_eq_bind, Option.bind_some]
    rw [string?_toDocument, float?_toDocument h.1.1, float?_toDocument h.1.2,
      float?_toDocument h.2]
    rfl
  · rfl
  · decide

namespace Mesh

/-- Nodes under new ids are put after those that are there. -/
theorem entries_foldl_insert {entries : List (String × Node)} {kept : Mesh}
    (hnodup : ((kept.entries ++ entries).map Prod.fst).Nodup) :
    (entries.foldl (fun mesh (id, node) ↦ mesh.insert id node) kept).entries =
      kept.entries ++ entries := by
  induction entries generalizing kept with
  | nil => rw [List.foldl_nil, List.append_nil]
  | cons entry rest ih =>
    obtain ⟨id, node⟩ := entry
    have hnew : id ∉ kept.ids := by
      rw [List.map_append, List.nodup_append] at hnodup
      exact fun hid ↦ hnodup.2.2 id hid id (List.mem_cons_self ..) rfl
    have hinsert : (kept.insert id node).entries = kept.entries ++ [(id, node)] := by
      rw [insert, dif_neg hnew, append]
    rw [List.foldl_cons, ih, hinsert, List.append_assoc, List.singleton_append]
    rwa [hinsert, List.append_assoc, List.singleton_append]

/-- The memories of a mesh can be read back from the text of a crystal. -/
def Legible (mesh : Mesh) : Prop := ∀ entry ∈ mesh.entries, entry.2.Legible

/-- A mesh is made of its entries. -/
theorem ofList_entries (mesh : Mesh) : ofList mesh.entries = mesh :=
  Mesh.ext (entries_foldl_insert mesh.ids_nodup)

end Mesh

namespace Crystal

/-- A mesh is read from its document, its nodes in the same order. -/
theorem mesh?_toDocument {limit : ℕ} {mesh : Mesh}
    (hfinite : ∀ entry ∈ mesh.entries, entry.2.Finite)
    (hmemory : ∀ entry ∈ mesh.entries, Readable limit (.object entry.2.memory)) :
    mesh? (limit + 2) (toDocument (.object (mesh.entries.map fun (id, node) ↦ (id, node.toJson)))) =
      some mesh := by
  rw [mesh?, members?_toDocument, List.map_map, Option.bind_eq_bind, Option.bind_some,
    Json.mapM_map_eq]
  · exact congrArg some mesh.ofList_entries
  · intro entry hentry
    dsimp only [Function.comp_apply]
    rw [show limit + 2 - 1 = limit + 1 from rfl,
      Node.ofDocument?_toJson (hfinite entry hentry) (hmemory entry hentry)]
    rfl

/-- Vectors in the order of their names are read from their document. -/
theorem registers?_toDocument {registers : List (String × SpiralVector)}
    (hsorted : Keyed.Sorted registers) (hfinite : ∀ entry ∈ registers, entry.2.isFinite) :
    registers? (toDocument (.object (registers.map fun (name, vector) ↦ (name, vector.toJson)))) =
      some registers := by
  rw [registers?, members?_toDocument, List.map_map, Option.bind_eq_bind, Option.bind_some,
    Json.mapM_map_eq]
  · exact congrArg some (Keyed.ofList_of_sorted hsorted)
  · intro entry hentry
    dsimp only [Function.comp_apply]
    rw [SpiralVector.ofDocument?_toJson (hfinite entry hentry)]
    rfl

theorem log?_toDocument {log : List ResonanceEntry} (hfinite : ∀ entry ∈ log, entry.isFinite) :
    log? (toDocument (.list (log.map ResonanceEntry.toJson))) = some log := by
  rw [toDocument, Json.toDocuments_eq, List.map_map, log?]
  exact Json.mapM_map_eq fun entry hentry ↦
    ResonanceEntry.ofDocument?_toJson (hfinite entry hentry)

/-! ### A whole crystal -/

/-- The numbers of a crystal are finite. -/
structure Finite (crystal : Crystal) : Prop where
  nodes : ∀ entry ∈ crystal.mesh.entries, entry.2.Finite
  registers : ∀ entry ∈ crystal.registers, entry.2.isFinite
  log : ∀ entry ∈ crystal.log, entry.isFinite

theorem nodeFlaw?_eq_none_iff {entries : List (String × Node)} :
    nodeFlaw? entries = none ↔ ∀ entry ∈ entries, entry.2.Finite := by
  induction entries with
  | nil => simp [nodeFlaw?]
  | cons entry rest ih =>
    rw [nodeFlaw?, List.forall_mem_cons, Node.Finite, ← Bool.and_eq_true]
    by_cases hfinite : entry.2.vector.isFinite && entry.2.resonance.isFinite
    · rw [if_pos hfinite, ih, and_iff_right hfinite]
    · simp [hfinite]

theorem registerFlaw?_eq_none_iff {entries : List (String × SpiralVector)} :
    registerFlaw? entries = none ↔ ∀ entry ∈ entries, entry.2.isFinite := by
  induction entries with
  | nil => simp [registerFlaw?]
  | cons entry rest ih =>
    rw [registerFlaw?, List.forall_mem_cons]
    by_cases hfinite : entry.2.isFinite
    · rw [if_pos hfinite, ih, and_iff_right hfinite]
    · simp [hfinite]

theorem logFlaw?_eq_none_iff {index : ℕ} {entries : List ResonanceEntry} :
    logFlaw? index entries = none ↔ ∀ entry ∈ entries, entry.isFinite := by
  induction entries generalizing index with
  | nil => simp [logFlaw?]
  | cons entry rest ih =>
    rw [logFlaw?, List.forall_mem_cons]
    by_cases hfinite : entry.isFinite
    · rw [if_pos hfinite, ih, and_iff_right hfinite]
    · simp [hfinite]

/-- A crystal has a flaw exactly if one of its numbers is not finite. -/
theorem flaw?_eq_none_iff {crystal : Crystal} : crystal.flaw? = none ↔ crystal.Finite := by
  rw [flaw?, Option.or_eq_none_iff, Option.or_eq_none_iff, nodeFlaw?_eq_none_iff,
    registerFlaw?_eq_none_iff, logFlaw?_eq_none_iff]
  exact ⟨fun ⟨⟨hnodes, hregisters⟩, hlog⟩ ↦ ⟨hnodes, hregisters, hlog⟩,
    fun ⟨hnodes, hregisters, hlog⟩ ↦ ⟨⟨hnodes, hregisters⟩, hlog⟩⟩

/-- A crystal with finite numbers and readable memories is read from its own text. -/
theorem ofText?_text {crystal : Crystal} (hfinite : crystal.Finite)
    (hsorted : Keyed.Sorted crystal.registers) (hmemory : crystal.mesh.Legible) :
    ofText? crystal.text = some crystal := by
  rw [ofText?, text, Json.ofText?_render Json.pretty_isBlank, Option.bind_eq_bind, Option.bind_some,
    ofDocument?, toJson, fields?_record]
  · dsimp only [List.map, Option.bind_eq_bind, Option.bind_some]
    rw [show Json.depthLimit - 1 = Json.depthLimit - 3 + 2 from rfl,
      mesh?_toDocument hfinite.nodes hmemory, registers?_toDocument hsorted hfinite.registers,
      natural?_toDocument crystal.spiralDepth.toNat_lt, log?_toDocument hfinite.log]
    dsimp only [Option.bind_some]
    rw [UInt32.ofNat_toNat]
  · rfl
  · decide

end Crystal

end SpiralMachine
