import SpiralMachine.Proofs.Core.Closed
import SpiralMachine.Proofs.Crystal.Text

/-!
# The parts of a crystal that was read

A crystal that comes of a text is made of nodes, vectors and entries of the log that were read, each
of a document of its own (`Crystal.parts_of_ofText?`), and so is a node of its parts
(`Node.parts_of_ofDocument?`). So what is read of any document is all that need be looked at
to know something of every part of such a crystal.
-/

set_option autoImplicit false

namespace SpiralMachine

open Json (Document)

/-- The vector of a node that was read was read; its memory and its resonance were, or they are
those of a new node. -/
theorem Node.parts_of_ofDocument? {limit : ℕ} {document : Document} {node : Node}
    (h : ofDocument? limit document = some node) :
    (∃ vector, SpiralVector.ofDocument? vector = some node.vector) ∧
      (∃ memory, Document.orDefault [] (memory? (limit - 1)) memory = some node.memory) ∧
      ∃ resonance, Document.orDefault 1.0 Document.float? resonance = some node.resonance := by
  obtain ⟨fields, -, h⟩ := Option.bind_eq_some_iff.mp h
  unfold ofFields? at h
  split at h
  · obtain ⟨vector, hvector, h⟩ := Option.bind_eq_some_iff.mp h
    obtain ⟨memory, hmemory, h⟩ := Option.bind_eq_some_iff.mp h
    obtain ⟨connections, -, h⟩ := Option.bind_eq_some_iff.mp h
    obtain ⟨resonance, hresonance, h⟩ := Option.bind_eq_some_iff.mp h
    cases h
    exact ⟨⟨_, hvector⟩, ⟨_, hmemory⟩, ⟨_, hresonance⟩⟩
  · cases h

/-- The nodes, the vectors of the registers and the entries of the log of a crystal that was read
were read. -/
theorem Crystal.parts_of_ofText? {text : String} {crystal : Crystal}
    (h : ofText? text = some crystal) :
    crystal.mesh.Every
        (fun node ↦ ∃ document, Node.ofDocument? (Json.depthLimit - 2) document = some node) ∧
      (∀ entry ∈ crystal.registers,
        ∃ document, SpiralVector.ofDocument? document = some entry.2) ∧
      ∀ entry ∈ crystal.log, ∃ document, ResonanceEntry.ofDocument? document = some entry := by
  obtain ⟨document, -, h⟩ := Option.bind_eq_some_iff.mp h
  obtain ⟨fields, -, h⟩ := Option.bind_eq_some_iff.mp h
  split at h
  · obtain ⟨mesh, hmesh, h⟩ := Option.bind_eq_some_iff.mp h
    obtain ⟨registers, hregisters, h⟩ := Option.bind_eq_some_iff.mp h
    obtain ⟨depth, -, h⟩ := Option.bind_eq_some_iff.mp h
    obtain ⟨log, hlog, h⟩ := Option.bind_eq_some_iff.mp h
    cases h
    refine ⟨?_, fun entry hentry ↦ ?_, fun entry hentry ↦ ?_⟩
    · obtain ⟨members, -, hmesh⟩ := Option.bind_eq_some_iff.mp hmesh
      obtain ⟨entries, hentries, hmesh⟩ := Option.bind_eq_some_iff.mp hmesh
      cases hmesh
      refine Mesh.every_ofList fun entry hentry ↦ ?_
      obtain ⟨member, -, hmember⟩ := Json.exists_of_mem_mapM hentries hentry
      obtain ⟨node, hnode, rfl⟩ := Option.map_eq_some_iff.mp hmember
      exact ⟨_, hnode⟩
    · obtain ⟨members, -, hregisters⟩ := Option.bind_eq_some_iff.mp hregisters
      obtain ⟨entries, hentries, hregisters⟩ := Option.bind_eq_some_iff.mp hregisters
      cases hregisters
      obtain ⟨member, -, hmember⟩ :=
        Json.exists_of_mem_mapM hentries ((Keyed.sorted_ofList entries).2 entry hentry)
      obtain ⟨vector, hvector, rfl⟩ := Option.map_eq_some_iff.mp hmember
      exact ⟨_, hvector⟩
    · rename_i document _
      unfold log? at hlog
      split at hlog
      · obtain ⟨source, -, hsource⟩ := Json.exists_of_mem_mapM hlog hentry
        exact ⟨source, hsource⟩
      · cases hlog
  · cases h

end SpiralMachine
