import SpiralMachine.Proofs.Crystal.Parts
import SpiralMachine.Proofs.Mesh.Resonance

/-!
# Numbers stay finite

Every instruction keeps the vectors of nodes and registers and the resonance of nodes finite
(`apply_finite`), with whatever arguments: rotations, sums and golden multiples give phases, bounds
that are not finite are refused, and two vectors resonate by a number in `[0, golden]`.
A crystal that is read from a text has finite numbers to begin with (`finite_of_ofText?`).
-/

set_option autoImplicit false

namespace SpiralMachine

open Json (Document)

namespace Core

/-- No instruction makes a number that is not finite out of finite ones. -/
theorem closed_finite : Closed Node.Finite fun v ↦ v.isFinite where
  zero := SpiralVector.isFinite_zero
  seed := SpiralVector.isFinite_seed
  rotate h := (SpiralVector.phases_rotate h).isFinite
  goldenWrap h := (SpiralVector.phases_goldenWrap h).isFinite
  wrappedSum h₁ h₂ := (SpiralVector.phases_wrappedSum h₁ h₂).isFinite
  clamp hlow hhigh h := SpiralVector.isFinite_clamp hlow hhigh h
  checked h := h
  new h := ⟨h, show (1.0 : Float).isFinite by decide +kernel⟩
  connect target h := by
    unfold Node.connect
    split
    · exact h
    · exact h
  vector h := h.1
  move h hvector := ⟨hvector, h.2⟩
  score v h := ⟨h.1, (Resonance.within_pair _ v).finite⟩
  remember _ _ h := h

/-- The vectors of nodes and registers and the resonance of nodes are finite. -/
def Finite (core : Core) : Prop := core.Every Node.Finite fun v ↦ v.isFinite

theorem finite_fresh : fresh.Finite :=
  ⟨Mesh.every_empty, fun register ↦ by cases register <;> exact SpiralVector.isFinite_zero⟩

/-- Every instruction keeps a core finite. -/
theorem apply_finite {core : Core} (h : core.Finite) (budget : ℕ) {lesson : Option Lesson}
    (hlesson : ∀ last, lesson = some last → last.vector.isFinite) (instruction : Instruction) :
    ((core.apply budget lesson instruction).result core).Finite :=
  apply_every closed_finite h budget hlesson instruction

end Core

/-! ### Crystals -/

/-- A numeral that is read is finite. -/
theorem Json.Document.isFinite_of_float? {document : Document} {x : Float}
    (h : document.float? = some x) : x.isFinite := by
  unfold float? at h
  split at h
  · unfold Number.Numeral.float? at h
    split at h
    · rename_i hfinite
      cases h
      exact hfinite
    · cases h
  · cases h

/-- A vector that is read is finite. -/
theorem SpiralVector.isFinite_of_ofDocument? {document : Document} {v : SpiralVector}
    (h : ofDocument? document = some v) : v.isFinite := by
  unfold ofDocument? at h
  split at h
  · obtain ⟨components, hcomponents, h⟩ := Option.bind_eq_some_iff.mp h
    have hlist : v.toList = components := by
      unfold ofList? at h
      split at h
      · cases h
        rfl
      · cases h
    rw [isFinite_iff, hlist]
    intro x hx
    obtain ⟨source, -, hsource⟩ := Json.exists_of_mem_mapM hcomponents hx
    exact Document.isFinite_of_float? hsource
  · cases h

/-- A node that is read has finite numbers. -/
theorem Node.finite_of_ofDocument? {limit : ℕ} {document : Document} {node : Node}
    (h : ofDocument? limit document = some node) : node.Finite := by
  obtain ⟨⟨vector, hvector⟩, -, ⟨resonance, hresonance⟩⟩ := parts_of_ofDocument? h
  refine ⟨SpiralVector.isFinite_of_ofDocument? hvector, ?_⟩
  cases resonance with
  | none => exact Option.some.inj hresonance ▸ show (1.0 : Float).isFinite by decide +kernel
  | some document => exact Document.isFinite_of_float? hresonance

/-- An entry of the log that is read has finite numbers. -/
theorem ResonanceEntry.isFinite_of_ofDocument? {document : Document} {entry : ResonanceEntry}
    (h : ofDocument? document = some entry) : entry.isFinite := by
  obtain ⟨fields, -, h⟩ := Option.bind_eq_some_iff.mp h
  split at h
  · obtain ⟨op, -, h⟩ := Option.bind_eq_some_iff.mp h
    obtain ⟨before, hbefore, h⟩ := Option.bind_eq_some_iff.mp h
    obtain ⟨after, hafter, h⟩ := Option.bind_eq_some_iff.mp h
    obtain ⟨delta, hdelta, h⟩ := Option.bind_eq_some_iff.mp h
    cases h
    rw [isFinite, Document.isFinite_of_float? hbefore, Document.isFinite_of_float? hafter,
      Document.isFinite_of_float? hdelta]
    rfl
  · cases h

/-- A crystal that is read from a text has finite numbers. -/
theorem Crystal.finite_of_ofText? {text : String} {crystal : Crystal}
    (h : ofText? text = some crystal) : crystal.Finite := by
  obtain ⟨hnodes, hregisters, hlog⟩ := parts_of_ofText? h
  refine ⟨fun entry hentry ↦ ?_, fun entry hentry ↦ ?_, fun entry hentry ↦ ?_⟩
  · obtain ⟨document, hdocument⟩ := hnodes entry hentry
    exact Node.finite_of_ofDocument? hdocument
  · obtain ⟨document, hdocument⟩ := hregisters entry hentry
    exact SpiralVector.isFinite_of_ofDocument? hdocument
  · obtain ⟨document, hdocument⟩ := hlog entry hentry
    exact ResonanceEntry.isFinite_of_ofDocument? hdocument

end SpiralMachine
