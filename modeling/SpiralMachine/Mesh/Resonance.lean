import SpiralMachine.Mesh.Basic

/-!
# Resonance

Two vectors resonate by the cosine of the angle between them, drawn towards the golden
ratio and its inverse where it comes near them, and kept in `[0, golden]`. A mesh
resonates by the mean over its live edges; without any it is neutral.
-/

set_option autoImplicit false

namespace SpiralMachine

namespace Resonance

/-- How near the golden ratio or its inverse a score is drawn in. -/
def snapWindow : Float := 0.1

/-- The score of a mesh that has nothing to compare. -/
def neutral : Float := 1.0

/-- A vector divided by its largest component, so that its squares are normal numbers;
none for a zero vector or one that is not finite. -/
def unitMax? (v : SpiralVector) : Option SpiralVector :=
  let largest := v.maxAbs
  if largest == 0.0 || !v.isFinite then none else some (v.map (· / largest))

def snap (score : Float) : Float :=
  if (score - golden).abs < snapWindow then score * golden
  else if (score - goldenInverse).abs < snapWindow then score * goldenInverse
  else score

/-- The resonance of two vectors. A vector has exactly the score one with itself, since
the root of a square is exact. -/
def pair (v w : SpiralVector) : Float :=
  match unitMax? v, unitMax? w with
  | some v, some w =>
    let cosine := v.dot w / (v.dot v * w.dot w).sqrt
    SpiralVector.clampTo 0.0 golden (snap cosine)
  | _, _ => 0.0

/-- The mean of scores, neutral when there are none. -/
def mean : List Float → Float
  | [] => neutral
  | scores => scores.foldl (· + ·) 0.0 / Float.ofNat scores.length

end Resonance

/-- The mean resonance of the two ends of every live edge. -/
def Mesh.resonance (mesh : Mesh) : Float :=
  Resonance.mean (mesh.edges.map fun (source, target) ↦
    Resonance.pair source.2.vector target.2.vector)

end SpiralMachine
