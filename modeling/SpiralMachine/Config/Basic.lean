import SpiralMachine.Error

/-!
# Configuration

The flags a machine reads at the start of every run. A checked configuration has its
threshold in `[0, golden]`, room for at least one node and a path that is not blank.
-/

set_option autoImplicit false

namespace SpiralMachine

structure Config where
  /-- SAVE never writes. -/
  dryRun : Bool
  /-- A simulating run becomes a tracing one. -/
  narrativeMode : Bool
  /-- Steps that ask for it fork. -/
  forkTracking : Bool
  /-- SYNC reports scores from here on. -/
  resonanceThreshold : Float
  /-- Where SAVE and the end of a run write the crystal. -/
  crystalPath : String
  /-- How many nodes the mesh may have before no more are created. -/
  maxMeshNodes : Nat

namespace Config

def defaultCrystalPath : String := "TVM.crystal.json"

def default : Config where
  dryRun := false
  narrativeMode := false
  forkTracking := false
  resonanceThreshold := 0.95
  crystalPath := defaultCrystalPath
  maxMeshNodes := 4096

/-- The first thing that is wrong with a configuration. -/
def flaw? (config : Config) : Option ConfigFlaw :=
  let threshold := config.resonanceThreshold
  if !threshold.isFinite || threshold < 0.0 || threshold > golden then some .threshold
  else if config.maxMeshNodes = 0 then some .nodeBudget
  else if Text.trim config.crystalPath = "" then some .emptyPath
  else none

def check (config : Config) : Except ConfigFlaw Config :=
  match config.flaw? with
  | some flaw => .error flaw
  | none => .ok config

end Config

end SpiralMachine
