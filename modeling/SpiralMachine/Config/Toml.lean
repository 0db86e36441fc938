import SpiralMachine.Config.Basic
import SpiralMachine.FileTree
import SpiralMachine.Toml.Document

/-!
# Configuration text

A configuration is the table `vm` of a TOML document, or an array of its fields in order.
Fields that are missing have their defaults and other keys are passed over. A date or time
gives no field, so all have their defaults.
-/

set_option autoImplicit false

namespace SpiralMachine

namespace Toml

def boolean? : Toml → Option Bool
  | boolean value => some value
  | _ => none

/-- A float, or a whole number as one. -/
def float? : Toml → Option Float
  | float value => some value
  | integer value => some (Float.ofInt value)
  | _ => none

def natural? : Toml → Option Nat
  | integer (.ofNat value) => some value
  | _ => none

def text? : Toml → Option String
  | string value => some value
  | _ => none

end Toml

namespace Config

def fieldNames : List String :=
  ["dry_run", "narrative_mode", "fork_tracking", "resonance_threshold", "crystal_path",
    "max_mesh_nodes"]

/-- A field that is read if it is given. -/
def orDefault {α : Type} (default : α) (read : Toml → Option α) : Option Toml → Option α
  | some value => read value
  | none => some default

/-- A configuration from its fields in order, as far as they are given. -/
def ofFields? : List (Option Toml) → Option Config
  | [dryRun, narrativeMode, forkTracking, threshold, path, nodes] => do
    some
      { dryRun := ← orDefault default.dryRun Toml.boolean? dryRun
        narrativeMode := ← orDefault default.narrativeMode Toml.boolean? narrativeMode
        forkTracking := ← orDefault default.forkTracking Toml.boolean? forkTracking
        resonanceThreshold := ← orDefault default.resonanceThreshold Toml.float? threshold
        crystalPath := ← orDefault default.crystalPath Toml.text? path
        maxMeshNodes := ← orDefault default.maxMeshNodes Toml.natural? nodes }
  | _ => none

/-- The fields of a table or an array. An array may have items to spare, and a date or time
has none of the fields. -/
def fields? : Toml → Option (List (Option Toml))
  | .table _ members => some (fieldNames.map fun name ↦ members.lookup name)
  | .array items => some (fieldNames.zipIdx.map fun (_, index) ↦ items[index]?)
  | .tables items =>
    some (fieldNames.zipIdx.map fun (_, index) ↦ items[index]?.map (.table .header))
  | .moment => some (fieldNames.map fun _ ↦ none)
  | _ => none

/-- The configuration of a TOML text, before it is checked. -/
def ofToml? (members : Toml.Members) : Option Config :=
  match members.lookup "vm" with
  | none => some default
  | some value => do ofFields? (← fields? value)

def ofText (text : String) : Except ConfigError Config :=
  match Toml.ofText? text >>= ofToml? with
  | none => .error (.parse .notConfig)
  | some config => config.check.mapError .parse

/-- The configuration of a file. -/
def load (files : FileTree) (path : String) : Except ConfigError Config :=
  match files.read path with
  | .ok text => ofText text
  | .error cause => .error (.io cause)

end Config

end SpiralMachine
