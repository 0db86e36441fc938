import SpiralMachine.Config.Toml
import SpiralMachine.Machine.Run
import SpiralMachine.Proofs.Core.Defaults
import SpiralMachine.Proofs.Core.Depth
import SpiralMachine.Proofs.Core.Growth
import SpiralMachine.Proofs.FileTree
import SpiralMachine.Proofs.Machine.Arming
import SpiralMachine.Proofs.Machine.AuditSchedule
import SpiralMachine.Proofs.Machine.BareCodes
import SpiralMachine.Proofs.Machine.Budget
import SpiralMachine.Proofs.Machine.Cycle
import SpiralMachine.Proofs.Machine.Depth
import SpiralMachine.Proofs.Machine.DurableWrites
import SpiralMachine.Proofs.Machine.EventStream
import SpiralMachine.Proofs.Machine.FaultAccount
import SpiralMachine.Proofs.Machine.Finite
import SpiralMachine.Proofs.Machine.Flow
import SpiralMachine.Proofs.Machine.Footprint
import SpiralMachine.Proofs.Machine.Founding
import SpiralMachine.Proofs.Machine.Growth
import SpiralMachine.Proofs.Machine.Indifference
import SpiralMachine.Proofs.Machine.LogChain
import SpiralMachine.Proofs.Machine.Masking
import SpiralMachine.Proofs.Machine.Modes
import SpiralMachine.Proofs.Machine.Naming
import SpiralMachine.Proofs.Machine.NoTrace
import SpiralMachine.Proofs.Machine.SavePoint
import SpiralMachine.Proofs.Machine.Seek
import SpiralMachine.Proofs.Machine.Splitting
import SpiralMachine.Proofs.Machine.TakeOver
import SpiralMachine.Proofs.Machine.Telling
import SpiralMachine.Proofs.Machine.Turn
import SpiralMachine.Proofs.Mesh.FreshId
import SpiralMachine.Proofs.Mesh.LiveEdges
import SpiralMachine.Proofs.Mesh.SelfResonance
import SpiralMachine.Proofs.Mesh.Symmetry
import SpiralMachine.Proofs.Program.Grammar
import SpiralMachine.Proofs.Program.Relevance
import SpiralMachine.Proofs.Stack.Elements
import SpiralMachine.Proofs.Stack.Forms
import SpiralMachine.Proofs.Stack.Grammar
import SpiralMachine.Proofs.Stack.Locality
import SpiralMachine.Proofs.Tensor.Nest
import SpiralMachine.Proofs.Vector.Magnitude
import SpiralMachine.Proofs.Vector.Wrapping
import SpiralMachine.Stack.Run
