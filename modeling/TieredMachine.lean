import TieredMachine.Configuration.Text
import TieredMachine.Engine.Basic
import TieredMachine.Event.Interval
import TieredMachine.Proofs.Agreement.Call
import TieredMachine.Proofs.Agreement.Interpreter
import TieredMachine.Proofs.Code.RoundTrip
import TieredMachine.Proofs.Graph.Place
import TieredMachine.Proofs.Native.Block
import TieredMachine.Proofs.Native.WayOut
import TieredMachine.Proofs.Native.Threaded
import TieredMachine.Proofs.Native.Handover
import TieredMachine.Proofs.Graph.Analysis
import TieredMachine.Proofs.Graph.Leaders
import TieredMachine.Proofs.Graph.Emission
import TieredMachine.Proofs.Native.Shortened
import TieredMachine.Proofs.Tier.Permanence
import TieredMachine.Proofs.Tier.Tidy
import TieredMachine.Proofs.Tier.Promotion
import TieredMachine.Proofs.Run.Finally
import TieredMachine.Proofs.Run.Course
import TieredMachine.Proofs.Native.Simulation
import TieredMachine.Proofs.Code.Range
import TieredMachine.Proofs.Run.Validation
import TieredMachine.Proofs.Statistics.Runs
import TieredMachine.Proofs.Generator.Life
import TieredMachine.Proofs.Traceback.Exact
import TieredMachine.Proofs.Graph.Solution
import TieredMachine.Proofs.Safety.StackEffect
import TieredMachine.Proofs.Run.Binding
import TieredMachine.Proofs.Tier.Reports
import TieredMachine.Proofs.Graph.Specialization
import TieredMachine.Proofs.Code.Tiling
import TieredMachine.Proofs.Heap.Equality
import TieredMachine.Proofs.Native.Cached
import TieredMachine.Proofs.Heap.Order
import TieredMachine.Proofs.Sequence.Slicing
import TieredMachine.Proofs.Run.Keywords
import TieredMachine.Proofs.Generator.Refusal
import TieredMachine.Proofs.Integer.Words
import TieredMachine.Proofs.Sequence.Repetition
import TieredMachine.Proofs.Run.Dispatch
import TieredMachine.Proofs.Code.Lines
import TieredMachine.Proofs.Event.Pairing
import TieredMachine.Proofs.Tier.Level
import TieredMachine.Proofs.Tier.Backedge
import TieredMachine.Proofs.Traceback.Variables
import TieredMachine.Proofs.Heap.Written
import TieredMachine.Proofs.Graph.Worklist
import TieredMachine.Proofs.Tier.Hotness
import TieredMachine.Proofs.Integer.Progression
