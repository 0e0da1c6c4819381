import StackProfiler.Main
import StackProfiler.Proofs.FoldedStacks.RoundTrip
import StackProfiler.Proofs.FrameTree.PrefixSums
import StackProfiler.Proofs.Session.Losses
import StackProfiler.Proofs.Session.Profile
import StackProfiler.Proofs.Symbol.Lookups
import StackProfiler.Proofs.Timer.Withdrawal
import StackProfiler.Proofs.Sample.Ownership
import StackProfiler.Proofs.Sample.Completion
import StackProfiler.Proofs.Sample.Linearization
import StackProfiler.Proofs.CallTree.Relabel
import StackProfiler.Proofs.CallTree.Union
import StackProfiler.Proofs.FrameTree.Built
import StackProfiler.Proofs.DiffTree
import StackProfiler.Proofs.FrameTree.EqualWeights
import StackProfiler.Proofs.Layout.Relabel
import StackProfiler.Proofs.Svg.FlameGraph
import StackProfiler.Proofs.Ring.Accounting
import StackProfiler.Proofs.Svg.Document
import StackProfiler.Proofs.Symbol.Overflow
import StackProfiler.Proofs.Command.FailedDrawing
import StackProfiler.Proofs.Timer.Exclusive
import StackProfiler.Proofs.Timer.StackWalk
import StackProfiler.Proofs.Layout.Preorder
import StackProfiler.Proofs.Layout.Geometry
import StackProfiler.Proofs.Layout.FlameGraph
import StackProfiler.Proofs.Symbol.ProbePaths
import StackProfiler.Proofs.FoldedStacks.Additions
import StackProfiler.Proofs.FoldedStacks.ByLines
import StackProfiler.Proofs.Sample.CappedList
import StackProfiler.Proofs.FrameTree.Routing
import StackProfiler.Proofs.Symbol.NearestSymbol
import StackProfiler.Proofs.Symbol.Statistics
import StackProfiler.Proofs.Symbol.MapListing
import StackProfiler.Proofs.Layout.FrameLabel
import StackProfiler.Proofs.Ring.SampleBody
import StackProfiler.Proofs.Ring.ReadBack
import StackProfiler.Proofs.Symbol.AskedAddress
import StackProfiler.Proofs.Command.ExitCode
import StackProfiler.Proofs.Simulation.NameTable
import StackProfiler.Proofs.Simulation.OwnProcess
import StackProfiler.Proofs.Simulation.Recording
