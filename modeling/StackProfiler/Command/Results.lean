import StackProfiler.Arguments.Options
import StackProfiler.Command.World
import StackProfiler.DiffTree
import StackProfiler.FoldedStacks.Text
import StackProfiler.Svg.DiffGraph
import StackProfiler.Svg.FlameGraph

/-!
# Reading profiles and writing results

The parts that the commands share: reading a folded profile, building its tree, and writing the
results of a session.
-/

namespace StackProfiler.Command

open Arguments

/-- Number of observations of a profile, for a message. -/
def observations (f : FoldedStacks) : Nat :=
  f.toList.foldl (fun n (_, count) => n + count) 0

/-- The profile in a sequence of bytes; what failed is told with a context. -/
def parseFolded (context : String) (bytes : Except IoError ByteArray) : Command FoldedStacks := do
  let bytes ← orFoldError context (bytes.mapError FoldError.read)
  let f ← orFoldError context (← ofChecked (FoldedStacks.ofBytes bytes))
  log .debug "aggregation::folded"
    ("Parsed " ++ toString f.size ++ " distinct stacks (" ++ toString (observations f)
      ++ " samples), skipped " ++ toString f.skippedLines ++ " lines")
  return f

def readFolded (path : String) : Command FoldedStacks := do
  let content ← orErrno ("Failed to open " ++ path) ((← get).files.openToRead path)
  let f ← parseFolded ("Failed to parse " ++ path) (content.mapError IoError.system)
  log .info "" (path ++ ": " ++ toString f.size ++ " stacks, " ++ toString (observations f)
    ++ " samples")
  return f

/-- The tree of a profile, with a warning for each place where names are collapsed. -/
def buildTree (f : FoldedStacks) : Command FrameTree := do
  let tree ← ofChecked (FrameTree.ofFolded f {})
  tree.growth.collapsedAt.forM fun name =>
    log .warn "aggregation::frame_tree"
      ("Frame '" ++ name ++ "' has more than " ++ toString tree.config.maxChildren
        ++ " distinct children; collapsing the rest into " ++ otherName)
  return tree

/-- A number of milliseconds in seconds, with one place. -/
def secondsText (ms : Nat) : String :=
  Decimal.oneDecimal (Float.ofNat ms / 1000.0)

/-- Tells the user what a session came to. -/
def sayTotals (s : SessionSummary) : Command Unit := do
  say ("\n" ++ secondsText s.elapsedMs ++ "s: " ++ toString s.captured ++ " samples captured ("
    ++ toString s.dropped ++ " dropped, " ++ toString s.truncated ++ " truncated), "
    ++ toString s.distinctStacks ++ " stacks, " ++ toString s.discardedSamples ++ " discarded")
  say ("symbols: " ++ toString s.resolver.lookups ++ " lookups, " ++ toString s.resolver.cacheHits
    ++ " cache hits, " ++ toString s.resolver.externalCalls ++ " resolver calls, "
    ++ toString s.resolver.unresolved ++ " unresolved")

/-- Tells the user that a file was written. -/
def saySaved (path : String) : Command Unit :=
  say ("saved: " ++ path)

/-- Writes a drawing, if it was made. -/
def writeDrawing (sink : Sink) (drawing : Except RenderError String) : Command Unit := do
  let text ← orRenderError drawing
  orRenderError ((← sink.write text).mapError RenderError.io)

/-- Writes the folded profile, to standard output if nothing else was asked for. -/
def writeFolded (folded : FoldedStacks) (paths : ResultPaths) : Command Unit := do
  if paths.folded.isSome || paths.svg.isNone then
    let sink ← openSink paths.folded
    orFoldError "Failed to write folded stacks"
      ((← sink.write folded.toText).mapError FoldError.write)
    paths.folded.forM saySaved

/-- Writes the flame graph, if that was asked for. -/
def writeGraph (folded : FoldedStacks) (paths : ResultPaths) (graph : GraphOptions) :
    Command Unit :=
  paths.svg.forM fun path => do
    let tree ← buildTree folded
    let sink ← openSink (some path)
    writeDrawing sink (← ofChecked (Svg.renderFlameGraph tree graph.svg))
    saySaved path

/-- Writes the summary, if that was asked for. -/
def writeSummary (summary : SessionSummary) (paths : ResultPaths) : Command Unit :=
  paths.summary.forM fun path => do
    let sink ← openSink (some path)
    orIoError "Failed to write summary" (← sink.write (summary.record.indented 0))
    saySaved path

def writeResults {σ : Type} (output : SessionOutput σ) (paths : ResultPaths)
    (graph : GraphOptions) : Command Unit := do
  sayTotals output.summary
  writeFolded output.folded paths
  writeGraph output.folded paths graph
  writeSummary output.summary paths

end StackProfiler.Command
