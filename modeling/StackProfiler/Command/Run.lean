import StackProfiler.Command.Preflight
import StackProfiler.Command.Results
import StackProfiler.Session.Events
import StackProfiler.Session.SelfProfile
import StackProfiler.Symbol.AddressTool
import StackProfiler.Symbol.ImageStore

/-!
# The four commands

Each command is a function of its options in a world. Running one ends with an exit code, which
tells an empty profile, a lack of permission and a lack of arguments from other failures.
-/

namespace StackProfiler

def version : String := "0.1.0"

namespace Command

open Arguments

/-! ## Rendering -/

def render (options : RenderOptions) : Command Unit := do
  let folded ←
    match options.input with
    | some path => readFolded path
    | none => parseFolded "Failed to read folded stacks from stdin" (← get).input
  if 0 < folded.skippedLines then
    log .warn "" ("Skipped " ++ toString folded.skippedLines ++ " malformed folded lines")
  let tree ← buildTree folded
  let sink ← openSink options.output
  writeDrawing sink (← ofChecked (Svg.renderFlameGraph tree options.graph.svg))
  say (toString tree.totalSamples ++ " samples, " ++ toString folded.size ++ " stacks, "
    ++ toString tree.size ++ " frames")

/-- Renders the difference of two profiles. -/
def diff (options : DiffOptions) : Command Unit := do
  let before ← readFolded options.before
  let after ← readFolded options.after
  let before ← buildTree before
  let after ← buildTree after
  let tree := DiffTree.ofTrees before after
  let sink ← openSink options.output
  writeDrawing sink (← ofChecked (Svg.renderDiff tree options.graph.svg))
  say ("before: " ++ toString tree.beforeTotal ++ " samples, after: " ++ toString tree.afterTotal
    ++ " samples")

/-! ## Recording -/

/-- What a user is told who names no process. -/
def missingTarget : String :=
  "Missing required argument: PROCESS or --pid\n\nUsage:\n  "
    ++ "pyrograph record my-app        Find the PID by name\n  "
    ++ "pyrograph record --pid 1234    Explicit PID\n\n"
    ++ "Run 'pyrograph record --help' for more options"

def target (options : RecordOptions) : Command Target := do
  let w ← get
  match options.process, options.pid with
  | some name, _ =>
    ofExcept ((w.processes.findByName w.ownPid name).mapError FindError.failure)
  | none, some pid => orProfilerError (w.processes.target pid)
  | none, none => throw { cause := .told missingTarget }

/-- Reports what reading the memory map of a process reports, if it can be read. -/
def logMemoryMap (pid : Pid) : Command Unit := do
  match (← get).processes.readFile pid (·.maps) with
  | .ok listing => logAll (MemoryMap.events pid listing)
  | .error _ => return ()

def recordWith {σ : Type} (pid : Pid) (config : SessionConfig) (source : NameSource σ) (state : σ)
    (sourceLog : σ → List LogEvent) : Command (SessionOutput σ) := do
  let w ← get
  logMemoryMap pid
  let activity := w.activity pid config
  let result ← join
    (Recording.record w.processes w.limits pid activity config source state w.elapsedMs)
  let outcome ← orReportedError (Recording.failedEvents w.limits pid activity config) result
  logAll [Recording.openedEvent w.limits pid config, Recording.startedEvent pid config]
  if w.breaksOff then say "interrupted, finishing..."
  let summary := outcome.output.summary
  logAll (Recording.exitEvents pid outcome.exited)
  logAll (Recording.lostEvents ((summary.ring.map (·.lost)).getD 0))
  logAll (sourceLog outcome.output.names).reverse
  logAll (summary.events config.maxSamples)
  return outcome.output

def record (options : RecordOptions) : Command Unit := do
  let found ← target options
  Preflight.run found.pid found.exe
  let config := options.session
  say ("pyrograph v" ++ version)
  say ("target: " ++ found.exe)
  say ("pid: " ++ toString found.pid.number)
  say ("sampling: " ++ toString config.frequencyHz ++ " Hz for "
    ++ toString (config.durationMs / 1000) ++ "s (Ctrl+C to stop early)")
  let w ← get
  match options.resolver with
  | .images =>
    let output ← recordWith found.pid config (ImageStore.source w.tools w.content) {} ImageStore.log
    writeResults output options.paths options.graph
  | .addressTool =>
    let output ← recordWith found.pid config (AddressTool.source w.runProgram) {} AddressTool.log
    writeResults output options.paths options.graph

/-! ## Profiling the own process -/

def selfProfile (options : SelfProfileOptions) : Command Unit := do
  let config := options.session
  say ("self-profiling " ++ toString options.iterations ++ " workload iterations at "
    ++ toString config.frequencyHz ++ " Hz")
  let w ← get
  logMemoryMap w.ownPid
  let (result, _) ← ofChecked
    (SelfProfile.profile w.processes w.ownPid {} w.timerFaults w.interrupts config
      (ImageStore.source w.tools w.content) {} w.elapsedMs)
  let output ← orReportedError (SelfProfile.failedEvents w.timerFaults) result
  let summary := output.summary
  logAll (SelfProfile.samplerEvents config.frequencyHz summary.captured summary.dropped)
  logAll output.names.log.reverse
  logAll (summary.events config.maxSamples)
  writeResults output options.paths options.graph

/-! ## Running -/

def ofInvocation : Invocation → Command Unit
  | .record options => record options
  | .selfProfile options => selfProfile options
  | .render options => render options
  | .diff options => diff options

end Command

/-! ## Exit codes -/

namespace ExitCode

def success : Nat := 0

/-- Any failure without a code of its own. -/
def failure : Nat := 1

def usage : Nat := 2

def noSamples : Nat := 3

/-- The system did not permit it. -/
def noPermission : Nat := 77

/-- The code that the wording of a failure asks for. -/
def ofText (text : String) : Nat :=
  let text := text.toLower.toList
  if Text.holds "permission denied".toList text then noPermission
  else if Text.holds "missing required argument".toList text then usage
  else failure

def ofFailure (f : Failure) : Nat :=
  match f.cause with
  | .render .noSamples => noSamples
  | .profiler (.perfOpenFailed _ source) =>
    if source.isPermission then noPermission else ofText f.outermost
  | _ => ofText f.outermost

end ExitCode

/-- Runs a command in a world, and says how it ended. -/
def runInvocation (invocation : Arguments.Invocation) (w : World) : Checked (Nat × World) := do
  match ← (Command.ofInvocation invocation).runIn w with
  | (.ok (), w) => return (ExitCode.success, w)
  | (.error f, w) =>
    return (ExitCode.ofFailure f, { w with notices := .line ("error: " ++ f.text) :: w.notices })

end StackProfiler
