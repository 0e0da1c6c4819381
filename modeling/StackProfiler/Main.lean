import StackProfiler.Arguments.Options
import StackProfiler.Binary.Tools
import StackProfiler.Command.Run

/-!
# The command line

The outermost layer: it looks at the files that the arguments name, at standard input and at the
processes that the system shows, lets the library run the command on what it saw, and carries out
what came of it. The samples of another process and of the own one come from the kernel, which this
layer does not ask: a recording is refused, and a profile of the own process stays empty.
-/

namespace StackProfiler.CommandLine

open Arguments

def usage : String :=
  "Usage:\n  pyrograph record [PROCESS] [OPTIONS]\n  pyrograph self-profile [OPTIONS]\n"
    ++ "  pyrograph render [OPTIONS]\n  pyrograph diff BEFORE AFTER [OPTIONS]\n"

def resultPaths (paths : ResultPaths) : List String :=
  paths.folded.toList ++ paths.svg.toList ++ paths.summary.toList

/-- The paths that a command writes to. -/
def outputs : Invocation → List String
  | .record options => resultPaths options.paths
  | .selfProfile options => resultPaths options.paths
  | .render options => options.output.toList
  | .diff options => options.output.toList

/-- The paths that a command reads from. -/
def inputs : Invocation → List String
  | .render options => options.input.toList
  | .diff options => [options.before, options.after]
  | _ => []

def readsStandardInput : Invocation → Bool
  | .render options => options.input.isNone
  | _ => false

def pathOf (location : List String) : String :=
  "/" ++ "/".intercalate location

/-- The text of a file, if it can be read. -/
def textOf? (path : String) : IO (Option String) := do
  try return some (← IO.FS.readFile path) catch _ => return none

/-- Where a path leads when links are followed, if it leads anywhere. -/
def destination? (path : String) : IO (Option String) := do
  try return some (← IO.FS.realPath path).toString catch _ => return none

def isDirectory (path : String) : IO Bool := do
  try (← IO.FS.realPath path).isDir catch _ => return false

/-- The system error behind an error of this layer; an error without a number is none of a file. -/
def errnoOf : IO.Error → Errno
  | .interrupted _ code _ | .noFileOrDirectory _ code _ | .invalidArgument _ code _
  | .permissionDenied _ code _ | .resourceExhausted _ code _ | .inappropriateType _ code _
  | .noSuchThing _ code _ | .alreadyExists _ code _ | .otherError code _ | .resourceBusy code _
  | .resourceVanished code _ | .unsupportedOperation code _ | .hardwareFault code _
  | .unsatisfiedConstraints code _ | .illegalOperation code _ | .protocolError code _
  | .timeExpired code _ => (Errno.ofCode? code.toNat).getD .inputOutput
  | .unexpectedEof | .userError _ => .inputOutput

/-- What stands at a location, and why it cannot be read, if it cannot. -/
def look (location : List String) : IO (Option FileNode × Option Errno) := do
  if ← isDirectory (pathOf location) then return (some .directory, none)
  try
    return (some (.file (← IO.FS.readBinFile (pathOf location))), none)
  catch e =>
    match errnoOf e with
    | .noSuchFile => return (none, none)
    | errno => return (some (.file .empty), some errno)

/-- A file system with what stands at the locations on the way along some paths. -/
def lookAlong (current : List String) (paths : List String) : IO FileSystem := do
  let mut nodes := []
  let mut unreadable := []
  for path in paths do
    let start := if Path.isAbsolute path then [] else current
    let location := start ++ Path.components path
    for i in List.range location.length do
      let place := location.take (i + 1)
      let (node?, errno?) ← look place
      if let some node := node? then nodes := (place, node) :: nodes
      if let some errno := errno? then unreadable := (place, errno) :: unreadable
  let refused := unreadable
  return {
    nodes
    current
    refusal := fun access place => if access = .opening then refused.lookup place else none }

def lookAtProcess (directory : String) (pid : Pid) : IO ProcessEntry := do
  let missing : IoError := .system .noSuchFile
  let shown (name : String) : IO (Except IoError String) := do
    return ((← textOf? (directory ++ "/" ++ name)).map Except.ok).getD (.error missing)
  let exe ← destination? (directory ++ "/exe")
  return {
    pid
    exe := (exe.map Except.ok).getD (.error missing)
    stat := ← shown "stat"
    maps := ← shown "maps" }

/-- The processes that the system shows, and the number of the own one. -/
def lookAtProcesses : IO (ProcessTable × Pid) := do
  let own := ((← textOf? "/proc/self/stat").bind fun text =>
    (text.takeWhile Char.isDigit).toNat?).getD 1
  let mut entries := []
  try
    for entry in ← (← IO.FS.realPath "/proc").readDir do
      if let some number := entry.fileName.toNat? then
        entries := (← lookAtProcess ("/proc/" ++ entry.fileName) ⟨number⟩) :: entries
    return ({ entries := entries.reverse }, ⟨own⟩)
  catch e => return ({ entries := entries.reverse, unlisted := some (.system (errnoOf e)) }, ⟨own⟩)

partial def readRest (stream : IO.FS.Stream) (bytes : ByteArray) : IO ByteArray := do
  let chunk ← stream.read 65536
  if chunk.isEmpty then return bytes else readRest stream (bytes ++ chunk)

/-- The world that a command acts on. -/
def observe (invocation : Invocation) : IO World := do
  let current := Path.components (← IO.currentDir).toString
  let files ← lookAlong current (pathOf current :: inputs invocation ++ outputs invocation)
  let input ←
    if readsStandardInput invocation then
      try .ok <$> readRest (← IO.getStdin) .empty
      catch e => pure (.error (.system (errnoOf e)))
    else pure (.ok .empty)
  let (processes, ownPid) ← lookAtProcesses
  return {
    files
    input
    processes
    ownPid
    paranoid := ← textOf? Preflight.paranoidPath
    tools := Binary.tools
    activity := fun _ _ => { refusal := some .notImplemented } }

/-- Writes the files that a command has changed. -/
def carryOut (before after : FileSystem) (paths : List String) : IO Unit := do
  for path in paths do
    if let .ok location := after.locate path then
      if let some (.file bytes) := after.node? location then
        let same := match before.node? location with
          | some (.file old) => old.data == bytes.data
          | _ => false
        unless same do IO.FS.writeBinFile (pathOf location) bytes

/-- Runs a command on what the system shows. -/
def run (invocation : Invocation) : IO UInt32 := do
  let detail := (← IO.getEnv "PYROGRAPH_LOG").bind LogLevel.ofName?
  let world ← observe invocation
  match runInvocation invocation world with
  | .error _ => throw (IO.userError "a number left the range of a word")
  | .ok (code, after) =>
    carryOut world.files after.files (outputs invocation)
    (← IO.getStdout).write after.output
    IO.eprint (after.noticeText detail)
    return UInt32.ofNat code

/-- Tells why arguments ask for something else than running a command. -/
def explain : UsageError → IO UInt32
  | .help => do
    IO.print usage
    return 0
  | .version => do
    IO.println ("pyrograph " ++ version)
    return 0
  | e => do
    IO.eprintln ("error: " ++ e.kind)
    IO.eprint usage
    return UInt32.ofNat ExitCode.usage

end StackProfiler.CommandLine

open StackProfiler in
/-- Runs the command that the arguments ask for. -/
def main (arguments : List String) : IO UInt32 :=
  match Arguments.read arguments with
  | .error e => CommandLine.explain e
  | .ok invocation => CommandLine.run invocation
