import StackProfiler.Checked
import StackProfiler.Files.FileSystem
import StackProfiler.Log
import StackProfiler.Process.Table
import StackProfiler.Session.Recording
import StackProfiler.Symbol.BinaryTools
import StackProfiler.Timer.Sampler
import StackProfiler.Timer.StackWalk

/-!
# What a command acts on

A command reads and changes a world: files, processes, standard input and output, and the notices
for the user. Everything that it asks of the system may be refused. A command may fail; what it did
before stays done.
-/

namespace StackProfiler

namespace Command

/-- Where a command writes a document. -/
inductive Sink where
  | standardOutput
  | file (location : List String)
deriving DecidableEq, Repr

/-- Why and where writing breaks off. -/
structure WriteFault where
  error : IoError
  /-- How many bytes there is room for. -/
  room : Nat := 0
deriving DecidableEq, Repr

end Command

open Command (Sink WriteFault)

/-- Everything that a command can see and change. -/
structure World where
  files : FileSystem := {}
  /-- What stands on standard input. -/
  input : Except IoError ByteArray := .ok .empty
  /-- What was written to standard output. -/
  output : ByteArray := .empty
  /-- What is wrong with writing to a place, if anything is. -/
  writeFault? : Sink → Option WriteFault := fun _ => none
  /-- The notices given, the latest first. -/
  notices : List Notice := []
  processes : ProcessTable := {}
  /-- The process that runs the command. -/
  ownPid : Pid := ⟨1⟩
  /-- Whether the user may sample every process. -/
  privileged : Bool := true
  /-- The text of the kernel's restriction of sampling, if it can be read. -/
  paranoid : Option String := none
  limits : KernelLimits := {}
  /-- What a process does while it is recorded. -/
  activity : Pid → SessionConfig → Activity := fun _ _ => {}
  /-- The interrupts of the own process while it profiles itself. -/
  interrupts : List Interrupt := []
  /-- Why the timer for these interrupts cannot be set up, if it cannot. -/
  timerFaults : StartFaults := {}
  /-- Whether the task that records another process breaks down, whatever it records. -/
  breaksDown : Bool := false
  /-- What is said of a task that broke down. -/
  brokenTask : String := "task 1 panicked"
  /-- Whether the user breaks a recording off. -/
  breaksOff : Bool := false
  /-- How long a session takes, in milliseconds. -/
  elapsedMs : Nat := 0
  /-- What reads binaries; as it stands, nothing is taken for one. -/
  tools : BinaryTools := .unknowing
  /-- What a program prints when it is run with arguments. -/
  runProgram : String → List String → Except IoError (List UInt8) :=
    fun _ _ => .error (.system .noSuchFile)

namespace World

/-- The bytes of the file at the end of a path. -/
def content (w : World) (path : String) : Except IoError ByteArray :=
  (w.files.load path).mapError IoError.system

/-- Everything that was shown to the user at a level of detail. -/
def noticeText (w : World) (detail : Option LogLevel) : String :=
  String.join (w.notices.reverse.map (Notice.textAt detail))

end World

/-- A computation in a world, which may fail and may leave the range of a word. -/
abbrev Command (α : Type) := ExceptT Failure (StateT World Checked) α

namespace Command

def runIn {α : Type} (c : Command α) (w : World) : Checked (Except Failure α × World) :=
  (ExceptT.run c).run w

def ofChecked {α : Type} (c : Checked α) : Command α :=
  ExceptT.lift (StateT.lift c)

def ofExcept {α : Type} : Except Failure α → Command α
  | .ok a => pure a
  | .error failure => throw failure

/-- A result or an error of the domain as a command. -/
def orProfilerError {α : Type} (r : Except ProfilerError α) : Command α :=
  ofExcept (r.mapError fun e => { cause := .profiler e })

/-- A result or an error of rendering as a command. -/
def orRenderError {α : Type} (r : Except RenderError α) : Command α :=
  ofExcept (r.mapError fun e => { cause := .render e })

/-- A result or an error of the system, in a context. -/
def orIoError {α : Type} (context : String) (r : Except IoError α) : Command α :=
  ofExcept (r.mapError fun e => Failure.within { cause := .io e } context)

/-- A result or an error in a file, in a context. -/
def orErrno {α : Type} (context : String) (r : Except Errno α) : Command α :=
  orIoError context (r.mapError IoError.system)

/-- A result or an error with a folded profile, in a context. -/
def orFoldError {α : Type} (context : String) (r : Except FoldError α) : Command α :=
  ofExcept (r.mapError fun e => Failure.within { cause := .fold e } context)

/-- The result of a task that runs beside the command. A task breaks down if a number leaves the
range of a word, or for reasons of its own. -/
def join {α : Type} (task : Checked α) : Command α := do
  let w ← get
  match task, w.breaksDown with
  | .ok a, false => return a
  | _, _ => throw (Failure.within { cause := .task w.brokenTask } "Recording task failed")

def give (n : Notice) : Command Unit :=
  modify fun w => { w with notices := n :: w.notices }

/-- Tells the user something. -/
def say (text : String) : Command Unit :=
  give (.line text)

def log (level : LogLevel) (topic message : String) : Command Unit :=
  give (.event { level, topic, message })

def logAll (events : List LogEvent) : Command Unit :=
  events.forM fun e => give (.event e)

/-- A result or an error of the domain as a command, which reports something before it fails. -/
def orReportedError {α : Type} (events : ProfilerError → List LogEvent) :
    Except ProfilerError α → Command α
  | .ok a => return a
  | .error e => do
    logAll (events e)
    throw { cause := .profiler e }

/-- Opens a place to write to. A file is created at once, and is empty until it is written. -/
def openSink : Option String → Command Sink
  | none => pure .standardOutput
  | some path => do
    let w ← get
    let location ← orErrno ("Failed to create " ++ path) (w.files.locateNew path)
    set { w with files := w.files.put location .empty }
    return .file location

/-- The bytes arrive at a place that nothing has been written to since it was opened. -/
def Sink.put (sink : Sink) (bytes : ByteArray) : Command Unit :=
  modify fun w =>
    match sink with
    | .standardOutput => { w with output := w.output ++ bytes }
    | .file location => { w with files := w.files.put location bytes }

/-- Writes a document as far as there is room. What is in a buffer at the end is written as well, so
that every fault is noticed. -/
def Sink.write (sink : Sink) (text : String) : Command (Except IoError Unit) := do
  let bytes := text.toUTF8
  match ((← get).writeFault? sink).filter (·.room < bytes.size) with
  | none =>
    sink.put bytes
    return .ok ()
  | some fault =>
    sink.put (bytes.extract 0 fault.room)
    return .error fault.error

end Command

end StackProfiler
