import StackProfiler.Process.Table
import StackProfiler.Session.Summary

/-!
# Recording another process

The kernel writes samples of a process into a ring, and the recording drains it in turns until time
is up, it is told to stop, or the process is gone. What the kernel did before each turn is given,
so that a recording is a function of it.
-/

namespace StackProfiler

/-- What the kernel grants to a profiler. -/
structure KernelLimits where
  /-- Size of a page of memory. -/
  pageSize : Nat := 4096
  /-- Highest frequency of samples. -/
  maxFrequencyHz : Nat := 100000
  /-- Most pages of a ring that can be mapped. -/
  maxRingPages : Nat := 65536
deriving DecidableEq, Repr

/-- What happened up to one turn of a recording. -/
structure Turn where
  /-- The call chains that the kernel wrote. -/
  chains : List (List UInt64) := []
  /-- Whether the kernel said that there is something to read. -/
  readable : Bool := true
  /-- Why the wait for the kernel failed, if it did. -/
  waitError : Option Errno := none
  /-- Whether the process is gone. -/
  gone : Bool := false
deriving DecidableEq, Repr

/-- The ring after the kernel wrote to it. -/
def Turn.fill (turn : Turn) (ring : Ring) : Checked Ring :=
  turn.chains.foldlM Ring.writeSample ring

/-- Whether there is something to read after the wait; a signal only cuts the wait short. -/
def Turn.wait (turn : Turn) : Except ProfilerError Bool :=
  match turn.waitError with
  | none => .ok turn.readable
  | some .interrupted => .ok false
  | some errno => .error (.io (.system errno))

/-- What a process does while it is recorded, and what the kernel refuses to the recording. -/
structure Activity where
  /-- Why the kernel refuses to sample the process, if it does. -/
  refusal : Option Errno := none
  /-- Why the ring cannot be mapped, if it cannot. -/
  mapError : Option IoError := none
  /-- Why sampling cannot be started, if it cannot. -/
  startError : Option Errno := none
  /-- The turns until time is up or the recording is told to stop. -/
  turns : List Turn := []
  /-- Why sampling cannot be stopped, if it cannot. -/
  stopError : Option Errno := none
deriving DecidableEq, Repr

/-- Whether a turn takes place at the end of which the process is gone. -/
def Activity.exits (activity : Activity) : Bool :=
  (activity.turns.find? fun turn => turn.gone || !turn.wait.isOk).any (·.wait.isOk)

/-- A computation of a profiler, which may fail and may leave the range of a word. -/
abbrev Profiling (α : Type) := ExceptT ProfilerError Checked α

/-- Fails under a condition. -/
def Profiling.failIf (condition : Prop) [Decidable condition] (e : ProfilerError) :
    Profiling Unit :=
  if condition then throw e else return ()

namespace Recording

/-- A recording in progress. -/
structure State where
  ring : Ring
  buffer : SampleBuffer
  stats : DrainStats := {}

/-- Drains the ring and adds up what happened. -/
def State.drain (s : State) : Checked State := do
  let (stats, buffer, ring) ← s.ring.drain s.buffer
  return { ring, buffer, stats := ← s.stats.merge stats }

/-- Drains the ring if the kernel said that there is something to read, or if there is. -/
def State.catchUp (s : State) (readable : Bool) : Checked State :=
  if readable || s.ring.hasPending then s.drain else .ok s

/-- Takes turns, and says whether it ended because the process is gone. -/
def takeTurns (s : State) : List Turn → Profiling (Bool × State)
  | [] => return (false, s)
  | turn :: turns => do
    let readable ← turn.wait
    let ring ← turn.fill s.ring
    let s ← State.catchUp { s with ring } readable
    if turn.gone then return (true, s) else takeTurns s turns

/-- The size in bytes of a ring of so many pages, which must be a power of two. -/
def ringSize (limits : KernelLimits) (pages : Nat) : Profiling Nat := do
  let size ← Checked.mul 64 pages limits.pageSize
  Profiling.failIf (!isPowerOfTwo pages) (.invalidRingSize size)
  return size

/-- Asks the kernel to sample a process into an empty ring. -/
def openRing (limits : KernelLimits) (pid : Pid) (activity : Activity) (frequencyHz pages : Nat) :
    Profiling Ring := do
  let size ← ringSize limits pages
  Profiling.failIf (limits.maxFrequencyHz < max frequencyHz 1)
    (.perfOpenFailed pid (.system .invalidArgument))
  activity.refusal.forM fun errno => throw (.perfOpenFailed pid (.system errno))
  Profiling.failIf (limits.maxRingPages < pages) (.mmapFailed (.system .notPermitted))
  activity.mapError.forM fun e => throw (.mmapFailed e)
  Ring.zeroed size 0

/-- Starts or stops the sampling, unless that fails. -/
def control (failed : Option Errno) : Profiling Unit :=
  failed.forM fun errno => throw (.io (.system errno))

/-- What a recording came to. -/
structure Outcome (σ : Type) where
  output : SessionOutput σ
  /-- Whether it ended because the process was gone. -/
  exited : Bool

variable {σ : Type}

/-- Records a process whose memory map has the given regions. -/
def ofRegions (regions : List Region) (limits : KernelLimits) (pid : Pid) (activity : Activity)
    (config : SessionConfig) (source : NameSource σ) (state : σ) (elapsedMs : Nat) :
    Profiling (Outcome σ) := do
  let ring ← openRing limits pid activity config.frequencyHz config.dataPages
  control activity.startError
  let start : State := { ring, buffer := .withCapacity config.maxSamples }
  let (exited, s) ← takeTurns start activity.turns
  control activity.stopError
  let s ← s.drain
  let resolver ← Resolver.ofRegions regions source state config.cache
  let output ← Session.foldBuffer s.buffer resolver .sentinels pid config elapsedMs (some s.stats)
  return { output, exited }

/-- The regions of a process to record; it is gone if its memory map does not exist. -/
def regionsOf (table : ProcessTable) (pid : Pid) : Except ProfilerError (List Region) :=
  match table.memoryMap pid with
  | .error (.memoryMapsReadFailed _ (.system .noSuchFile)) => .error (.processNotFound pid)
  | found => found

def record (table : ProcessTable) (limits : KernelLimits) (pid : Pid) (activity : Activity)
    (config : SessionConfig) (source : NameSource σ) (state : σ) (elapsedMs : Nat) :
    Profiling (Outcome σ) := do
  let regions ← regionsOf table pid
  ofRegions regions limits pid activity config source state elapsedMs

end Recording

end StackProfiler
