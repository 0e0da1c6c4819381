import StackProfiler.Process.Table
import StackProfiler.Timer.Sampler
import StackProfiler.Timer.StackWalk

/-!
# A simulated profiled process

A process with a stack of a known depth that the profiling timer interrupts, and its buffers. A
signal reaches the buffer that is active at that moment, if there is one.
-/

namespace StackProfiler.Simulation

def ownCodeStart : UInt64 := 0x555555554000

def ownCodeStop : UInt64 := 0x555555654000

def ownPath : String := "/simulated/profiler"

def ownMaps : String :=
  Text.hex ownCodeStart.toNat ++ "-" ++ Text.hex ownCodeStop.toNat
    ++ " r-xp 00000000 00:1f 815                         " ++ ownPath ++ "\n"

def ownProcess (pid : Pid) : ProcessEntry where
  pid
  exe := .ok ownPath
  stat := .ok (toString pid.number ++ " (profiler) R 0 1 1 0 -1 4194304\n")
  maps := .ok ownMaps

/-- So many addresses in the code, spaced like calls, from a place on. -/
def addresses (first count : Nat) : List UInt64 :=
  (List.range count).map fun i => ownCodeStart + UInt64.ofNat (16 * (first + i + 1))

/-- Number of frames that a walk sees before the interrupted one: those of the unwinder, of the
walk, of the capture around it and of the handler, and that of the signal's trampoline. -/
def handlerDepth : Nat := 7

/-- Number of frames of the process when no further functions have been called. -/
def programDepth : Nat := 24

/-- An interrupt of the process under so many further frames. -/
def interruptAt (deep : Nat) : Interrupt where
  handler := addresses 0 handlerDepth
  program := addresses handlerDepth (programDepth + deep)

/-- The state of profiling, with the buffers by number and the samplers by name. -/
structure SampledProcess where
  timer : TimerState := {}
  buffers : List (Nat × SampleBuffer) := []
  samplers : List (String × TimerSampler) := []

namespace SampledProcess

def bufferAt (p : SampledProcess) (number : Nat) : SampleBuffer :=
  ((p.buffers.find? (·.1 == number)).map (·.2)).getD (.withCapacity 0)

def setBuffer (p : SampledProcess) (number : Nat) (b : SampleBuffer) : SampledProcess :=
  { p with buffers := (number, b) :: p.buffers.filter (·.1 != number) }

/-- The sampler of a name; without one, a sampler that was stopped. -/
def sampler (p : SampledProcess) (name : String) : TimerSampler :=
  ((p.samplers.find? (·.1 == name)).map (·.2)).getD
    { buffer := 0, previous := .other 0, armed := false }

def buffer (p : SampledProcess) (name : String) : SampleBuffer :=
  p.bufferAt (p.sampler name).buffer

def signal (i : Interrupt) (p : SampledProcess) : SampledProcess :=
  match p.timer.active with
  | none => p
  | some number => p.setBuffer number (i.captureInto (p.bufferAt number))

def signals (i : Interrupt) (p : SampledProcess) (count : Nat) : SampledProcess :=
  count.repeat (signal i) p

/-- As many signals arrive as the buffer of an active sampler takes, and one more. -/
def overrun (i : Interrupt) (p : SampledProcess) (name : String) : SampledProcess :=
  p.signals i ((p.buffer name).capacity + 1 - (p.buffer name).next)

/-- Starts a sampler into a new buffer. -/
def start (p : SampledProcess) (name : String) (capacity frequencyHz : Nat) :
    Except ProfilerError SampledProcess :=
  let number := p.buffers.length + 1
  match TimerSampler.start p.timer number frequencyHz {} with
  | (.error e, _) => .error e
  | (.ok sampler, timer) =>
    let p := { p with timer, samplers := (name, sampler) :: p.samplers }
    .ok (p.setBuffer number (.withCapacity capacity))

/-- Stops a sampler, and says whether the buffer that it hands back is its own. -/
def stop (p : SampledProcess) (name : String) : Bool × SampledProcess :=
  let (number, timer) := (p.sampler name).stop p.timer
  (number == (p.sampler name).buffer, { p with timer })

def drop (p : SampledProcess) (name : String) : SampledProcess :=
  { p with timer := (p.sampler name).drop p.timer }

end SampledProcess

end StackProfiler.Simulation
