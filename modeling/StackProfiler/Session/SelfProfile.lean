import StackProfiler.Process.Table
import StackProfiler.Session.Summary
import StackProfiler.Timer.Sampler
import StackProfiler.Timer.StackWalk

/-!
# Profiling the own process

While a workload runs, a timer interrupts it again and again and each time a sample of its stack is
taken. Which interrupts there were is given, so that the session is a function of them.
-/

namespace StackProfiler.SelfProfile

def bufferNumber : Nat := 0

variable {σ : Type}

/-- The buffer after a workload that was interrupted like this. -/
def capture (capacity : Nat) (interrupts : List Interrupt) : SampleBuffer :=
  interrupts.foldl Interrupt.captureInto (.withCapacity capacity)

/-- Profiles the process of a number during a workload. -/
def profile (table : ProcessTable) (pid : Pid) (timer : TimerState) (faults : StartFaults)
    (interrupts : List Interrupt) (config : SessionConfig) (source : NameSource σ) (state : σ)
    (elapsedMs : Nat) :
    Checked (Except ProfilerError (SessionOutput σ) × TimerState) :=
  match table.memoryMap pid with
  | .error e => .ok (.error e, timer)
  | .ok regions =>
    match TimerSampler.start timer bufferNumber config.frequencyHz faults with
    | (.error e, timer) => .ok (.error e, timer)
    | (.ok sampler, timer) => do
      let buffer := capture config.maxSamples interrupts
      let (_, timer) := sampler.stop timer
      let resolver ← Resolver.ofRegions regions source state config.cache
      let output ←
        Session.foldBuffer buffer resolver .selfProfiling pid config elapsedMs none
      return (.ok output, timer)

end StackProfiler.SelfProfile
