import StackProfiler.Log
import StackProfiler.Session.Recording
import StackProfiler.Timer.Sampler

/-!
# Events of a session

What a session reports on the side, computed from its parameters and its results.
-/

namespace StackProfiler

/-- A length of time as it stands in messages. -/
def durationText (ms : Nat) : String :=
  if ms = 0 then "0ns"
  else if ms < 1000 then toString ms ++ "ms"
  else
    let digits := (Nat.toDigits 10 (1000 + ms % 1000)).drop 1
    let fraction := (digits.reverse.dropWhile (· == '0')).reverse
    toString (ms / 1000) ++ (if fraction.isEmpty then "" else "." ++ String.ofList fraction) ++ "s"

namespace MemoryMap

/-- What reading the memory map of a process reports. -/
def events (pid : Pid) (listing : String) : List LogEvent :=
  let topic := "symbolization::memory_maps"
  let excess : List LogEvent :=
    if exceeds listing then
      [{ level := .warn
         topic
         message := "Address-space map has more than " ++ toString maxRegions
           ++ " executable regions, ignoring the rest" }]
    else []
  excess ++
    [{ level := .debug
       topic
       message := pid.mapsPath ++ ": " ++ toString (parse listing).length
         ++ " executable file-backed regions" }]

end MemoryMap

namespace SessionSummary

/-- What folding the buffer of a session reports at the end. -/
def events (s : SessionSummary) (capacity : Nat) : List LogEvent :=
  [{ level := .debug
     topic := "aggregation::stack_folder"
     message := "Folded " ++ toString s.captured ++ " samples into " ++ toString s.distinctStacks
       ++ " stacks (" ++ toString s.discardedSamples ++ " discarded)" },
   { level := .debug
     topic := "profiling::session"
     message := "Session summary: " ++ s.record.spelled }]
  ++ if 0 < s.dropped then
      [{ level := .warn
         topic := "profiling::session"
         message := toString s.dropped ++ " samples dropped (buffer capacity " ++ toString capacity
           ++ ")" }]
    else []

end SessionSummary

namespace Recording

/-- What is reported when the kernel does not permit sampling. -/
def deniedEvent : LogEvent where
  level := .warn
  topic := "profiling::perf_source"
  message := "perf_event_open denied; check /proc/sys/kernel/perf_event_paranoid "
    ++ "or run with CAP_PERFMON"

/-- What is reported when the ring of a recording has been opened. -/
def openedEvent (limits : KernelLimits) (pid : Pid) (config : SessionConfig) : LogEvent where
  level := .info
  topic := "profiling::perf_source"
  message := "Opened perf sampling on " ++ pid.text ++ " at " ++ toString config.frequencyHz
    ++ " Hz (" ++ toString config.dataPages ++ " data pages, "
    ++ toString (config.dataPages * limits.pageSize) ++ " bytes)"

/-- What is reported when the kernel has begun to sample. -/
def startedEvent (pid : Pid) (config : SessionConfig) : LogEvent where
  level := .info
  topic := "profiling::session"
  message := "Recording " ++ pid.text ++ " for " ++ durationText config.durationMs

/-- What is reported when the turns of a recording are over. -/
def exitEvents (pid : Pid) (exited : Bool) : List LogEvent :=
  if exited then
    [{ level := .info
       topic := "profiling::session"
       message := pid.text ++ " exited, stopping early" }]
  else []

/-- What a recording reports before it fails. -/
def failedEvents (limits : KernelLimits) (pid : Pid) (activity : Activity)
    (config : SessionConfig) : ProfilerError → List LogEvent
  | .perfOpenFailed _ source => if source.isPermission then [deniedEvent] else []
  -- the ring was opened, and then it did not have a size for a reader
  | .invalidRingSize _ =>
    if isPowerOfTwo config.dataPages then [openedEvent limits pid config] else []
  | .io _ =>
    let turns := startedEvent pid config :: exitEvents pid activity.exits
    openedEvent limits pid config :: if activity.startError.isSome then [] else turns
  | _ => []

/-- What is reported about samples that the kernel lost. -/
def lostEvents (lost : Nat) : List LogEvent :=
  if 0 < lost then
    [{ level := .warn
       topic := "profiling::session"
       message := "Kernel reported " ++ toString lost
         ++ " lost samples; consider more --mmap-pages" }]
  else []

end Recording

namespace SelfProfile

/-- The part of the program that samples by a timer. -/
def samplerTopic : String := "profiling::timer_sampler"

/-- What a sampler reports when it is disarmed. -/
def disarmedEvent (captured dropped : Nat) : LogEvent where
  level := .debug
  topic := samplerTopic
  message := "Self-sampling disarmed: " ++ toString captured ++ " samples, " ++ toString dropped
    ++ " dropped"

/-- What a sampler reports when it is armed and disarmed. -/
def samplerEvents (frequencyHz captured dropped : Nat) : List LogEvent :=
  [{ level := .info
     topic := samplerTopic
     message := "Self-sampling armed at " ++ toString frequencyHz ++ " Hz (every "
       ++ toString (Timer.intervalMicros frequencyHz) ++ "us)" },
   disarmedEvent captured dropped]

/-- What is reported before a sampler fails to start: once the handler is installed, the sampler is
disarmed. -/
def failedEvents (faults : StartFaults) : ProfilerError → List LogEvent
  | .timerInstallFailed _ => if faults.handler.isNone then [disarmedEvent 0 0] else []
  | _ => []

end SelfProfile

end StackProfiler
