import StackProfiler.Error.System
import StackProfiler.Process.Pid

/-!
# Errors of the domain

What can go wrong while profiling, rendering, and reading or writing folded stacks. Each error is
a cause; its wording, the error behind it and its spelled-out form are computed from it.
-/

namespace StackProfiler

/-- What can go wrong while profiling. -/
inductive ProfilerError where
  | processNotFound (pid : Pid)
  | perfOpenFailed (pid : Pid) (source : IoError)
  | mmapFailed (source : IoError)
  | invalidRingSize (size : Nat)
  | sessionActive
  | timerInstallFailed (source : IoError)
  | memoryMapsReadFailed (path : String) (source : IoError)
  | io (error : IoError)
deriving DecidableEq, Repr

namespace ProfilerError

def kind : ProfilerError → String
  | processNotFound _ => "ProcessNotFound"
  | perfOpenFailed .. => "PerfOpenFailed"
  | mmapFailed _ => "MmapFailed"
  | invalidRingSize _ => "InvalidRingSize"
  | sessionActive => "SessionActive"
  | timerInstallFailed _ => "TimerInstallFailed"
  | memoryMapsReadFailed .. => "MemoryMapsReadFailed"
  | io _ => "Io"

def message : ProfilerError → String
  | processNotFound pid => "Process " ++ pid.text ++ " not found"
  | perfOpenFailed pid source => "perf_event_open failed for " ++ pid.text ++ ": " ++ source.message
  | mmapFailed source => "Failed to map perf ring buffer: " ++ source.message
  | invalidRingSize size => "Ring buffer data size " ++ toString size ++ " is not a power of two"
  | sessionActive => "A timer-driven sampling session is already active in this process"
  | timerInstallFailed source => "Failed to install sampling timer: " ++ source.message
  | memoryMapsReadFailed path _ => "Failed to read " ++ path
  | io error => error.message

/-- The error behind this one; a bare input or output error has none but itself. -/
def source? : ProfilerError → Option IoError
  | perfOpenFailed _ source => some source
  | mmapFailed source => some source
  | timerInstallFailed source => some source
  | memoryMapsReadFailed _ source => some source
  | _ => none

def debugText : ProfilerError → String
  | processNotFound pid => "ProcessNotFound(Pid(" ++ toString pid.number ++ "))"
  | perfOpenFailed pid source =>
    "PerfOpenFailed \x7b pid: Pid(" ++ toString pid.number ++ "), source: " ++ source.debugText
      ++ " \x7d"
  | mmapFailed source => "MmapFailed(" ++ source.debugText ++ ")"
  | invalidRingSize size => "InvalidRingSize(" ++ toString size ++ ")"
  | sessionActive => "SessionActive"
  | timerInstallFailed source => "TimerInstallFailed(" ++ source.debugText ++ ")"
  | memoryMapsReadFailed path source =>
    "MemoryMapsReadFailed \x7b path: " ++ Text.quoted path ++ ", source: " ++ source.debugText
      ++ " \x7d"
  | io error => "Io(" ++ error.debugText ++ ")"

end ProfilerError

/-- What can go wrong while rendering. -/
inductive RenderError where
  | noSamples
  | invalidWidth (width : Nat)
  | io (error : IoError)
deriving DecidableEq, Repr

namespace RenderError

def kind : RenderError → String
  | noSamples => "NoSamples"
  | invalidWidth _ => "InvalidWidth"
  | io _ => "Io"

def message : RenderError → String
  | noSamples => "No samples to render (the profile is empty)"
  | invalidWidth width =>
    "Invalid canvas width " ++ toString width ++ ": must be larger than the side margins"
  | io error => error.message

def debugText : RenderError → String
  | noSamples => "NoSamples"
  | invalidWidth width => "InvalidWidth(" ++ toString width ++ ")"
  | io error => "Io(" ++ error.debugText ++ ")"

end RenderError

/-- What can go wrong while reading or writing folded stacks. -/
inductive FoldError where
  | read (source : IoError)
  | write (source : IoError)
deriving DecidableEq, Repr

namespace FoldError

def kind : FoldError → String
  | read _ => "Read"
  | write _ => "Write"

def message : FoldError → String
  | read source => "Failed to read folded stacks: " ++ source.message
  | write source => "Failed to write folded stacks: " ++ source.message

def source : FoldError → IoError
  | read source => source
  | write source => source

def debugText : FoldError → String
  | read source => "Read(" ++ source.debugText ++ ")"
  | write source => "Write(" ++ source.debugText ++ ")"

end FoldError

end StackProfiler
