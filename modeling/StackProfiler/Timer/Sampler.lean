import StackProfiler.Error.Domain
import StackProfiler.Timer.Interval

/-!
# Timer samplers

One buffer of the process at a time receives the samples that the profiling timer causes. Starting
a sampler claims that place, installs the handler and sets the timer; each of the two calls may
fail, and what was done before is then undone. Stopping clears the timer, brings back the handler
that was there before, and frees the place.
-/

namespace StackProfiler

/-- What happens on the profiling signal. -/
inductive Disposition where
  /-- A sample is captured. -/
  | capture
  /-- Something that the program chose before. -/
  | other (choice : Nat)
deriving DecidableEq, Repr

/-- The state of profiling in a process. Buffers are told apart by numbers. -/
structure TimerState where
  /-- The buffer that samples go to. -/
  active : Option Nat := none
  /-- The period of the timer in microseconds; none if it is off. -/
  timer : Option Nat := none
  disposition : Disposition := .other 0
deriving DecidableEq, Repr

/-- A sampler. -/
structure TimerSampler where
  buffer : Nat
  /-- What happened on the signal before. -/
  previous : Disposition
  /-- Whether it has not been stopped yet. -/
  armed : Bool := true
deriving DecidableEq, Repr

/-- Why calls made by a start fail, if they do. -/
structure StartFaults where
  handler : Option IoError := none
  timer : Option IoError := none
deriving DecidableEq, Repr

namespace TimerSampler

/-- Undoes a start; nothing is left to undo after the first time. -/
def disarm (s : TimerSampler) (state : TimerState) : TimerSampler × TimerState :=
  if s.armed then
    ({ s with armed := false }, { active := none, timer := none, disposition := s.previous })
  else (s, state)

/-- Drops a sampler, which stops it if that was not done before. -/
def drop (s : TimerSampler) (state : TimerState) : TimerState :=
  (s.disarm state).2

def start (state : TimerState) (buffer frequencyHz : Nat) (faults : StartFaults) :
    Except ProfilerError TimerSampler × TimerState :=
  match state.active with
  | some _ => (.error .sessionActive, state)
  | none =>
    -- the place is claimed first, so that of two starts only one goes on
    let claimed := { state with active := some buffer }
    match faults.handler with
    | some e => (.error (.timerInstallFailed e), { claimed with active := none })
    | none =>
      -- the former handler is remembered before it is replaced
      let sampler : TimerSampler := { buffer, previous := claimed.disposition }
      let installed := { claimed with disposition := .capture }
      match faults.timer with
      | some e =>
        -- the sampler is disarmed, and dropped because it is not handed out
        let (disarmed, state) := sampler.disarm installed
        (.error (.timerInstallFailed e), disarmed.drop state)
      | none => (.ok sampler, { installed with timer := some (Timer.intervalMicros frequencyHz) })

/-- Stops a sampler and hands back its buffer; the sampler is dropped afterwards. -/
def stop (s : TimerSampler) (state : TimerState) : Nat × TimerState :=
  let (stopped, state) := s.disarm state
  (stopped.buffer, stopped.drop state)

end TimerSampler

end StackProfiler
