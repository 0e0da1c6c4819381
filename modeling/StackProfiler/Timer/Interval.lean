/-!
# The sampling interval
-/

namespace StackProfiler.Timer

/--
The period of the profiling timer in microseconds. It is at least one microsecond, because a zero
period would stop the timer, and at most a second.
-/
def intervalMicros (frequencyHz : Nat) : Nat :=
  max (1000000 / max frequencyHz 1) 1

end StackProfiler.Timer
