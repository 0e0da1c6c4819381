/-!
# Process ids
-/

namespace StackProfiler

/-- The number of a process. -/
structure Pid where
  number : Int
deriving DecidableEq, Repr

namespace Pid

/-- The process id as it stands in messages. -/
def text (pid : Pid) : String :=
  "PID:" ++ toString pid.number

def directory (pid : Pid) : String :=
  "/proc/" ++ toString pid.number

/-- The listing of the memory map of the process. -/
def mapsPath (pid : Pid) : String :=
  pid.directory ++ "/maps"

end Pid

end StackProfiler
