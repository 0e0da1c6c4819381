import StackProfiler.Command.World
import StackProfiler.Process.Paranoid

/-!
# Checks before a recording

Whether the process exists and shows its memory map, and warnings about what will make the result
poor: sampling that the kernel will refuse, and executables without symbols.
-/

namespace StackProfiler.Preflight

def checkExists (processes : ProcessTable) (pid : Pid) : Except ProfilerError Unit :=
  if processes.contains pid then .ok () else .error (.processNotFound pid)

/-- What a user is told if the memory map of a process cannot be read. -/
def accessAdvice (pid : Pid) : String :=
  "Cannot read " ++ pid.mapsPath
    ++ "\n\nThis usually means:\n- The process doesn't exist (check: ps -p "
    ++ toString pid.number ++ ")\n- Permission denied (run with sudo)\n- /proc is not mounted"

/-- Fails unless the memory map of a process can be read. -/
def checkAccess (processes : ProcessTable) (pid : Pid) : Except Failure Unit :=
  match processes.readFile pid (·.maps) with
  | .ok _ => .ok ()
  | .error e => .error (Failure.within { cause := .io e } (accessAdvice pid))

/-- The part of the program that does the checks. -/
def topic : String := "preflight"

/-- Where the kernel's restriction of sampling stands. -/
def paranoidPath : String := "/proc/sys/kernel/perf_event_paranoid"

/-- What is said about the kernel's restriction; nothing to a privileged user. -/
def paranoidNotices (privileged : Bool) (paranoid : Option String) : List Notice :=
  if privileged then []
  else
    match paranoid.bind paranoidLevel? with
    | none => [.event { level := .debug, topic, message := paranoidPath ++ " unreadable" }]
    | some level =>
      if maxUnprivilegedParanoid < level then
        [.line ("warning: perf_event_paranoid is " ++ toString level
          ++ "; sampling will likely be denied.\nLower it with: "
          ++ "sudo sysctl kernel.perf_event_paranoid=" ++ toString maxUnprivilegedParanoid)]
      else
        [.event {
          level := .debug
          topic
          message := "perf_event_paranoid = " ++ toString level }]

/-- The warning about an executable's symbols; none about a file that is no executable. -/
def symbolWarning? (tools : BinaryTools) (bytes : ByteArray) : Option String :=
  match tools.parseObject bytes with
  | .error _ => none
  | .ok file =>
    if file.hasSection ".debug_info" then none
    else if file.hasSection ".symtab" then
      some "warning: no DWARF debug info, inlined functions will not be named"
    else some "warning: binary stripped, most frames will show as [unknown]"

/-- Warns if an executable lacks symbols. -/
def checkSymbols (exe : String) : Command Unit := do
  let w ← get
  let bytes ← Command.orErrno ("Failed to read binary: " ++ exe) (w.files.load exe)
  (symbolWarning? w.tools bytes).forM Command.say

/-- All checks for a recording of a process. -/
def run (pid : Pid) (exe : String) : Command Unit := do
  let w ← get
  Command.ofExcept <| (checkExists w.processes pid).mapError fun e =>
    Failure.within { cause := .profiler e }
      ("Is the process still running? Check with: ps -p " ++ toString pid.number)
  Command.ofExcept (checkAccess w.processes pid)
  (paranoidNotices w.privileged w.paranoid).forM Command.give
  checkSymbols exe

end StackProfiler.Preflight
