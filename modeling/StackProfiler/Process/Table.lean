import StackProfiler.Error.Failure
import StackProfiler.Process.Lookup
import StackProfiler.Symbol.MemoryMap

/-!
# The table of processes

What the operating system shows of the processes that exist: the executable of each, its line of
statistics, and the listing of its memory map.
-/

namespace StackProfiler

/-- A process as it is shown. -/
structure ProcessEntry where
  pid : Pid
  /-- Path of its executable. -/
  exe : Except IoError String
  /-- Its line of statistics. -/
  stat : Except IoError String
  /-- The listing of its memory map. -/
  maps : Except IoError String

/-- The processes that exist, in the order in which they are listed. -/
structure ProcessTable where
  entries : List ProcessEntry := []
  /-- Why they cannot be listed, if they cannot; each is shown all the same. -/
  unlisted : Option IoError := none

/-- The failure of a command for which no single process could be picked. -/
def FindError.failure : FindError → Failure
  | unlisted error => Failure.within { cause := .io error } (message (unlisted error))
  | e => { cause := .told e.message }

namespace ProcessTable

def find? (t : ProcessTable) (pid : Pid) : Option ProcessEntry :=
  t.entries.find? (·.pid == pid)

def contains (t : ProcessTable) (pid : Pid) : Bool :=
  (t.find? pid).isSome

/-- The text of a file in the directory of a process. -/
def readFile (t : ProcessTable) (pid : Pid) (file : ProcessEntry → Except IoError String) :
    Except IoError String :=
  match t.find? pid with
  | none => .error (.system .noSuchFile)
  | some entry => file entry

/-- The regions of the memory map of a process. -/
def memoryMap (t : ProcessTable) (pid : Pid) : Except ProfilerError (List Region) :=
  match t.readFile pid (·.maps) with
  | .error e => .error (.memoryMapsReadFailed pid.mapsPath e)
  | .ok text => .ok (MemoryMap.parse text)

def target (t : ProcessTable) (pid : Pid) : Except ProfilerError Target :=
  match t.readFile pid (·.exe) with
  | .ok exe => .ok { pid, exe }
  | .error (.system .noSuchFile) => .error (.processNotFound pid)
  | .error e => .error (.io e)

/-- The process as one that may be picked; none if it has no executable or no name. -/
def candidateOf? (entry : ProcessEntry) : Option Candidate :=
  match entry.exe, entry.stat with
  | .ok exe, .ok stat =>
    (commandOfStat stat).map fun command => { target := { pid := entry.pid, exe }, command }
  | _, _ => none

/-- The processes that may be picked; the own process is none of them. -/
def candidates (t : ProcessTable) (own : Pid) : List Candidate :=
  (t.entries.filter (·.pid != own)).filterMap candidateOf?

def findByName (t : ProcessTable) (own : Pid) (name : String) : Except FindError Target :=
  match t.unlisted with
  | some e => .error (.unlisted e)
  | none => Target.find name (t.candidates own)

end ProcessTable

end StackProfiler
