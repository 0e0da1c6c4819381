import StackProfiler.Error.System
import StackProfiler.Files.Path
import StackProfiler.Process.Pid
import StackProfiler.Text.Blank
import StackProfiler.Text.Numeral
import StackProfiler.Text.Pieces

/-!
# Picking a process by name

A process is known by the name of its command and by the name of its executable. A wanted name
picks the one process that has it, or, if none has it, the one process that has it as a part of
either name.
-/

namespace StackProfiler

/-- How well a process matches a wanted name. -/
inductive MatchRank where
  | exact
  | part
deriving DecidableEq, Repr

/-- The process that a recording attaches to. -/
structure Target where
  pid : Pid
  /-- Path of its executable. -/
  exe : String
deriving DecidableEq, Repr

/-- A process that may be picked. -/
structure Candidate where
  target : Target
  /-- Name of its command. -/
  command : String
deriving DecidableEq, Repr

namespace Candidate

/-- How well the process matches a name. -/
def rank (c : Candidate) (wanted : String) : Option MatchRank :=
  let exeName := (Path.fileName? c.target.exe).getD ""
  if c.command = wanted ∨ exeName = wanted then some .exact
  else if [c.command, exeName].any fun name => Text.holds wanted.toList name.toList then
    some .part
  else none

/-- The line for a process in the list of an ambiguous match. -/
def listing (c : Candidate) : String :=
  let number := toString c.target.pid.number
  "  " ++ String.ofList (List.replicate (7 - number.length) ' ') ++ number ++ "  " ++ c.command

end Candidate

/--
The name of a command in a line of process statistics: it stands in parentheses, and may hold
parentheses itself.
-/
def commandOfStat (stat : String) : Option String := do
  let (_, rest) ← Text.cutFirst? '(' stat.toList
  let (command, _) ← Text.cutLast? ')' rest
  return String.ofList command

/-- Why no single process could be picked. -/
inductive FindError where
  /-- The processes cannot be listed. -/
  | unlisted (error : IoError)
  | notFound (name : String)
  | ambiguous (name : String) (candidates : List Candidate)
deriving DecidableEq, Repr

namespace FindError

def message : FindError → String
  | unlisted _ => "Failed to list /proc"
  | notFound name =>
    "No running process is named like '" ++ name ++ "' (see: pgrep -a " ++ name ++ ")"
  | ambiguous name candidates =>
    "'" ++ name ++ "' matches " ++ toString candidates.length ++ " processes:\n"
      ++ "\n".intercalate (candidates.map Candidate.listing)
      ++ "\n\nPick one with: pyrograph record --pid <PID>"

end FindError

/--
The one process among the candidates that matches a name best. Of the name itself only the last
component counts.
-/
def Target.find (name : String) (candidates : List Candidate) : Except FindError Target :=
  let wanted := (Path.fileName? name).getD name
  let exact := candidates.filter fun c => c.rank wanted = some .exact
  let part := candidates.filter fun c => c.rank wanted = some .part
  -- a part of a name counts only if no name is equal
  match if exact.isEmpty then part else exact with
  | [] => .error (.notFound name)
  | [c] => .ok c.target
  | best => .error (.ambiguous name best)

end StackProfiler
