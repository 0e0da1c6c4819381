import StackProfiler.Binary.Tools
import StackProfiler.Command.World
import StackProfiler.Simulation.Processor

/-!
# Simulated processes

A program file is run on the small processor, and the process that runs it is shown as the
operating system shows a process: with its executable, its name, its memory map, and the samples
that a recording of it takes.
-/

namespace StackProfiler.Simulation

/-- Most instructions that are run before a program is given up. -/
def maxInstructions : Nat := 100000

/-- The bytes that a program file puts at addresses. -/
def codeOf (elf : Binary.Elf) : Processor.Code := fun address => do
  let s ← elf.segments.find? fun s =>
    s.address ≤ address && address.toNat < s.address.toNat + s.fileSize.toNat
  elf.source.bytes[s.fileOffset.toNat + (address.toNat - s.address.toNat)]?

/-- What a program file does when it is run; a file that is no program ends at once. -/
def behaviourOf (bytes : ByteArray) : Behaviour :=
  match Binary.Elf.parse bytes with
  | .error _ => .over 0
  | .ok elf => Processor.run (codeOf elf) maxInstructions (.atEntry elf.entry)

def activityOf (behaviour : Behaviour) (config : SessionConfig) : Activity :=
  if config.durationMs = 0 then {}
  else
    match behaviour with
    | .busy chain => { turns := List.replicate config.maxSamples { chains := [chain] } }
    | .asleep => { turns := [{ readable := false }] }
    | .over ms => { turns := [{ readable := false, gone := ms ≤ config.durationMs }] }

/-! ## What is shown of a process -/

/-- The size of a page of memory. -/
def pageSize : Nat := 4096

/-- The letters of the permissions of a segment. -/
def permissions (flags : Nat) : String :=
  (if flags / 4 % 2 = 1 then "r" else "-") ++ (if flags / 2 % 2 = 1 then "w" else "-")
    ++ (if flags % 2 = 1 then "x" else "-") ++ "p"

/-- A number in hexadecimal with at least eight digits. -/
def hex8 (n : Nat) : String :=
  let digits := Text.hex n
  String.ofList (List.replicate (8 - digits.length) '0') ++ digits

/-- The line of the memory map for a segment. -/
def mapsLine (path : String) (s : Binary.Segment) : String :=
  let start := s.address.toNat / pageSize * pageSize
  let stop := (s.address.toNat + s.fileSize.toNat + pageSize - 1) / pageSize * pageSize
  let offset := s.fileOffset.toNat / pageSize * pageSize
  hex8 start ++ "-" ++ hex8 stop ++ " " ++ permissions s.flags ++ " " ++ hex8 offset
    ++ " 00:1f 4711                           " ++ path ++ "\n"

/-- The memory map of a process that runs a program file. -/
def mapsText (path : String) (bytes : ByteArray) : String :=
  match Binary.Elf.parse bytes with
  | .error _ => ""
  | .ok elf => String.join (elf.segments.map (mapsLine path))

/-- The most bytes of a command's name that the kernel keeps. -/
def maxCommandLength : Nat := 15

/-- The line of statistics of a process; it is not text if the name is cut inside a character. -/
def statText (pid : Pid) (name : String) : Except IoError String :=
  match String.fromUTF8? (name.toUTF8.extract 0 maxCommandLength) with
  | none => .error .invalidUtf8
  | some command => .ok (toString pid.number ++ " (" ++ command ++ ") S 1 1 1 0 -1 4194304\n")

/-- A program file that was started. -/
structure Program where
  /-- The path of the file, which ends in its name. -/
  path : String
  bytes : ByteArray
  /-- Whether the process has ended and is still listed. -/
  ended : Bool := false

namespace Program

/-- The process that runs the program, as it is shown. -/
def entry (p : Program) (pid : Pid) : ProcessEntry where
  pid
  exe := if p.ended then .error (.system .noSuchFile) else .ok p.path
  stat := statText pid ((Path.fileName? p.path).getD "")
  maps := .ok (if p.ended then "" else mapsText p.path p.bytes)

/-- What a recording sees of the process. -/
def activity (p : Program) (config : SessionConfig) : Activity :=
  if p.ended then { refusal := some .noSuchProcess }
  else activityOf (behaviourOf p.bytes) config

end Program

/-- A world in which programs were started one after the other, the first with a given number. -/
def worldOf (programs : List Program) (firstPid : Nat) (own : ProcessEntry) : World where
  files := FileSystem.ofFiles "/" (programs.map fun p => (p.path, p.bytes))
  ownPid := own.pid
  processes := {
    entries := own :: programs.zipIdx.map fun (p, i) => p.entry ⟨firstPid + i⟩ }
  tools := Binary.tools
  activity pid config :=
    match programs[(pid.number - firstPid).toNat]? with
    | some p => p.activity config
    | none => {}

end StackProfiler.Simulation
