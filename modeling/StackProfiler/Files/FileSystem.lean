import StackProfiler.Error.System
import StackProfiler.Files.Path

/-!
# File systems

Files and directories at locations; a location is the list of the names on the way from the root. A
path is followed from the root or from the current directory, and everything on the way must be a
directory. A file is created where its directory exists, and loses what it held before. At every
location the system may refuse access, for lack of permission or for any other reason.
-/

namespace StackProfiler

/-- What stands at a location. -/
inductive FileNode where
  | file (bytes : ByteArray)
  | directory

/-- What the system may refuse at a location. -/
inductive Access where
  /-- Passing through a directory. -/
  | passing
  /-- Opening a file in order to read it. -/
  | opening
  /-- Reading from a file that is open. -/
  | reading
  /-- Creating a file, or emptying one in order to write to it. -/
  | creating
deriving DecidableEq, Repr

/-- Files and directories, and the directory that relative paths start from. -/
structure FileSystem where
  /-- What stands where; of two entries for a location the first counts. -/
  nodes : List (List String × FileNode) := []
  current : List String := []
  /-- Why the system refuses access to a location, if it does. -/
  refusal : Access → List String → Option Errno := fun _ _ => none

namespace FileSystem

/-- The longest name of a file, in bytes. -/
def maxNameLength : Nat := 255

/-- What stands at a location; at the root stands a directory. -/
def node? (fs : FileSystem) (location : List String) : Option FileNode :=
  if location.isEmpty then some .directory
  else (fs.nodes.find? (·.1 == location)).map (·.2)

/-- Whether access to a location is granted. -/
def grant (fs : FileSystem) (access : Access) (location : List String) : Except Errno Unit :=
  match fs.refusal access location with
  | some errno => .error errno
  | none => .ok ()

/-- Follows names from a location on; the last one need not exist. -/
def follow (fs : FileSystem) : List String → List String → Except Errno (List String)
  | location, [] => .ok location
  | location, name :: rest =>
    match fs.node? location with
    | none => .error .noSuchFile
    | some (.file _) => .error .notDirectory
    | some .directory => do
      fs.grant .passing location
      if name = ".." then fs.follow location.dropLast rest
      else if maxNameLength < name.utf8ByteSize then .error .nameTooLong
      else fs.follow (location ++ [name]) rest

/-- The location that a path leads to. -/
def locate (fs : FileSystem) (path : String) : Except Errno (List String) :=
  if path.isEmpty then .error .noSuchFile
  else fs.follow (if Path.isAbsolute path then [] else fs.current) (Path.components path)

/-- Whether a path is written as that of a directory. -/
def namesDirectory (path : String) : Bool :=
  match (Text.pieces '/' path.toList).getLast? with
  | some last => path.toList.contains '/' && (last == [] || last == ['.'])
  | none => false

/-- What stands at the end of a path. -/
def nodeAt (fs : FileSystem) (path : String) : Except Errno FileNode := do
  let location ← fs.locate path
  match fs.node? location with
  | none => .error .noSuchFile
  | some .directory => .ok .directory
  | some (.file bytes) =>
    if namesDirectory path then .error .notDirectory else .ok (.file bytes)

/-- The bytes of a file; a directory has none. -/
def contentOf : FileNode → Except Errno ByteArray
  | .file bytes => .ok bytes
  | .directory => .error .isDirectory

/-- The bytes that the file at the end of a path holds, whoever may read them. -/
def read (fs : FileSystem) (path : String) : Except Errno ByteArray := do
  contentOf (← fs.nodeAt path)

/-- Opens what stands at the end of a path; what was opened is known by what reading it gives. -/
def openToRead (fs : FileSystem) (path : String) : Except Errno (Except Errno ByteArray) := do
  let location ← fs.locate path
  let node ← fs.nodeAt path
  fs.grant .opening location
  return do
    fs.grant .reading location
    contentOf node

/-- Opens the file at the end of a path and reads all of it. -/
def load (fs : FileSystem) (path : String) : Except Errno ByteArray := do
  let content ← fs.openToRead path
  content

/-- The file system with a file at a location. -/
def put (fs : FileSystem) (location : List String) (bytes : ByteArray) : FileSystem :=
  { fs with nodes := (location, .file bytes) :: fs.nodes.filter (·.1 != location) }

/-- The entries for a file and for the directories that it needs. -/
def entriesFor (file : String × ByteArray) : List (List String × FileNode) :=
  let location := Path.components file.1
  (location, .file file.2) ::
    (List.range (location.length - 1)).map fun i => (location.take (i + 1), .directory)

/-- A file system with an empty current directory, given by its absolute path, and some files with
the directories that they need. -/
def ofFiles (current : String) (files : List (String × ByteArray)) : FileSystem where
  nodes := (Path.components current, .directory) :: files.flatMap entriesFor
  current := Path.components current

/-- Whether the place that a path leads to is one for a file. -/
def fitsFile (path : String) : Option FileNode → Except Errno Unit
  | some .directory => .error .isDirectory
  | some (.file _) => if namesDirectory path then .error .notDirectory else .ok ()
  | none => if namesDirectory path then .error .isDirectory else .ok ()

/-- The location at which a file with the given path can be created. -/
def locateNew (fs : FileSystem) (path : String) : Except Errno (List String) := do
  let location ← fs.locate path
  fitsFile path (fs.node? location)
  fs.grant .creating location
  return location

end FileSystem

end StackProfiler
