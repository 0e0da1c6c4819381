import StackProfiler.Text.Pieces

/-!
# Paths

A path is a text; its components are what stands between its slashes, without those that are empty
or stay where they are.
-/

namespace StackProfiler.Path

/-- The components of a path that lead somewhere. -/
def components (path : String) : List String :=
  ((Text.pieces '/' path.toList).map String.ofList).filter fun c => c != "" && c != "."

/-- Whether a path starts at the root. -/
def isAbsolute (path : String) : Bool :=
  path.toList.head? == some '/'

/-- The last component of a path if it is a name; none if the path ends by going up. -/
def fileName? (path : String) : Option String :=
  (components path).getLast?.filter (· != "..")

end StackProfiler.Path
