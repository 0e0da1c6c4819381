import StackProfiler.Files.Path
import StackProfiler.Log
import StackProfiler.Symbol.Image
import StackProfiler.Symbol.Resolver

/-!
# Names from images

A source of names that reads each file once. A file that cannot be read is remembered too, and is
reported once.
-/

namespace StackProfiler

/-- The images read so far, each under the components of its path; none for an unreadable file. -/
structure ImageStore where
  images : List (List String × Option Image) := []
  /-- What was reported while files were read, the latest first. -/
  log : List LogEvent := []

namespace ImageStore

/-- The part of the program that reports on images. -/
def topic : String := "symbolization::symbolizer"

/-- The image of a file, which is read now if it was not read before. -/
def imageOf (s : ImageStore) (tools : BinaryTools) (content : String → Except IoError ByteArray)
    (path : String) : Option Image × ImageStore :=
  let key := Path.components path
  match s.images.find? (·.1 == key) with
  | some (_, image) => (image, s)
  | none =>
    let (image, event) := match Image.load tools (content path) with
      | .ok image => (some image, LogEvent.mk .debug topic ("Loaded symbols for " ++ path))
      | .error failure =>
        (none, LogEvent.mk .warn topic ("Cannot symbolize " ++ path ++ ": " ++ failure.text))
    (image, { images := s.images ++ [(key, image)], log := event :: s.log })

/-- The source of names over the files of a given content. -/
def source (tools : BinaryTools) (content : String → Except IoError ByteArray) :
    NameSource ImageStore where
  lookup s path offset := do
    let (image, s) := s.imageOf tools content path
    match image with
    | none => return (none, s)
    | some image => return (← image.functionAt? tools.demangle offset, s)

end ImageStore

end StackProfiler
