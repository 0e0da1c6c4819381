import StackProfiler.Error.System
import StackProfiler.Log
import StackProfiler.Symbol.Resolver
import StackProfiler.Text.Blank
import StackProfiler.Text.Lossy
import StackProfiler.Text.Pieces

/-!
# Names from an external program

A source of names that runs a program for each lookup. The program gets a file and an address and
prints the function's name on its first line. A program that cannot be started is reported once and
not tried again.
-/

namespace StackProfiler

/-- A program that names addresses, and what is known of it. -/
structure AddressTool where
  program : String := "addr2line"
  /-- Whether it could not be started. -/
  unavailable : Bool := false
  /-- What was reported, the latest first. -/
  log : List LogEvent := []

namespace AddressTool

/-- The part of the program that reports on the external one. -/
def topic : String := "symbolization::offset_resolver"

/-- What the program prints in place of a name it does not know. -/
def notFound : String := "??"

/-- The program's arguments for an address of a file. -/
def arguments (path : String) (address : UInt64) : List String :=
  ["-f", "-C", "-e", path, "0x" ++ Text.hex address.toNat]

def nameIn (printed : List UInt8) : Option String :=
  let lines := Text.lines '\n' '\r' (Text.decodeLossy printed)
  let name := String.ofList (Text.trim (lines.headD []))
  if name == "" || name == notFound then none else some name

/-- The source of names over a way to run a program with arguments. -/
def source (run : (program : String) → List String → Except IoError (List UInt8)) :
    NameSource AddressTool where
  lookup tool path offset := .ok <|
    if tool.unavailable then (none, tool)
    else
      match run tool.program (arguments path offset) with
      | .error e =>
        let event : LogEvent := {
          level := .warn
          topic
          message :=
            "Cannot run " ++ tool.program ++ ": " ++ e.message ++ "; symbols will be unresolved" }
        (none, { tool with unavailable := true, log := event :: tool.log })
      | .ok printed =>
        match nameIn printed with
        | some name => (some name, tool)
        | none =>
          let event : LogEvent := {
            level := .debug
            topic
            message := path ++ "+0x" ++ Text.hex offset.toNat ++ ": not found" }
          (none, { tool with log := event :: tool.log })

end AddressTool

end StackProfiler
