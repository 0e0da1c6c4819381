/-!
# Log events

What the program reports on the side: each event has a level and belongs to a part of the program.
Events below the level that was asked for are not shown.
-/

namespace StackProfiler

/-- How much an event matters. -/
inductive LogLevel where
  | error
  | warn
  | info
  | debug
  | trace
deriving DecidableEq, Repr

namespace LogLevel

/-- The rank of a level; a higher rank is more detailed. -/
def rank : LogLevel → Nat
  | error => 0
  | warn => 1
  | info => 2
  | debug => 3
  | trace => 4

/-- The name of a level, in five characters. -/
def label : LogLevel → String
  | error => "ERROR"
  | warn => "WARN "
  | info => "INFO "
  | debug => "DEBUG"
  | trace => "TRACE"

def ofName? : String → Option LogLevel
  | "error" => some error
  | "warn" => some warn
  | "info" => some info
  | "debug" => some debug
  | "trace" => some trace
  | _ => none

end LogLevel

/-- Something that is reported. -/
structure LogEvent where
  level : LogLevel
  /-- The part of the program that reports it; empty for the program itself. -/
  topic : String
  message : String
deriving DecidableEq, Repr

namespace LogEvent

/-- Whether the event is shown at a level of detail. -/
def shownAt (e : LogEvent) (detail : LogLevel) : Bool :=
  e.level.rank ≤ detail.rank

/-- The line for the event, without the time. -/
def line (e : LogEvent) : String :=
  "[" ++ e.level.label ++ " pyrograph" ++ (if e.topic.isEmpty then "" else "::" ++ e.topic) ++ "] "
    ++ e.message

end LogEvent

/-- What the program writes on the side: a line for the user, or an event. -/
inductive Notice where
  | line (text : String)
  | event (e : LogEvent)
deriving DecidableEq, Repr

namespace Notice

/-- The text of a notice at a level of detail; without a level only errors are shown. -/
def textAt (detail : Option LogLevel) : Notice → String
  | line text => text ++ "\n"
  | event e => if e.shownAt (detail.getD .error) then e.line ++ "\n" else ""

end Notice

end StackProfiler
