import StackProfiler.Arguments.Grammar
import StackProfiler.Session.Summary
import StackProfiler.Svg.Document
import StackProfiler.Text.Numeral
import StackProfiler.Workload

/-!
# The commands and their options

Four commands: recording a process, profiling the built-in workload, rendering a profile, and
rendering the difference of two profiles.
-/

namespace StackProfiler.Arguments

/-- What is drawn, for every command that draws. -/
structure GraphOptions where
  title : String := "Flame Graph"
  width : Nat := 1200
deriving DecidableEq, Repr

def GraphOptions.svg (g : GraphOptions) : SvgOptions :=
  { title := g.title, layout := { LayoutConfig.standard with width := g.width } }

/-- Where a session's results go. -/
structure ResultPaths where
  folded : Option String := none
  svg : Option String := none
  summary : Option String := none
deriving DecidableEq, Repr

/-- Where function names come from. -/
inductive ResolverKind where
  /-- The debug information and symbol tables of the files. -/
  | images
  /-- An external program, run for every lookup. -/
  | addressTool
deriving DecidableEq, Repr

/-- Options for recording a process. -/
structure RecordOptions where
  process : Option String := none
  pid : Option Pid := none
  session : SessionConfig := .external
  resolver : ResolverKind := .images
  paths : ResultPaths := {}
  graph : GraphOptions := {}
deriving DecidableEq, Repr

/-- Options for profiling the built-in workload. -/
structure SelfProfileOptions where
  iterations : Nat := Workload.defaultIterations
  session : SessionConfig := .selfProfiling
  paths : ResultPaths := {}
  graph : GraphOptions := {}
deriving DecidableEq, Repr

/-- Options for rendering a profile. -/
structure RenderOptions where
  input : Option String := none
  output : Option String := none
  graph : GraphOptions := {}
deriving DecidableEq, Repr

/-- Options for rendering a difference. -/
structure DiffOptions where
  before : String := ""
  after : String := ""
  output : Option String := none
  graph : GraphOptions := {}
deriving DecidableEq, Repr

/-- A command with its options. -/
inductive Invocation where
  | record (options : RecordOptions)
  | selfProfile (options : SelfProfileOptions)
  | render (options : RenderOptions)
  | diff (options : DiffOptions)
deriving DecidableEq, Repr

/-! ## Values -/

/-- A value that is some text. -/
def orMalformed {α : Type} : Option α → Except UsageError α
  | some a => .ok a
  | none => .error .malformedValue

/-- A number below `2 ^ 64`. -/
def wordValue (text : String) : Except UsageError Nat :=
  orMalformed (Text.unsigned? 10 (wordLimit 64) text.toList)

/-- A number in a range; it may be written with a sign. -/
def rangedValue (lo hi : Int) (text : String) : Except UsageError Int :=
  orMalformed ((Text.signed? 64 text.toList).filter fun n => lo ≤ n && n ≤ hi)

/-- A number below `2 ^ 32`. -/
def halfWordValue (text : String) : Except UsageError Nat := do
  return (← rangedValue 0 (wordLimit 32 - 1) text).toNat

def pidValue (text : String) : Except UsageError Pid := do
  return ⟨← rangedValue (-wordLimit 31) (wordLimit 31 - 1) text⟩

def pathValue (text : String) : Except UsageError String :=
  if text.isEmpty then .error .invalidValue else .ok text

/-- The name of a source of function names. -/
def resolverValue : String → Except UsageError ResolverKind
  | "dwarf" => .ok .images
  | "addr2line" => .ok .addressTool
  | _ => .error .invalidValue

/-! ## Parameters -/

def parameter {σ α : Type} (name : String) (letter : Option Char)
    (read : String → Except UsageError α) (set : α → σ → σ) : Parameter σ where
  name
  letter
  assign text s := do return set (← read text) s

def graphParameters {σ : Type} (change : (GraphOptions → GraphOptions) → σ → σ) :
    List (Parameter σ) :=
  [parameter "title" none Except.ok fun title => change fun g => { g with title },
   parameter "width" none halfWordValue fun width => change fun g => { g with width }]

/-- The options of every command with a session's results. -/
def pathParameters {σ : Type} (change : (ResultPaths → ResultPaths) → σ → σ) :
    List (Parameter σ) :=
  [parameter "output" (some 'o') pathValue fun p => change fun r => { r with folded := some p },
   parameter "svg" none pathValue fun p => change fun r => { r with svg := some p },
   parameter "summary" none pathValue fun p => change fun r => { r with summary := some p }]

def sampleParameters {σ : Type} (change : (SessionConfig → SessionConfig) → σ → σ) :
    List (Parameter σ) :=
  [parameter "frequency" (some 'F') halfWordValue fun frequencyHz =>
     change fun s => { s with frequencyHz },
   parameter "max-samples" none wordValue fun maxSamples => change fun s => { s with maxSamples }]

def recordGrammar : Grammar RecordOptions where
  options :=
    [parameter "pid" (some 'p') pidValue fun pid o => { o with pid := some pid },
     parameter "duration" (some 'd') wordValue fun seconds o =>
       { o with session := { o.session with durationMs := seconds * 1000 } },
     parameter "mmap-pages" none wordValue fun dataPages o =>
       { o with session := { o.session with dataPages } },
     parameter "resolver" none resolverValue fun resolver o => { o with resolver }]
    ++ sampleParameters (fun f o => { o with session := f o.session })
    ++ pathParameters (fun f o => { o with paths := f o.paths })
    ++ graphParameters (fun f o => { o with graph := f o.graph })
  positional :=
    [parameter "PROCESS" none Except.ok fun name o => { o with process := some name }]

def selfProfileGrammar : Grammar SelfProfileOptions where
  options :=
    [parameter "iterations" (some 'n') halfWordValue fun iterations o => { o with iterations }]
    ++ sampleParameters (fun f o => { o with session := f o.session })
    ++ pathParameters (fun f o => { o with paths := f o.paths })
    ++ graphParameters (fun f o => { o with graph := f o.graph })

def renderGrammar : Grammar RenderOptions where
  options :=
    [parameter "input" (some 'i') pathValue fun p o => { o with input := some p },
     parameter "output" (some 'o') pathValue fun p o => { o with output := some p }]
    ++ graphParameters (fun f o => { o with graph := f o.graph })

def diffGrammar : Grammar DiffOptions where
  options :=
    [parameter "output" (some 'o') pathValue fun p o => { o with output := some p }]
    ++ graphParameters (fun f o => { o with graph := f o.graph })
  positional :=
    [parameter "BEFORE" none pathValue fun before o => { o with before },
     parameter "AFTER" none pathValue fun after o => { o with after }]

/-! ## Commands -/

/-- Reads the arguments of a recording; a name and a number exclude each other. -/
def readRecord (arguments : List String) : Except UsageError RecordOptions := do
  let (options, given) ← recordGrammar.read {} arguments
  if given.contains "PROCESS" && given.contains "pid" then .error .conflict else return options

/-- Reads the arguments of a difference; both profiles must be given. -/
def readDiff (arguments : List String) : Except UsageError DiffOptions := do
  let (options, given) ← diffGrammar.read {} arguments
  if given.contains "BEFORE" && given.contains "AFTER" then return options
  else .error .missingArgument

/-- The name of the command that explains the others. -/
def helpCommand : String := "help"

/-- Reads the arguments of the command of a name, if there is one. -/
def readCommand? : String → Option (List String → Except UsageError Invocation)
  | "record" => some fun arguments => .record <$> readRecord arguments
  | "self-profile" => some fun arguments => do
    return .selfProfile (← selfProfileGrammar.read {} arguments).1
  | "render" => some fun arguments => do return .render (← renderGrammar.read {} arguments).1
  | "diff" => some fun arguments => .diff <$> readDiff arguments
  | _ => none

/-- Whether a text is the name of a command. -/
def isCommand (name : String) : Bool :=
  name == helpCommand || (readCommand? name).isSome

/-- The answer to a question for help about a command. -/
def readHelp : List String → UsageError
  | [] => .help
  | [name] => if isCommand name then .help else .unknownCommand
  | _ => .unknownCommand

/-- Reads an option that stands in place of a command. -/
def readGlobalOption (text : List Char) : UsageError :=
  match text with
  | '-' :: name =>
    match Grammar.splitLong name with
    | ("help", none) => .help
    | ("version", none) => .version
    | ("help", some _) => .tooManyValues
    | ("version", some _) => .tooManyValues
    | _ => .unknownArgument
  | 'h' :: _ => .help
  | 'V' :: _ => .version
  | _ => .unknownArgument

/-- Reads what stands after a lone `--` in place of a command. -/
def readAfterDashes : List String → UsageError
  | [] => .helpForLack
  | name :: _ => if isCommand name then .unknownArgument else .unknownCommand

def read : List String → Except UsageError Invocation
  | [] => .error .helpForLack
  | first :: rest =>
    match readCommand? first with
    | some readArguments => readArguments rest
    | none =>
      if first = helpCommand then .error (readHelp rest)
      else
        match first.toList with
        | ['-', '-'] => .error (readAfterDashes rest)
        | '-' :: c :: text => .error (readGlobalOption (c :: text))
        | _ => .error .unknownCommand

end StackProfiler.Arguments
