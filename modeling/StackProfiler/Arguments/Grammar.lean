/-!
# Reading arguments

The arguments of a command are options and positional values. An option is given by its long name
after two dashes or by its letter after one, and its value follows: after an equals sign, right
behind the letter, or as the next argument. After a lone `--` every argument is positional.

A value that stands in an argument of its own is taken up when the next option or positional value
begins, so that an argument that is not known is reported before a bad value in front of it.
-/

namespace StackProfiler.Arguments

/-- Why arguments ask for something else than running a command. -/
inductive UsageError where
  | unknownArgument
  /-- A value is missing or none of those allowed. -/
  | invalidValue
  /-- A value is malformed or out of range. -/
  | malformedValue
  | tooManyValues
  /-- An option is given twice, or with another one that excludes it. -/
  | conflict
  | missingArgument
  | unknownCommand
  | help
  | version
  /-- Nothing was given. -/
  | helpForLack
deriving DecidableEq, Repr

namespace UsageError

def kind : UsageError → String
  | unknownArgument => "UnknownArgument"
  | invalidValue => "InvalidValue"
  | malformedValue => "ValueValidation"
  | tooManyValues => "TooManyValues"
  | conflict => "ArgumentConflict"
  | missingArgument => "MissingRequiredArgument"
  | unknownCommand => "InvalidSubcommand"
  | help => "DisplayHelp"
  | version => "DisplayVersion"
  | helpForLack => "DisplayHelpOnMissingArgumentOrSubcommand"

end UsageError

/-- An option or a positional value; `σ` is what the arguments fill in. -/
structure Parameter (σ : Type) where
  /-- Its name, which is also the long name of an option. -/
  name : String
  letter : Option Char := none
  assign : String → σ → Except UsageError σ

/-- The arguments that a command takes. -/
structure Grammar (σ : Type) where
  options : List (Parameter σ)
  positional : List (Parameter σ) := []

/-- How far reading has come. -/
structure Reading (σ : Type) where
  value : σ
  /-- Names of the parameters taken up so far. -/
  given : List String := []
  /-- A parameter that is not taken up yet, and its value if that was seen. -/
  waiting : Option (Parameter σ × Option String) := none
  /-- The positional values still to come. -/
  positional : List (Parameter σ)
  /-- Whether a lone `--` was seen. -/
  onlyPositional : Bool := false

namespace Reading

variable {σ : Type}

def take (r : Reading σ) (p : Parameter σ) (text : String) : Except UsageError (Reading σ) :=
  if r.given.contains p.name then .error .conflict
  else do
    let value ← p.assign text r.value
    return { r with value, given := p.name :: r.given }

def settle (r : Reading σ) : Except UsageError (Reading σ) :=
  match r.waiting with
  | none => .ok r
  | some (_, none) => .error .invalidValue
  | some (p, some text) => { r with waiting := none }.take p text

/-- Takes up what is waiting, and then lets a parameter wait. -/
def await (r : Reading σ) (p : Parameter σ) (text : Option String) :
    Except UsageError (Reading σ) := do
  return { ← r.settle with waiting := some (p, text) }

/-- Begins an option, whose value may be attached to it. -/
def beginOption (r : Reading σ) (p : Parameter σ) : (attached : Option String) →
    Except UsageError (Reading σ)
  | none => r.await p none
  | some text => do (← r.settle).take p text

def takePositional (r : Reading σ) (text : String) : Except UsageError (Reading σ) :=
  match r.positional with
  | [] => .error .unknownArgument
  | p :: rest => { r with positional := rest }.await p (some text)

end Reading

namespace Grammar

variable {σ : Type}

/-- Asks for help, unless what is waiting cannot be taken up. -/
def askForHelp (r : Reading σ) : Except UsageError (Reading σ) := do
  let _ ← r.settle
  .error .help

/-- The name and the attached value of an option without its dashes. -/
def splitLong (text : List Char) : String × Option String :=
  let name := text.takeWhile (· != '=')
  match text.drop name.length with
  | [] => (String.ofList name, none)
  | _ :: value => (String.ofList name, some (String.ofList value))

def readLong (g : Grammar σ) (r : Reading σ) (text : List Char) :
    Except UsageError (Reading σ) :=
  let (name, attached) := splitLong text
  match g.options.find? (·.name == name) with
  | some p => r.beginOption p attached
  | none =>
    if name = "help" then
      match attached with
      | some _ => .error .tooManyValues
      | none => askForHelp r
    else .error .unknownArgument

/-- The value that stands right behind the letter of an option. -/
def attachedToLetter : List Char → Option String
  | [] => none
  | '=' :: value => some (String.ofList value)
  | value => some (String.ofList value)

def readLetter (g : Grammar σ) (r : Reading σ) (letter : Char) (rest : List Char) :
    Except UsageError (Reading σ) :=
  match g.options.find? (·.letter == some letter) with
  | some p => r.beginOption p (attachedToLetter rest)
  | none => if letter = 'h' then askForHelp r else .error .unknownArgument

def readPlain (r : Reading σ) (text : String) : Except UsageError (Reading σ) :=
  match r.waiting with
  | some (p, none) => .ok { r with waiting := some (p, some text) }
  | _ => r.takePositional text

def readOne (g : Grammar σ) (r : Reading σ) (argument : String) : Except UsageError (Reading σ) :=
  if r.onlyPositional then r.takePositional argument
  else
    match argument.toList with
    | ['-', '-'] => .ok { r with onlyPositional := true }
    | '-' :: '-' :: text => g.readLong r text
    | '-' :: letter :: rest => g.readLetter r letter rest
    | _ => readPlain r argument

/-- Reads all arguments: what they fill in, and the names of the parameters that were given. -/
def read (g : Grammar σ) (start : σ) (arguments : List String) :
    Except UsageError (σ × List String) := do
  let r ← arguments.foldlM g.readOne { value := start, positional := g.positional }
  let r ← r.settle
  return (r.value, r.given)

end Grammar

end StackProfiler.Arguments
