import StackProfiler.Error.Domain

/-!
# Failures of a command

A failure is a cause with the contexts it passed through on its way out. Its text names the
contexts from the outside in, then the cause and the error behind the cause.
-/

namespace StackProfiler

/-- What made a command fail. -/
inductive Cause where
  | profiler (error : ProfilerError)
  | render (error : RenderError)
  | fold (error : FoldError)
  | io (error : IoError)
  /-- A task that ran beside the command broke down, which is told in words only. -/
  | task (text : String)
  /-- Something that is told in words only. -/
  | told (text : String)
deriving DecidableEq, Repr

namespace Cause

/-- What the cause says, and what the error behind it says. -/
def messages : Cause → List String
  | profiler error => error.message :: (error.source?.map IoError.message).toList
  | render error => [error.message]
  | fold error => [error.message, error.source.message]
  | io error => [error.message]
  | task text => [text]
  | told text => [text]

/-- The cause spelled out with all its parts. -/
def debugText : Cause → String
  | profiler error => error.debugText
  | render error => error.debugText
  | fold error => error.debugText
  | io error => error.debugText
  | task text => text
  | told text => Text.quoted text

end Cause

/-- A cause in its contexts. -/
structure Failure where
  /-- What was being done, the outermost first. -/
  contexts : List String := []
  cause : Cause
deriving DecidableEq, Repr

namespace Failure

/-- The failure in one more context. -/
def within (f : Failure) (context : String) : Failure :=
  { f with contexts := context :: f.contexts }

/-- Every message of the failure, from the outside in. -/
def chain (f : Failure) : List String :=
  f.contexts ++ f.cause.messages

def outermost (f : Failure) : String :=
  f.chain.headD ""

def text (f : Failure) : String :=
  ": ".intercalate f.chain

end Failure

end StackProfiler
